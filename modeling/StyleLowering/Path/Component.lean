/-
# Components of a path

A path is a text cut at its slashes.  Empty pieces and pieces that are a lone
dot name nothing, except that a leading slash is the root and a leading dot of
a relative path is the current directory.  Nothing here looks at a file
system.

`parent?` and `join` work on the text itself: the parent of a path is a
leading part of it as it was written, and an absolute path joined to a
directory replaces the directory.
-/

namespace StyleLowering
namespace Path

/-- One step of a path. -/
inductive Component where
  /-- The leading slash of an absolute path. -/
  | root
  /-- The leading dot of a relative path. -/
  | current
  /-- A pair of dots. -/
  | parent
  /-- A name. -/
  | normal (name : List Char)
  deriving DecidableEq, Repr

/-- The text of a component by itself. -/
def Component.text : Component → List Char
  | .root => ['/']
  | .current => ['.']
  | .parent => ['.', '.']
  | .normal name => name

/-- The pieces between slashes; there is one more of them than slashes. -/
def pieces : List Char → List (List Char)
  | [] => [[]]
  | c :: cs =>
    if c = '/' then [] :: pieces cs
    else
      match pieces cs with
      | [] => [[c]]
      | p :: ps => (c :: p) :: ps

/-- Even the empty text has a piece. -/
theorem pieces_ne_nil (cs : List Char) : pieces cs ≠ [] := by
  cases cs with
  | nil => simp [pieces]
  | cons c cs =>
    simp only [pieces]
    split
    · simp
    · split <;> simp

/-- Pieces put together again with slashes between them. -/
def joinPieces : List (List Char) → List Char
  | [] => []
  | [p] => p
  | p :: q :: ps => p ++ '/' :: joinPieces (q :: ps)

/-- The pieces of a path make up the path. -/
theorem joinPieces_pieces (cs : List Char) : joinPieces (pieces cs) = cs := by
  induction cs with
  | nil => rfl
  | cons c cs ih =>
    simp only [pieces]
    split
    · next h =>
      cases hp : pieces cs with
      | nil => exact absurd hp (pieces_ne_nil cs)
      | cons p ps =>
        rw [hp] at ih
        simp [joinPieces, ih, h]
    · split
      · next hp => exact absurd hp (pieces_ne_nil cs)
      · next p ps hp =>
        rw [hp] at ih
        cases ps with
        | nil => rw [joinPieces] at ih ⊢; rw [ih]
        | cons q qs => rw [joinPieces] at ih ⊢; rw [List.cons_append, ih]

/-- A piece that names nothing. -/
def isBlank (piece : List Char) : Bool :=
  piece == [] || piece == ['.']

/-- The step a piece inside a path stands for. -/
def ofPiece (piece : List Char) : Option Component :=
  if isBlank piece then none
  else if piece = ['.', '.'] then some .parent
  else some (.normal piece)

/-- A path is absolute when it starts with a slash. -/
def isAbsolute (path : List Char) : Bool :=
  path.head? == some '/'

/-- The leading component that is not an ordinary step, with its text: the
root, or the dot of a path that is `.` or starts with `./`. -/
def lead (path : List Char) : Option Component :=
  match path with
  | '/' :: _ => some .root
  | ['.'] => some .current
  | '.' :: '/' :: _ => some .current
  | _ => none

/-- What follows the leading component. -/
def body (path : List Char) : List Char :=
  match lead path with
  | some _ => path.drop 1
  | none => path

/-- The steps of a path, in order. -/
def components (path : List Char) : List Component :=
  (lead path).toList ++ (pieces (body path)).filterMap ofPiece

/-- Without the blank pieces at its end. -/
def dropBlankEnd (ps : List (List Char)) : List (List Char) :=
  (ps.reverse.dropWhile isBlank).reverse

/-- The path without its last step, `none` when it has no step to lose (the
root and the empty path).  What remains is a leading part of the text, less
the slashes and lone dots at its end. -/
def parent? (path : List Char) : Option (List Char) :=
  match dropBlankEnd (pieces (body path)), lead path with
  | [], some .current => some []
  | [], _ => none
  | ps, l =>
    some ((l.map Component.text).getD [] ++ joinPieces (dropBlankEnd ps.dropLast))

/-- A path taken relative to a directory: an absolute path stands for itself,
any other is put behind the directory and a slash. -/
def join (dir path : List Char) : List Char :=
  if isAbsolute path || dir.isEmpty then path
  else if dir.getLast? = some '/' then dir ++ path
  else dir ++ '/' :: path

/-- The text of a list of steps: names with single slashes between them, behind
the root if there is one. -/
def render : List Component → List Char
  | .root :: cs => '/' :: joinPieces (cs.map Component.text)
  | cs => joinPieces (cs.map Component.text)

example : parent? "a//b/c".toList = some "a//b".toList ∧ parent? "/App.js".toList = some ['/'] ∧
    parent? "App.js".toList = some [] ∧ parent? "./a".toList = some ['.'] ∧
    parent? ['/'] = none ∧ parent? [] = none := by decide

end Path
end StyleLowering
