/-
# Recipes

What becomes of the bindings of an import.  A recipe belongs to an import
source as it is written; sources without one are left alone.  A few sources
have a recipe from the start, and a file may add its own.
-/

namespace StyleLowering

/-- The platform a styled import is for. -/
inductive StyledTarget where
  | web
  | native
  | primitives
  deriving DecidableEq, Repr

namespace StyledTarget

/-- The source of the styled runtime of a platform. -/
def importPath : StyledTarget → String
  | .web => "@emotion/styled-base"
  | .native => "@emotion/native"
  | .primitives => "@emotion/primitives"

/-- Only on the web are there stable class names and calls by tag name. -/
def isWeb : StyledTarget → Bool
  | .web => true
  | _ => false

end StyledTarget

/-- What becomes of the bindings of an import. -/
inductive Recipe where
  /-- The default export makes styles. -/
  | css
  /-- The default export makes styled components. -/
  | styled (target : StyledTarget)
  /-- The export `css` makes styles; the import stays and keeps its names. -/
  | core
  /-- Every export is imported again from the path. -/
  | emotion (path : String)
  deriving DecidableEq, Repr

/-- Whether the import declaration stays in the file. -/
def Recipe.keepsImport : Recipe → Bool
  | .core => true
  | _ => false

/-- Recipes by import source. -/
structure Registry where
  entries : List (String × Recipe)
  deriving Repr

namespace Registry

/-- No recipes. -/
def empty : Registry := ⟨[]⟩

/-- The recipe of a source. -/
def get? (r : Registry) (source : String) : Option Recipe := r.entries.lookup source

/-- Whether a source has a recipe. -/
def contains (r : Registry) (source : String) : Bool := (r.get? source).isSome

/-- The registry in which a source has the given recipe. -/
def register (r : Registry) (source : String) (recipe : Recipe) : Registry :=
  ⟨(source, recipe) :: r.entries⟩

/-- The recipes that every file starts with. -/
def builtin : Registry := ⟨[
  ("@emotion/css", .css),
  ("@emotion/styled", .styled .web),
  ("@emotion/core", .core),
  ("react-emotion", .styled .web),
  ("@emotion/primitives", .styled .primitives),
  ("@emotion/native", .styled .native),
  ("emotion", .emotion "emotion")]⟩

/-- What has been registered is found. -/
theorem get?_register_self (r : Registry) (source : String) (recipe : Recipe) :
    (r.register source recipe).get? source = some recipe := by
  simp [get?, register]

/-- Other sources are found as before. -/
theorem get?_register_of_ne (r : Registry) {source other : String} (recipe : Recipe)
    (h : other ≠ source) : (r.register source recipe).get? other = r.get? other := by
  simp [get?, register, List.lookup_cons, beq_eq_false_iff_ne.2 h]

end Registry
end StyleLowering
