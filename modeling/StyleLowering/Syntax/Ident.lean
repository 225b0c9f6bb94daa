/-
# Identifiers and literals

The leaves of a syntax tree.  Names have been resolved before: an identifier
carries the syntax context of the scope that binds it, and two identifiers
mean the same binding when name and context agree.  A word is a name that
stands for itself, such as the `b` of `a.b`, and has no context.
-/

namespace StyleLowering

/-- A stretch of the source, in bytes counted from one.  Generated nodes have
the empty stretch at zero unless they take over another one.  Bytes are counted
in 32 bits, and the highest numbers are set aside: a stretch that starts at one
of them is not in the source, wherever it ends. -/
structure Span where
  start : Nat
  stop : Nat
  deriving DecidableEq, Repr, Inhabited

namespace Span

/-- The stretch of nodes that are not in the source. -/
def dummy : Span := ⟨0, 0⟩

/-- The first of the `2 ^ 16 + 1` numbers that are set aside for nodes that are
not in the source. -/
def firstReserved : Nat := 0xFFFFFFFF - 0x10000

/-- Whether nodes with this stretch are not in the source. -/
def isDummy (s : Span) : Bool :=
  (s.start == 0 && s.stop == 0) || firstReserved ≤ s.start

/-- The dummy span is one. -/
@[simp] theorem isDummy_dummy : dummy.isDummy = true := rfl

example : isDummy ⟨firstReserved - 1, 1⟩ = false ∧ isDummy ⟨firstReserved, 1⟩ = true ∧
    isDummy ⟨0, 1⟩ = false := by
  decide

end Span

/-- A syntax context, known by its number. -/
abbrev Context := Nat

namespace Context

/-- The context of generated identifiers. -/
def empty : Context := 0

/-- The context of names that no scope binds. -/
def unresolved : Context := 1

end Context

/-- A binding: a name in a syntax context. -/
structure Id where
  name : String
  context : Context
  deriving DecidableEq, Repr

/-- An identifier as it occurs in the tree. -/
structure Ident where
  span : Span
  context : Context
  name : String
  optional : Bool
  deriving DecidableEq, Repr

namespace Ident

/-- The binding an identifier means. -/
def id (x : Ident) : Id := ⟨x.name, x.context⟩

/-- A generated identifier. -/
def generated (name : String) : Ident := ⟨Span.dummy, Context.empty, name, false⟩

/-- A generated use of a name that no scope binds. -/
def global (name : String) : Ident := ⟨Span.dummy, Context.unresolved, name, false⟩

/-- The same identifier at another place. -/
def moveTo (x : Ident) (span : Span) : Ident := { x with span }

/-- An identifier that is moved means what it meant. -/
@[simp] theorem id_moveTo (x : Ident) (span : Span) : (x.moveTo span).id = x.id := rfl

/-- An identifier that is moved is where it was moved to. -/
@[simp] theorem span_moveTo (x : Ident) (span : Span) : (x.moveTo span).span = span := rfl

end Ident

/-- What an identifier does at its place. -/
inductive Role where
  /-- It uses a binding. -/
  | reference
  /-- It is at once a property name and a use of the binding of that name. -/
  | shorthand
  /-- It stands in a binding position: a pattern, an assigned name, or the name
  of a function or a class. -/
  | binding
  /-- It names a statement. -/
  | label
  /-- It names the binding that an export specifier exports. -/
  | exportLocal
  /-- It is the name under which something is exported. -/
  | exported
  deriving DecidableEq, Repr

/-- A name that stands for itself. -/
structure Word where
  span : Span
  text : String
  deriving DecidableEq, Repr

/-- A string literal; `raw` is its source form, which generated ones lack. -/
structure StringLiteral where
  span : Span
  value : String
  raw : Option String
  deriving DecidableEq, Repr

/-- A stretch of text in a template.  It has no cooked form when it holds an
escape without meaning. -/
structure Quasi where
  span : Span
  tail : Bool
  cooked : Option String
  raw : String
  deriving DecidableEq, Repr

/-- The text of a stretch, with its escapes replaced where that is possible. -/
def Quasi.text (q : Quasi) : String := q.cooked.getD q.raw

end StyleLowering
