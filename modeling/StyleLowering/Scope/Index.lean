/-
# The scope index

The bindings that a program declares and the places where names are used.  An
index is taken of a program once and grows stale when the program changes; it
counts how often it has been taken anew.

Identifiers in binding positions declare, and all others are uses, the names of
statements excepted.
-/

import StyleLowering.Syntax.Idents

namespace StyleLowering
namespace Scope

/-- Whether an identifier is recorded as a use. -/
def isUse (m : Mention) : Bool :=
  match m.role with
  | .reference | .shorthand | .exportLocal | .exported => true
  | .binding | .label => false

/-- Whether an identifier declares its binding. -/
def isDeclaration (m : Mention) : Bool :=
  m.role == .binding

/-- What a program declares and uses, and how fresh that knowledge is. -/
structure Index where
  declared : List Id
  uses : List (Id × Span)
  stale : Bool
  generation : Nat
  deriving DecidableEq, Repr

namespace Index

/-- The bindings among the identifiers of a program. -/
def declaredOf (ms : List Mention) : List Id :=
  (ms.filter isDeclaration).map fun m => m.ident.id

/-- The uses among the identifiers of a program, in visiting order. -/
def usesOf (ms : List Mention) : List (Id × Span) :=
  (ms.filter isUse).map fun m => (m.ident.id, m.ident.span)

/-- The index after one more look at the program. -/
def rebuild (i : Index) (p : Program) : Index :=
  ⟨declaredOf p.mentions, usesOf p.mentions, false, i.generation + 1⟩

/-- The first index of a program. -/
def ofProgram (p : Program) : Index :=
  ⟨declaredOf p.mentions, usesOf p.mentions, false, 1⟩

/-- The index of a program that has changed. -/
def invalidate (i : Index) : Index := { i with stale := true }

/-- The index, taken anew if it is stale. -/
def refresh (i : Index) (p : Program) : Index :=
  if i.stale then i.rebuild p else i

/-- The places where a declared binding is used, `none` if it is not declared. -/
def sites? (i : Index) (x : Id) : Option (List Span) :=
  if x ∈ i.declared then some ((i.uses.filter fun u => u.1 = x).map Prod.snd) else none

/-- The names that are declared or used in some context. -/
def names (i : Index) : List String :=
  i.declared.map Id.name ++ i.uses.map fun u => u.1.name

/-- Whether a name is declared or used in some context. -/
def isTaken (i : Index) (name : String) : Bool := i.names.contains name

/-- The places where a declared binding is used are those of the uses recorded. -/
theorem mem_sites? {i : Index} {x : Id} {ss : List Span} (h : i.sites? x = some ss) {s : Span} :
    s ∈ ss ↔ (x, s) ∈ i.uses := by
  simp only [sites?, Option.ite_none_right_eq_some, Option.some.injEq] at h
  obtain ⟨-, rfl⟩ := h
  simp

/-- An index that has just been taken is up to date. -/
@[simp] theorem stale_rebuild (i : Index) (p : Program) : (i.rebuild p).stale = false := rfl

/-- An index that is marked is stale. -/
@[simp] theorem stale_invalidate (i : Index) : i.invalidate.stale = true := rfl

/-- An index that has been refreshed is up to date. -/
@[simp] theorem stale_refresh (i : Index) (p : Program) : (i.refresh p).stale = false := by
  unfold refresh
  split
  · rfl
  · simp_all

end Index
end Scope
end StyleLowering
