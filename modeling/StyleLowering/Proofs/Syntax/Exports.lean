/-
# Names that can be seen from outside

What a module exports, in the order of its declarations, and the keys of the
properties of an object literal.  The names of an export declaration come from
its specifiers, or from a declaration that it holds; the latter, and the name of
an exported namespace, are identifiers themselves.
-/

import StyleLowering.Proofs.Syntax.Imports

namespace StyleLowering

/-! ### Exported names -/

/-- The parts of a pattern or a declaration in which names are bound. -/
def Kind.bindingParts {α : Type} : Kind → List α → List α
  | .arrayPattern, ps | .objectPattern, ps | .restElement, ps | .variableDeclaration, ps => ps
  | .keyValuePattern, ps => ps.drop 1
  | .assignmentPattern, ps | .assignmentPatternProperty, ps | .declarator, ps
  | .functionDeclaration, ps | .classDeclaration, ps => ps.take 1
  | _, _ => []

mutual

/-- The identifiers that a pattern or a declaration binds. -/
def Node.bound : Node → List Ident
  | .leaf (.ident .binding x) => [x]
  | .leaf _ => []
  | .run ns => (Node.boundEach ns).flatten
  | .inner k _ ns => (k.bindingParts (Node.boundEach ns)).flatten

/-- The identifiers that each of several nodes binds. -/
def Node.boundEach : List Node → List (List Ident)
  | [] => []
  | n :: ns => n.bound :: Node.boundEach ns

end

/-- Which parts bind names depends on their places alone. -/
theorem Kind.bindingParts_map {α β : Type} (k : Kind) (f : α → β) (ps : List α) :
    k.bindingParts (ps.map f) = (k.bindingParts ps).map f := by
  unfold bindingParts
  split <;> simp

/-- The parts that bind names are parts. -/
theorem Kind.bindingParts_subset {α : Type} (k : Kind) (ps : List α) : k.bindingParts ps ⊆ ps := by
  unfold bindingParts
  split
  case h_11 => exact List.nil_subset ps
  case h_5 => exact List.drop_subset 1 ps
  case h_6 | h_7 | h_8 | h_9 | h_10 => exact List.take_subset 1 ps
  all_goals exact List.Subset.refl ps

/-- What holds of parts, one by one, holds of those that bind names. -/
theorem Kind.forall₂_bindingParts {α β : Type} {R : α → β → Prop} {as : List α} {bs : List β}
    (h : List.Forall₂ R as bs) (k : Kind) :
    List.Forall₂ R (k.bindingParts as) (k.bindingParts bs) := by
  unfold bindingParts
  split
  case h_11 => exact .nil
  case h_5 => exact List.forall₂_drop 1 h
  case h_6 | h_7 | h_8 | h_9 | h_10 => exact List.forall₂_take 1 h
  all_goals exact h

namespace Node

/-- The names of several patterns are those of each of them. -/
theorem boundEach_eq_map (ns : List Node) : boundEach ns = ns.map bound := by
  induction ns with
  | nil => rw [boundEach, List.map_nil]
  | cons n ns ih => rw [boundEach, ih, List.map_cons]

/-- A run binds what its items bind. -/
theorem bound_run (ns : List Node) : (Node.run ns).bound = ns.flatMap bound := by
  rw [bound, boundEach_eq_map, List.flatMap_def]

/-- A node binds what its binding parts bind. -/
theorem bound_inner (k : Kind) (h : Head) (ns : List Node) :
    (Node.inner k h ns).bound = (k.bindingParts ns).flatMap bound := by
  rw [bound, boundEach_eq_map, Kind.bindingParts_map, List.flatMap_def]

/-- In `{ a: [x], y = 0, ...z }`, a pattern, `x`, `y` and `z` are bound. -/
example :
    let x (name : String) : Node := .ident .binding (.generated name)
    (Node.inner .objectPattern Head.empty [.run [
      .inner .keyValuePattern Head.empty
        [.word ⟨Span.dummy, "a"⟩, .inner .arrayPattern Head.empty [.run [x "x"]]],
      .inner .assignmentPatternProperty Head.empty [x "y", .inner .number Head.empty []],
      .inner .restElement Head.empty [x "z"]]]).bound =
      [.generated "x", .generated "y", .generated "z"] := by
  decide

end Node

/-- A name under which something is exported. -/
inductive ExportedName where
  | name (text : String)
  /-- All names that a source exports. -/
  | allOf (source : String)
  deriving DecidableEq, Repr

/-- An entry of an export declaration. -/
inductive ExportEntry where
  /-- A name that stands for itself. -/
  | outer (name : String)
  | allOf (source : String)
  /-- The name of an identifier that the declaration declares. -/
  | declared (x : Ident)
  deriving DecidableEq, Repr

/-- The name of an entry. -/
def ExportEntry.exportedName : ExportEntry → ExportedName
  | .outer name => .name name
  | .allOf source => .allOf source
  | .declared x => .name x.name

namespace Node

/-- The name that an export has by a node. -/
def exportName? : Node → Option String
  | .ident _ x => some x.name
  | .text s => some s.value
  | _ => none

/-- The outer name of a specifier, which is the local one if no other is given. -/
def outerName? (name outer : Node) : Option String :=
  match outer with
  | .absent => name.exportName?
  | _ => outer.exportName?

/-- The entry of an exported namespace, given by its name. -/
def entryOfNamespace? : Node → Option ExportEntry
  | .ident _ x => some (.declared x)
  | .text s => some (.outer s.value)
  | _ => none

/-- The entry of a specifier. -/
def entryOfSpecifier? : Node → Option ExportEntry
  | .inner .exportSpecifier _ [name, outer] => (outerName? name outer).map .outer
  | .inner .exportNamespace _ (p :: _) => p.entryOfNamespace?
  | _ => none

/-- The entries of a list of specifiers. -/
def specifierEntries : Node → List ExportEntry
  | .run specifiers => specifiers.flatMap fun n => n.entryOfSpecifier?.toList
  | _ => []

/-- The entry of a source that is exported as a whole. -/
def sourceEntries : Node → List ExportEntry
  | .text s => [.allOf s.value]
  | _ => []

end Node

/-- The entries of a module item of some kind, none if it is no export declaration. -/
def Kind.exportEntries : Kind → List Node → List ExportEntry
  | .exportDeclaration, ps => (ps.flatMap Node.bound).map .declared
  | .exportNamed, ps => (ps.take 1).flatMap Node.specifierEntries
  | .exportDefaultDeclaration, _ | .exportDefaultExpression, _ => [.outer "default"]
  | .exportAll, ps => (ps.take 1).flatMap Node.sourceEntries
  | _, _ => []

/-- The entries of a module item. -/
def Node.exportEntries : Node → List ExportEntry
  | .inner k _ ps => k.exportEntries ps
  | _ => []

/-- The entries of an item. -/
def Item.exportEntries : Item → List ExportEntry
  | .importing _ => []
  | .node n => n.exportEntries

/-- The entries of the export declarations of a program, in their order; a script has none. -/
def Program.exportEntries : Program → List ExportEntry
  | .module m => m.body.flatMap Item.exportEntries
  | .script _ => []

/-- The names that a program exports, in the order of its declarations. -/
def Program.exports (p : Program) : List ExportedName :=
  p.exportEntries.map ExportEntry.exportedName

/-- No declaration that is exported, and no exported namespace, is taken for an import. -/
def Program.ExportsResolved (p : Program) : Prop :=
  ∀ x, .declared x ∈ p.exportEntries → ∀ d ∈ p.imports, x.id ∉ d.bindings

/-! ### Property keys -/

/-- The key of a property of an object literal. -/
inductive PropertyKey where
  /-- A name, be it in quotes or not. -/
  | name (text : String)
  /-- A number. -/
  | literal (k : Kind) (h : Head)
  /-- An expression in brackets. -/
  | computed
  /-- No key, as of a spread property, which brings its own ones along. -/
  | none
  deriving DecidableEq, Repr

/-- Properties with a key in front of a value, an accessor or a method. -/
def Kind.hasKey : Kind → Bool
  | .keyValue | .getter | .setter | .method => true
  | _ => false

namespace Node

/-- The key that stands in front of a value, an accessor or a method. -/
def asKey : Node → PropertyKey
  | .word w => .name w.text
  | .text s => .name s.value
  | .inner k h _ =>
    if k = .computed then .computed else if k.isLiteral then .literal k h else .none
  | _ => .none

/-- The key of a property.  A name with an initializer is no property of an object literal
but of a pattern that has not been recognised as one. -/
def propertyKey : Node → PropertyKey
  | .ident .shorthand x => .name x.name
  | .inner k _ (key :: _) => if k.hasKey then key.asKey else .none
  | _ => .none

/-- The keys of a list of properties. -/
def propertyKeys : Node → List PropertyKey
  | .run properties => properties.map propertyKey
  | _ => []

end Node
end StyleLowering
