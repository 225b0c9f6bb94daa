/-
# What is evaluated in a pure expression

The test for purity goes down a tree from node to node and stops at functions.  What it decides
can be said of all nodes at once that are evaluated when the expression is: none of them is
forbidden (`Scope.isPure_iff`).

To evaluate a function is to make it, which looks at none of its parts; of a method in an object
literal the key is evaluated, and no more.  Decorators stand on the members of classes only.
-/

import StyleLowering.Scope.Purity

namespace StyleLowering

namespace Kind

/-- The parts of a node that are evaluated with it: none of a function, the key of a method in an
object, and all parts of any other node.  Literals have no parts. -/
def evaluatedParts (k : Kind) (parts : List Node) : List Node :=
  match k with
  | .functionExpression | .functionDeclaration | .methodFunction | .arrow => []
  | .method => parts.take 1
  | k => if k.isLiteral then [] else parts

/-- What is evaluated of a node are parts of it. -/
theorem evaluatedParts_subset (k : Kind) (parts : List Node) :
    k.evaluatedParts parts ⊆ parts := by
  unfold evaluatedParts
  split
  case h_5 => exact List.take_subset 1 parts
  case h_6 =>
    split
    · exact List.nil_subset parts
    · exact List.Subset.refl parts
  all_goals exact List.nil_subset parts

/-- The kinds of what arrays and objects are made of, which are no expressions by themselves:
elements, properties, and names in brackets. -/
def isEntry : Kind → Bool
  | .argument | .spreadArgument | .spread | .keyValue | .assignmentProperty | .getter | .setter
  | .method | .computed => true
  | _ => false

/-- The kinds of expressions that are allowed: literals, parentheses, templates, operators, arrays,
objects and functions.  Names and strings are leaves. -/
def isAllowed (k : Kind) : Bool :=
  k.isLiteral ||
    match k with
    | .paren | .template | .unary | .binary | .array | .object
    | .functionExpression | .arrow => true
    | _ => false

end Kind

namespace Node

/-- Evaluating the first node evaluates the second one. -/
inductive Evaluates : Node → Node → Prop where
  | self (n : Node) : Evaluates n n
  | item {items : List Node} {m n : Node} (hm : m ∈ items) (h : Evaluates m n) :
      Evaluates (.run items) n
  | part {k : Kind} {h : Head} {parts : List Node} {m n : Node} (hm : m ∈ k.evaluatedParts parts)
      (hn : Evaluates m n) : Evaluates (.inner k h parts) n

/-- The nodes that a pure expression must not evaluate. -/
inductive IsForbidden (u : Context) : Node → Prop where
  /-- A name that no scope binds, by itself or as a shorthand property. -/
  | unbound {role : Role} {x : Ident} (hx : x.context = u) : IsForbidden u (.ident role x)
  | delete {h : Head} {parts : List Node} (ho : h.operator? = some "delete") :
      IsForbidden u (.inner .unary h parts)
  | spreadElement {h : Head} {parts : List Node} : IsForbidden u (.inner .spreadArgument h parts)
  | spreadProperty {h : Head} {parts : List Node} : IsForbidden u (.inner .spread h parts)
  | getter {h : Head} {parts : List Node} : IsForbidden u (.inner .getter h parts)
  | setter {h : Head} {parts : List Node} : IsForbidden u (.inner .setter h parts)
  | assignment {h : Head} {parts : List Node} : IsForbidden u (.inner .assignmentProperty h parts)
  /-- An expression that is not of one of the allowed kinds. -/
  | expression {k : Kind} {h : Head} {parts : List Node} (he : k.isEntry = false)
      (hk : k.isAllowed = false) : IsForbidden u (.inner k h parts)
  /-- A method without a key, which there is in no program. -/
  | keyless {h : Head} : IsForbidden u (.inner .method h [])

end Node

namespace Scope

variable {u : Context}

/-- A leaf is pure unless it is forbidden. -/
theorem isPureLeaf_iff (a : Leaf) : isPureLeaf u a = true ↔ ¬(Node.leaf a).IsForbidden u := by
  cases a with
  | ident role x =>
    rw [isPureLeaf, bne_iff_ne]
    exact not_congr ⟨.unbound, fun h => by cases h; assumption⟩
  | _ => exact iff_of_true rfl fun h => by cases h

/-- A run is not forbidden by itself. -/
theorem not_isForbidden_run (items : List Node) : ¬(Node.run items).IsForbidden u := by
  intro h
  cases h

/-- Whether the test accepts a node, its parts left aside. -/
def accepts (h : Head) (k : Kind) : Bool :=
  k.isLiteral || k == .arrow || k == .functionExpression || isTransparent h k

/-- The test does not accept `delete`, a property or an element that runs code of its own or
copies an object, nor an expression of another kind than the allowed ones. -/
theorem accepts_eq_false_iff {h : Head} {k : Kind} (hk : k ≠ .method) :
    accepts h k = false ↔ (k = .unary ∧ h.operator? = some "delete") ∨
      k ∈ [.spreadArgument, .spread, .getter, .setter, .assignmentProperty] ∨
      (k.isEntry = false ∧ k.isAllowed = false) := by
  cases k <;> simp_all [accepts, isTransparent, Kind.isLiteral, Kind.isEntry, Kind.isAllowed]

/-- A node other than a method is forbidden if the test does not accept it. -/
theorem isForbidden_inner_iff {k : Kind} {h : Head} {parts : List Node} (hk : k ≠ .method) :
    (Node.inner k h parts).IsForbidden u ↔ accepts h k = false := by
  rw [accepts_eq_false_iff hk]
  constructor
  · intro hf
    cases hf with
    | delete ho => exact .inl ⟨rfl, ho⟩
    | expression he ha => exact .inr (.inr ⟨he, ha⟩)
    | keyless => exact absurd rfl hk
    | _ => exact .inr (.inl (by decide))
  · rintro (⟨rfl, ho⟩ | hmem | ⟨he, ha⟩)
    · exact .delete ho
    · simp only [List.mem_cons, List.not_mem_nil, or_false] at hmem
      rcases hmem with rfl | rfl | rfl | rfl | rfl
      · exact .spreadElement
      · exact .spreadProperty
      · exact .getter
      · exact .setter
      · exact .assignment
    · exact .expression he ha

/-- Nothing is evaluated with a literal and with a function. -/
theorem evaluatedParts_eq_nil {k : Kind} {parts : List Node}
    (hk : (k.isLiteral || k == .arrow || k == .functionExpression) = true) :
    k.evaluatedParts parts = [] := by
  unfold Kind.evaluatedParts
  split
  case h_5 => cases hk
  case h_6 hfunction _ _ harrow _ =>
    simp only [Bool.or_eq_true, beq_iff_eq] at hk
    obtain (hliteral | rfl) | rfl := hk
    · exact if_pos hliteral
    · exact absurd rfl harrow
    · exact absurd rfl hfunction
  all_goals rfl

/-- All parts are evaluated with a node that is pure as soon as they are. -/
theorem evaluatedParts_of_isTransparent {h : Head} {k : Kind} {parts : List Node}
    (hk : isTransparent h k = true) : k.evaluatedParts parts = parts := by
  unfold isTransparent at hk
  split at hk
  case h_10 => cases hk
  all_goals rfl

/-- **One node.**  An inner node is pure if it is not forbidden and the parts that are evaluated
with it are pure. -/
theorem isPure_inner_iff (k : Kind) (h : Head) (parts : List Node) :
    isPure u (.inner k h parts) = true ↔
      ¬(Node.inner k h parts).IsForbidden u ∧ ∀ m ∈ k.evaluatedParts parts, isPure u m = true := by
  by_cases hm : k = .method
  · subst hm
    cases parts with
    | nil =>
      rw [isPure_inner u h (by simp)]
      exact iff_of_false (by simp [Kind.isLiteral, isTransparent]) fun hf => hf.1 .keyless
    | cons key rest =>
      have hnot : ¬(Node.inner .method h (key :: rest)).IsForbidden u := by
        intro hf
        cases hf with
        | expression he _ => cases he
      have hparts : Kind.evaluatedParts .method (key :: rest) = [key] := rfl
      rw [isPure, hparts, List.forall_mem_singleton]
      exact ⟨fun hkey => ⟨hnot, hkey⟩, And.right⟩
  · rw [isPure_inner u h (fun _ _ hk => hm hk.1), isForbidden_inner_iff hm, Bool.not_eq_false,
      accepts, arePure_eq_all]
    cases hmade : (k.isLiteral || k == .arrow || k == .functionExpression) with
    | true => simp [evaluatedParts_eq_nil hmade]
    | false =>
      cases htransparent : isTransparent h k with
      | false => simp
      | true => simp [evaluatedParts_of_isTransparent htransparent]

/-- **Purity.**  An expression is pure exactly if nothing is forbidden that is evaluated with it. -/
theorem isPure_iff (u : Context) (e : Node) :
    isPure u e = true ↔ ∀ n, e.Evaluates n → ¬n.IsForbidden u := by
  induction e with
  | leaf a =>
    rw [isPure, isPureLeaf_iff]
    constructor
    · rintro h n ⟨⟩
      exact h
    · exact fun h => h _ (.self _)
  | run items ih =>
    rw [isPure, arePure_eq_all, List.all_eq_true]
    constructor
    · rintro h n (_ | ⟨hm, hn⟩)
      · exact not_isForbidden_run items
      · exact (ih _ hm).1 (h _ hm) n hn
    · exact fun h m hm => (ih m hm).2 fun n hn => h n (.item hm hn)
  | inner k h parts ih =>
    have hsubset : ∀ m ∈ k.evaluatedParts parts, m ∈ parts := k.evaluatedParts_subset parts
    rw [isPure_inner_iff]
    constructor
    · rintro ⟨hself, hparts⟩ n (_ | _ | ⟨hm, hn⟩)
      · exact hself
      · exact (ih _ (hsubset _ hm)).1 (hparts _ hm) n hn
    · intro hall
      refine ⟨hall _ (.self _), fun m hm => ?_⟩
      exact (ih m (hsubset m hm)).2 fun n hn => hall n (.part hm hn)

end Scope
end StyleLowering
