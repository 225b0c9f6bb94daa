/-
# Code that a pure expression runs

Purity was to mean that evaluating an expression calls no function.  Operators call functions on
their own, though: a template, an arithmetic operator, a comparison or a key in brackets converts
an object to a primitive value by calling methods of that object, and `instanceof` asks its right
operand for such a method.  The test for purity looks at the operands, but not at what becomes of
them, so an object literal with a method is a pure operand of any of these.

Here is what an expression may evaluate to (`Node.values`), with as much of a value as conversions
look into, and when a value brings functions along that a conversion may call (`Value.Answers`).
The names of properties are left aside: which of the functions a conversion looks for, and whether
it finds it, is not known.  Then a pure expression runs code exactly if an operand that is
converted or asked is an object literal with a method or a function-valued property, or a
function, or a name that stands for such a value (`Scope.runsCode_iff`).
-/

import Mathlib.Data.Set.Image
import StyleLowering.Proofs.Scope.Purity
import StyleLowering.Proofs.Syntax.Shape

namespace StyleLowering

/-- A value, as far as conversions look into it.  The properties of an object go with whether
their values are what the object inherits from. -/
inductive Value where
  | primitive
  | function
  | array (elements : List Value)
  | object (members : List (Bool × Value))

/-- What an operator demands of an operand. -/
inductive Demand where
  /-- A primitive value, which objects are converted to. -/
  | primitive
  /-- The test for what is an instance of the operand. -/
  | instanceTest
  deriving DecidableEq, Repr

/-- A value may meet a demand by calling a function it brings along: a function is an object with
methods itself, an object has them as properties or inherits them, and an array is converted by
converting its elements. -/
inductive Value.Answers : Demand → Value → Prop where
  | function {d : Demand} : Answers d .function
  | element {v : Value} {elements : List Value} (hv : v ∈ elements) (h : Answers .primitive v) :
      Answers .primitive (.array elements)
  | method {d : Demand} {members : List (Bool × Value)} (h : (false, .function) ∈ members) :
      Answers d (.object members)
  | inherited {d : Demand} {v : Value} {members : List (Bool × Value)} (hv : (true, v) ∈ members)
      (h : Answers d v) : Answers d (.object members)

/-- The values that names may stand for, at least one for each of them. -/
structure Bindings where
  values : Id → Set Value
  nonempty (x : Id) : (values x).Nonempty

namespace Bindings

/-- Names that stand for primitive values only. -/
def primitives : Bindings := ⟨fun _ => {.primitive}, fun _ => Set.singleton_nonempty _⟩

end Bindings

namespace Kind

/-- The kinds of nodes that stand for their last part. -/
def isWrapper : Kind → Bool
  | .paren | .argument | .computed | .keyValue => true
  | _ => false

/-- All parts of a wrapper are evaluated. -/
theorem evaluatedParts_of_isWrapper {k : Kind} (hk : k.isWrapper = true) (parts : List Node) :
    k.evaluatedParts parts = parts := by
  cases k <;> first | rfl | cases hk

/-- The kinds of functions, the methods of object literals among them. -/
def isFunction : Kind → Bool
  | .functionExpression | .arrow | .method => true
  | _ => false

/-- The values of a node as far as its kind decides, its parts left aside. -/
def values : Kind → Set Value
  | .number | .boolean | .nullLiteral | .bigInt | .jsxText | .template | .unary | .binary =>
    {.primitive}
  | .array => {.array []}
  | .object | .regExp => {.object []}
  | .functionExpression | .arrow | .method => {.function}
  | _ => Set.univ

/-- A node of every kind has some value. -/
theorem values_nonempty (k : Kind) : k.values.Nonempty := by
  unfold values
  split
  all_goals
    first
    | exact Set.singleton_nonempty _
    | exact ⟨.primitive, trivial⟩

/-- The kinds of nodes that call functions or may do so: a member may be accessed by a function,
what is spread is iterated by one, and the body of a class has code that runs at once. -/
def runsCode : Kind → Bool
  | .call | .optionalCall | .new | .tagged | .member | .bareMember | .superProperty | .update
  | .assignment | .spreadArgument | .spread | .yield | .await | .classExpression | .jsxElement
  | .jsxFragment => true
  | _ => false

end Kind

namespace Head

/-- Whether an operator gives its right operand unless the left one is false. -/
def isConjunction (h : Head) : Bool := h.operator? == some "&&"

/-- Whether an operator gives its left operand unless that is false or missing. -/
def isAlternative (h : Head) : Bool := h.operator? == some "||" || h.operator? == some "??"

/-- The values of two operands put together: a choice between them, or a primitive value.  An
object is neither false nor missing. -/
def combine (h : Head) (left right : Set Value) : Set Value :=
  if h.isConjunction then left ∩ {.primitive} ∪ right
  else if h.isAlternative then left ∪ {v | v ∈ right ∧ .primitive ∈ left}
  else {.primitive}

/-- An operation on values gives some value. -/
theorem combine_nonempty (h : Head) {left right : Set Value} (hl : left.Nonempty)
    (hr : right.Nonempty) : (h.combine left right).Nonempty := by
  unfold combine
  split
  · exact hr.inr
  · split
    · exact hl.inl
    · exact Set.singleton_nonempty _

end Head

namespace Node

/-- Whether a property says what the object inherits from. -/
def isPrototype : Node → Bool
  | .keyValue _ (.word w) _ => w.text == "__proto__"
  | .keyValue _ (.text s) _ => s.value == "__proto__"
  | _ => false

mutual

/-- The values that an expression or a property may have. -/
def values (ρ : Bindings) : Node → Set Value
  | .ident _ x => ρ.values x.id
  | .leaf _ | .run _ => {.primitive}
  | .inner .binary h [l, r] => h.combine (values ρ l) (values ρ r)
  | .inner .array _ [.run ns] => Value.array '' allValues ρ ns
  | .inner .object _ [.run ns] =>
    (fun vs => .object ((ns.map isPrototype).zip vs)) '' allValues ρ ns
  | .inner k _ ns => if k.isWrapper then lastValues ρ ns else k.values

/-- The values of the last of several nodes. -/
def lastValues (ρ : Bindings) : List Node → Set Value
  | [] => {.primitive}
  | [n] => values ρ n
  | _ :: ns => lastValues ρ ns

/-- The values that several nodes may have together. -/
def allValues (ρ : Bindings) : List Node → Set (List Value)
  | [] => {[]}
  | n :: ns => {vs | ∃ v ∈ values ρ n, ∃ ws ∈ allValues ρ ns, vs = v :: ws}

end

/-- The first node demands something of the second one, an operand of its own.  An operand of
`==` and `!=` is converted if it is compared with a primitive value. -/
inductive Demands (ρ : Bindings) : Node → Demand → Node → Prop where
  | interpolation {h : Head} {es rest : List Node} {m : Node} (hm : m ∈ es) :
      Demands ρ (.inner .template h (.run es :: rest)) .primitive m
  | key {h : Head} {parts : List Node} {m : Node} (hm : m ∈ parts) :
      Demands ρ (.inner .computed h parts) .primitive m
  | unary {h : Head} {parts : List Node} {m : Node} {o : String} (hm : m ∈ parts)
      (ho : h.operator? = some o) (hc : o ∈ ["+", "-", "~"]) :
      Demands ρ (.inner .unary h parts) .primitive m
  | binary {h : Head} {parts : List Node} {m : Node} {o : String} (hm : m ∈ parts)
      (ho : h.operator? = some o)
      (hc : o ∈ ["+", "-", "*", "/", "%", "**", "<<", ">>", ">>>", "&", "|", "^", "<", "<=", ">",
        ">="]) :
      Demands ρ (.inner .binary h parts) .primitive m
  | leftOfEqual {h : Head} {l r : Node} {o : String} (ho : h.operator? = some o)
      (hc : o ∈ ["==", "!="]) (hr : .primitive ∈ r.values ρ) :
      Demands ρ (.inner .binary h [l, r]) .primitive l
  | rightOfEqual {h : Head} {l r : Node} {o : String} (ho : h.operator? = some o)
      (hc : o ∈ ["==", "!="]) (hl : .primitive ∈ l.values ρ) :
      Demands ρ (.inner .binary h [l, r]) .primitive r
  | member {h : Head} {l r : Node} (ho : h.operator? = some "in") :
      Demands ρ (.inner .binary h [l, r]) .primitive l
  | instanceTest {h : Head} {l r : Node} (ho : h.operator? = some "instanceof") :
      Demands ρ (.inner .binary h [l, r]) .instanceTest r

/-- The operands and properties that bring functions along: functions, names that stand for a
value that does, object literals with a method or a function-valued property, what inherits from
one of these, and what is put together of them. -/
inductive BringsFunction (ρ : Bindings) : Demand → Node → Prop where
  | name {d : Demand} {role : Role} {x : Ident} {v : Value} (hv : v ∈ ρ.values x.id)
      (h : v.Answers d) : BringsFunction ρ d (.ident role x)
  | function {d : Demand} {k : Kind} {h : Head} {parts : List Node}
      (hk : k.isFunction = true) :
      BringsFunction ρ d (.inner k h parts)
  | wrapped {d : Demand} {k : Kind} {h : Head} {parts : List Node} {m : Node}
      (hk : k.isWrapper = true) (hm : parts.getLast? = some m) (hb : BringsFunction ρ d m) :
      BringsFunction ρ d (.inner k h parts)
  | second {d : Demand} {h : Head} {l r : Node} (ho : h.isConjunction = true)
      (hb : BringsFunction ρ d r) : BringsFunction ρ d (.inner .binary h [l, r])
  | first {d : Demand} {h : Head} {l r : Node} (ho : h.isAlternative = true)
      (hb : BringsFunction ρ d l) : BringsFunction ρ d (.inner .binary h [l, r])
  | fallback {d : Demand} {h : Head} {l r : Node} (ho : h.isAlternative = true)
      (hl : .primitive ∈ l.values ρ) (hb : BringsFunction ρ d r) :
      BringsFunction ρ d (.inner .binary h [l, r])
  | element {h : Head} {ns : List Node} {m : Node} (hm : m ∈ ns)
      (hb : BringsFunction ρ .primitive m) : BringsFunction ρ .primitive (.inner .array h [.run ns])
  | property {d : Demand} {h : Head} {ns : List Node} {p : Node} (hm : p ∈ ns)
      (hp : p.isPrototype = false) (hv : .function ∈ p.values ρ) :
      BringsFunction ρ d (.object h ns)
  | prototype {d : Demand} {h : Head} {ns : List Node} {p : Node} (hm : p ∈ ns)
      (hp : p.isPrototype = true) (hb : BringsFunction ρ d p) : BringsFunction ρ d (.object h ns)

/-- A node by itself may run code when it is evaluated: it is of a kind that does, or it demands
something of an operand whose value meets the demand by calling a function. -/
inductive Runs (ρ : Bindings) : Node → Prop where
  | kind {k : Kind} {h : Head} {parts : List Node} (hk : k.runsCode = true) :
      Runs ρ (.inner k h parts)
  | demand {n m : Node} {d : Demand} {v : Value} (hm : n.Demands ρ d m) (hv : v ∈ m.values ρ)
      (h : v.Answers d) : Runs ρ n

/-- Evaluating an expression may run code. -/
def RunsCode (ρ : Bindings) (e : Node) : Prop := ∃ n, e.Evaluates n ∧ n.Runs ρ

variable {ρ : Bindings} {d : Demand}

/-! ### Values -/

/-- The kinds and parts of the nodes whose values are put together of those of their parts. -/
inductive Composes : Kind → List Node → Prop where
  | binary (l r : Node) : Composes .binary [l, r]
  | array (ns : List Node) : Composes .array [.run ns]
  | object (ns : List Node) : Composes .object [.run ns]

/-- A node that composes no value has the value of its last part or the values of its kind. -/
theorem values_inner {k : Kind} {h : Head} {parts : List Node} (hc : ¬Composes k parts) :
    values ρ (.inner k h parts) = if k.isWrapper then lastValues ρ parts else k.values := by
  rw [values]
  · rintro l r rfl rfl
    exact hc (.binary l r)
  · rintro ns rfl rfl
    exact hc (.array ns)
  · rintro ns rfl rfl
    exact hc (.object ns)

/-- The values of the last of several trees, the primitive one if there is none. -/
theorem lastValues_eq (ns : List Node) :
    lastValues ρ ns = ns.getLast?.elim {.primitive} (values ρ) := by
  induction ns with
  | nil => rw [lastValues]; rfl
  | cons n ns ih =>
    cases ns with
    | nil => rw [lastValues]; rfl
    | cons m ns => rw [lastValues, ih, List.getLast?_cons_cons]; exact List.cons_ne_nil m ns

/-- The last of several trees has some value if each of them has. -/
theorem lastValues_nonempty {ns : List Node} (h : ∀ n ∈ ns, (n.values ρ).Nonempty) :
    (lastValues ρ ns).Nonempty := by
  rw [lastValues_eq]
  cases hl : ns.getLast? with
  | none => exact Set.singleton_nonempty _
  | some n => exact h n (List.mem_of_getLast? hl)

/-- Several trees have some values together if each of them has. -/
theorem allValues_nonempty {ns : List Node} (h : ∀ n ∈ ns, (n.values ρ).Nonempty) :
    (allValues ρ ns).Nonempty := by
  induction ns with
  | nil => rw [allValues]; exact Set.singleton_nonempty []
  | cons n ns ih =>
    rw [List.forall_mem_cons] at h
    obtain ⟨v, hv⟩ := h.1
    obtain ⟨vs, hvs⟩ := ih h.2
    rw [allValues]
    exact ⟨v :: vs, v, hv, vs, hvs, rfl⟩

/-- **Every expression has a value.** -/
theorem values_nonempty (n : Node) : (n.values ρ).Nonempty := by
  induction n using Node.induct_through with
  | leaf a =>
    unfold values
    split
    case h_1 x _ => exact ρ.nonempty x.id
    all_goals first | exact Set.singleton_nonempty _ | contradiction
  | run items => rw [values]; exact Set.singleton_nonempty _
  | inner k h parts ih ihrun =>
    by_cases hc : Composes k parts
    · cases hc with
      | binary l r => rw [values]; exact h.combine_nonempty (ih l (by simp)) (ih r (by simp))
      | array ns | object ns =>
        rw [values]
        exact (allValues_nonempty (ihrun ns (List.mem_singleton_self _))).image _
    · rw [values_inner hc]
      split
      · exact lastValues_nonempty ih
      · exact k.values_nonempty

/-- Several trees have one value each. -/
theorem length_of_mem_allValues {ns : List Node} {vs : List Value} (h : vs ∈ allValues ρ ns) :
    vs.length = ns.length := by
  induction ns generalizing vs with
  | nil =>
    rw [allValues] at h
    exact congrArg List.length h
  | cons n ns ih =>
    rw [allValues] at h
    obtain ⟨v, -, ws, hws, rfl⟩ := h
    rw [List.length_cons, List.length_cons, ih hws]

/-- The values that several nodes have together have a value of each node at its place. -/
theorem exists_mem_zip_iff {ns : List Node} {n : Node} {v : Value} :
    (∃ vs ∈ allValues ρ ns, (n, v) ∈ ns.zip vs) ↔ n ∈ ns ∧ v ∈ n.values ρ := by
  induction ns with
  | nil => simp [allValues]
  | cons m ns ih =>
    have hrest : ∃ ws, ws ∈ allValues ρ ns := allValues_nonempty fun n _ => values_nonempty n
    obtain ⟨w, hw⟩ := values_nonempty (ρ := ρ) m
    rw [allValues]
    constructor
    · rintro ⟨-, ⟨u, hu, us, hus, rfl⟩, hmem⟩
      rw [List.zip_cons_cons, List.mem_cons] at hmem
      rcases hmem with heq | hmem
      · cases heq
        exact ⟨List.mem_cons_self, hu⟩
      · obtain ⟨hn, hv⟩ := ih.1 ⟨us, hus, hmem⟩
        exact ⟨List.mem_cons_of_mem m hn, hv⟩
    · rintro ⟨hn, hv⟩
      rcases List.mem_cons.1 hn with rfl | hn
      · obtain ⟨ws, hws⟩ := hrest
        exact ⟨v :: ws, ⟨v, hv, ws, hws, rfl⟩, List.mem_cons_self⟩
      · obtain ⟨ws, hws, hmem⟩ := ih.2 ⟨hn, hv⟩
        exact ⟨w :: ws, ⟨w, hw, ws, hws, rfl⟩, List.mem_cons_of_mem _ hmem⟩

/-! ### Operands that bring functions along -/

/-- A primitive value answers a conversion without a function of its own. -/
theorem not_answers_primitive : ¬Value.primitive.Answers d := nofun

/-- An array answers by the values in it, and only the conversion to a primitive. -/
theorem answers_array {vs : List Value} :
    (Value.array vs).Answers d ↔ d = .primitive ∧ ∃ v ∈ vs, v.Answers .primitive := by
  constructor
  · rintro (_ | ⟨hv, h⟩)
    exact ⟨rfl, _, hv, h⟩
  · rintro ⟨rfl, v, hv, h⟩
    exact .element hv h

/-- An object answers by a function of its own or by its prototype. -/
theorem answers_object {members : List (Bool × Value)} :
    (Value.object members).Answers d ↔
      (false, .function) ∈ members ∨ ∃ v, (true, v) ∈ members ∧ v.Answers d := by
  constructor
  · rintro (_ | _ | h | ⟨hv, h⟩)
    · exact .inl h
    · exact .inr ⟨_, hv, h⟩
  · rintro (h | ⟨v, hv, h⟩)
    · exact .method h
    · exact .inherited hv h

/-- An array may answer if one of its elements may. -/
theorem exists_array_answers_iff {ns : List Node} :
    (∃ v ∈ Value.array '' allValues ρ ns, v.Answers d) ↔
      d = .primitive ∧ ∃ n ∈ ns, ∃ v ∈ n.values ρ, v.Answers .primitive := by
  constructor
  · rintro ⟨-, ⟨vs, hvs, rfl⟩, h⟩
    obtain ⟨hd, v, hv, hanswers⟩ := answers_array.1 h
    rw [← List.map_snd_zip (length_of_mem_allValues hvs).le, List.mem_map] at hv
    obtain ⟨⟨n, w⟩, hmem, rfl⟩ := hv
    obtain ⟨hn, hvalue⟩ := exists_mem_zip_iff.1 ⟨vs, hvs, hmem⟩
    exact ⟨hd, n, hn, _, hvalue, hanswers⟩
  · rintro ⟨hd, n, hn, v, hv, hanswers⟩
    obtain ⟨vs, hvs, hmem⟩ := exists_mem_zip_iff.2 ⟨hn, hv⟩
    exact ⟨_, ⟨vs, hvs, rfl⟩, answers_array.2 ⟨hd, v, (List.of_mem_zip hmem).2, hanswers⟩⟩

/-- An object may answer if one of its own properties may be a function, or if what it inherits
from may answer. -/
theorem exists_object_answers_iff {ns : List Node} :
    (∃ v ∈ (fun vs => Value.object ((ns.map isPrototype).zip vs)) '' allValues ρ ns,
        v.Answers d) ↔
      (∃ p ∈ ns, p.isPrototype = false ∧ .function ∈ p.values ρ) ∨
      ∃ p ∈ ns, p.isPrototype = true ∧ ∃ v ∈ p.values ρ, v.Answers d := by
  have hmembers : ∀ {vs : List Value} {b : Bool} {v : Value},
      (b, v) ∈ (ns.map isPrototype).zip vs ↔ ∃ p, (p, v) ∈ ns.zip vs ∧ p.isPrototype = b := by
    intro vs b v
    rw [List.zip_map_left, List.mem_map]
    constructor
    · rintro ⟨⟨p, w⟩, hmem, heq⟩
      cases heq
      exact ⟨p, hmem, rfl⟩
    · rintro ⟨p, hmem, rfl⟩
      exact ⟨(p, v), hmem, rfl⟩
  constructor
  · rintro ⟨-, ⟨vs, hvs, rfl⟩, h⟩
    rcases answers_object.1 h with hown | ⟨v, hinherited, hanswers⟩
    · obtain ⟨p, hmem, hp⟩ := hmembers.1 hown
      obtain ⟨hpn, hv⟩ := exists_mem_zip_iff.1 ⟨vs, hvs, hmem⟩
      exact .inl ⟨p, hpn, hp, hv⟩
    · obtain ⟨p, hmem, hp⟩ := hmembers.1 hinherited
      obtain ⟨hpn, hv⟩ := exists_mem_zip_iff.1 ⟨vs, hvs, hmem⟩
      exact .inr ⟨p, hpn, hp, v, hv, hanswers⟩
  · rintro (⟨p, hpn, hp, hv⟩ | ⟨p, hpn, hp, v, hv, hanswers⟩)
    · obtain ⟨vs, hvs, hmem⟩ := exists_mem_zip_iff.2 ⟨hpn, hv⟩
      exact ⟨_, ⟨vs, hvs, rfl⟩, .method (hmembers.2 ⟨p, hmem, hp⟩)⟩
    · obtain ⟨vs, hvs, hmem⟩ := exists_mem_zip_iff.2 ⟨hpn, hv⟩
      exact ⟨_, ⟨vs, hvs, rfl⟩, .inherited (hmembers.2 ⟨p, hmem, hp⟩) hanswers⟩

/-- A kind that is allowed by itself has values that answer only if it is a kind of functions. -/
theorem exists_kind_answers_iff {k : Kind} (hk : k.isAllowed = true ∨ k = .method)
    (hw : k.isWrapper = false) : (∃ v ∈ k.values, v.Answers d) ↔ k.isFunction = true := by
  have hobject : ¬(Value.object []).Answers d := by simp [answers_object]
  have harray : ¬(Value.array []).Answers d := by simp [answers_array]
  have hfunction : Value.function.Answers d := .function
  cases k <;> simp_all [Kind.isAllowed, Kind.isLiteral, Kind.isWrapper, Kind.isFunction,
    Kind.values, not_answers_primitive]

/-- A choice between two operands answers if the operand does that is chosen. -/
theorem exists_combine_iff {h : Head} {left right : Set Value} :
    (∃ v ∈ h.combine left right, v.Answers d) ↔
      (h.isConjunction = true ∧ ∃ v ∈ right, v.Answers d) ∨
      (h.isAlternative = true ∧
        ((∃ v ∈ left, v.Answers d) ∨ .primitive ∈ left ∧ ∃ v ∈ right, v.Answers d)) := by
  unfold Head.combine
  split
  · next ho =>
    have hnot : h.isAlternative = false := by
      rw [Head.isConjunction, beq_iff_eq] at ho
      rw [Head.isAlternative, ho]
      rfl
    constructor
    · rintro ⟨v, ⟨-, rfl⟩ | hv, h⟩
      · exact absurd h not_answers_primitive
      · exact .inl ⟨ho, v, hv, h⟩
    · rintro (⟨-, v, hv, h⟩ | ⟨ho', -⟩)
      · exact ⟨v, .inr hv, h⟩
      · exact absurd ho' (Bool.eq_false_iff.1 hnot)
  · next hnot =>
    split
    · next ho =>
      constructor
      · rintro ⟨v, hv | ⟨hv, hl⟩, h⟩
        · exact .inr ⟨ho, .inl ⟨v, hv, h⟩⟩
        · exact .inr ⟨ho, .inr ⟨hl, v, hv, h⟩⟩
      · rintro (⟨ho', -⟩ | ⟨-, ⟨v, hv, h⟩ | ⟨hl, v, hv, h⟩⟩)
        · exact absurd ho' hnot
        · exact ⟨v, .inl hv, h⟩
        · exact ⟨v, .inr ⟨hv, hl⟩, h⟩
    · next hnot' =>
      constructor
      · rintro ⟨v, rfl, h⟩
        exact absurd h not_answers_primitive
      · rintro (⟨ho, -⟩ | ⟨ho, -⟩)
        · exact absurd ho hnot
        · exact absurd ho hnot'

namespace BringsFunction

/-- A binary operation brings a function by the operand that it can yield. -/
theorem binary_iff {h : Head} {l r : Node} :
    (Node.inner .binary h [l, r]).BringsFunction ρ d ↔
      (h.isConjunction = true ∧ r.BringsFunction ρ d) ∨
      (h.isAlternative = true ∧
        (l.BringsFunction ρ d ∨ .primitive ∈ l.values ρ ∧ r.BringsFunction ρ d)) := by
  constructor
  · rintro (_ | hk | ⟨hk, -, -⟩ | ⟨ho, hb⟩ | ⟨ho, hb⟩ | ⟨ho, hl, hb⟩)
    · cases hk
    · cases hk
    · exact .inl ⟨ho, hb⟩
    · exact .inr ⟨ho, .inl hb⟩
    · exact .inr ⟨ho, .inr ⟨hl, hb⟩⟩
  · rintro (⟨ho, hb⟩ | ⟨ho, hb | ⟨hl, hb⟩⟩)
    · exact .second ho hb
    · exact .first ho hb
    · exact .fallback ho hl hb

/-- An array literal brings what an element brings when it becomes a primitive. -/
theorem array_iff {h : Head} {ns : List Node} :
    (Node.inner .array h [.run ns]).BringsFunction ρ d ↔
      d = .primitive ∧ ∃ n ∈ ns, n.BringsFunction ρ .primitive := by
  constructor
  · rintro (_ | hk | ⟨hk, -, -⟩ | _ | _ | _ | ⟨hm, hb⟩)
    · cases hk
    · cases hk
    · exact ⟨rfl, _, hm, hb⟩
  · rintro ⟨rfl, n, hm, hb⟩
    exact .element hm hb

/-- An object literal brings its functions, and what its prototype brings. -/
theorem object_iff {h : Head} {ns : List Node} :
    (Node.object h ns).BringsFunction ρ d ↔
      (∃ p ∈ ns, p.isPrototype = false ∧ .function ∈ p.values ρ) ∨
      ∃ p ∈ ns, p.isPrototype = true ∧ p.BringsFunction ρ d := by
  constructor
  · rintro (_ | hk | ⟨hk, -, -⟩ | _ | _ | _ | _ | ⟨hm, hp, hv⟩ | ⟨hm, hp, hb⟩)
    · cases hk
    · cases hk
    · exact .inl ⟨_, hm, hp, hv⟩
    · exact .inr ⟨_, hm, hp, hb⟩
  · rintro (⟨p, hm, hp, hv⟩ | ⟨p, hm, hp, hb⟩)
    · exact .property hm hp hv
    · exact .prototype hm hp hb

/-- A wrapper brings what its last part brings. -/
theorem wrapper_iff {k : Kind} {h : Head} {parts : List Node} (hk : k.isWrapper = true) :
    (Node.inner k h parts).BringsFunction ρ d ↔
      ∃ n, parts.getLast? = some n ∧ n.BringsFunction ρ d := by
  constructor
  · intro hb
    cases hb with
    | wrapped _ hm hb => exact ⟨_, hm, hb⟩
    | function hf => cases k <;> cases hk <;> cases hf
    | _ => cases hk
  · rintro ⟨n, hm, hb⟩
    exact .wrapped hk hm hb

/-- A node of any other kind brings a function only by being one. -/
theorem plain_iff {k : Kind} {h : Head} {parts : List Node} (hc : ¬Composes k parts)
    (hk : k.isWrapper = false) :
    (Node.inner k h parts).BringsFunction ρ d ↔ k.isFunction = true := by
  constructor
  · intro hb
    cases hb with
    | function hf => exact hf
    | wrapped hw => exact absurd hw (Bool.eq_false_iff.1 hk)
    | second | first | fallback => exact absurd (.binary _ _) hc
    | element => exact absurd (.array _) hc
    | property | prototype => exact absurd (.object _) hc
  · exact .function

end BringsFunction

/-- Operands are evaluated. -/
theorem Demands.evaluates {n m : Node} (h : n.Demands ρ d m) : n.Evaluates m := by
  cases h with
  | interpolation hm => exact .part List.mem_cons_self (.item hm (.self m))
  | key hm | unary hm | binary hm => exact .part hm (.self m)
  | leftOfEqual | member => exact .part List.mem_cons_self (.self m)
  | rightOfEqual | instanceTest =>
    exact .part (List.mem_cons_of_mem _ List.mem_cons_self) (.self m)

end Node

namespace Scope

open Node

variable {u : Context} {ρ : Bindings} {d : Demand}

/-- A run is pure if all its items are. -/
theorem isPure_run_iff {ns : List Node} :
    isPure u (.run ns) = true ↔ ∀ n ∈ ns, isPure u n = true := by
  rw [isPure, arePure_eq_all, List.all_eq_true]

/-- What a pure expression evaluates is pure. -/
theorem isPure_of_evaluates {e n : Node} (h : e.Evaluates n) (he : isPure u e = true) :
    isPure u n = true := by
  induction h with
  | self n => exact he
  | item hm _ ih => exact ih (isPure_run_iff.1 he _ hm)
  | part hm _ ih => exact ih (((isPure_inner_iff ..).1 he).2 _ hm)

/-- A pure node that is no wrapper is of an allowed kind or a method. -/
theorem allowed_of_isPure {k : Kind} {h : Head} {parts : List Node}
    (hn : isPure u (.inner k h parts) = true) (hw : k.isWrapper = false) :
    k.isAllowed = true ∨ k = .method := by
  have hforbidden := ((isPure_inner_iff ..).1 hn).1
  cases he : k.isEntry with
  | false =>
    refine .inl ?_
    by_contra ha
    exact hforbidden (.expression he (Bool.eq_false_iff.2 ha))
  | true =>
    unfold Kind.isEntry at he
    split at he
    · cases hw
    · exact absurd .spreadElement hforbidden
    · exact absurd .spreadProperty hforbidden
    · cases hw
    · exact absurd .assignment hforbidden
    · exact absurd .getter hforbidden
    · exact absurd .setter hforbidden
    · exact .inr rfl
    · cases hw
    · cases he

/-- A name brings a function along if it may stand for one, and no other leaf does. -/
theorem bringsFunction_leaf_iff {a : Leaf} :
    (Node.leaf a).BringsFunction ρ d ↔ ∃ v ∈ (Node.leaf a).values ρ, v.Answers d := by
  by_cases ha : ∃ role x, a = .ident role x
  · obtain ⟨role, x, rfl⟩ := ha
    rw [values]
    constructor
    · rintro (⟨hv, h⟩ | _)
      exact ⟨_, hv, h⟩
    · rintro ⟨v, hv, h⟩
      exact .name hv h
  · have hvalues : (Node.leaf a).values ρ = {.primitive} := by
      rw [values]
      exact fun role x hx => ha ⟨role, x, hx⟩
    rw [hvalues]
    constructor
    · rintro (_ | _)
      exact absurd ⟨_, _, rfl⟩ ha
    · rintro ⟨v, rfl, h⟩
      exact absurd h not_answers_primitive

/-- **Operands.**  A pure operand may meet a demand by calling a function exactly if it brings one
along. -/
theorem bringsFunction_iff {n : Node} (hn : isPure u n = true) :
    n.BringsFunction ρ d ↔ ∃ v ∈ n.values ρ, v.Answers d := by
  -- The induction goes through runs, as the elements of a literal are items of a run.
  induction n using Node.induct_through generalizing d with
  | leaf a => exact bringsFunction_leaf_iff
  | run items =>
    rw [values]
    refine iff_of_false (fun h => by cases h) ?_
    rintro ⟨v, rfl, h⟩
    exact not_answers_primitive h
  | inner k h parts ih ihrun =>
    have hparts := ((isPure_inner_iff ..).1 hn).2
    by_cases hc : Composes k parts
    · cases hc with
      | binary l r =>
        have hevaluated : Kind.binary.evaluatedParts [l, r] = [l, r] := rfl
        have hl := ih l (by simp) (d := d) (hparts l (by simp [hevaluated]))
        have hr := ih r (by simp) (d := d) (hparts r (by simp [hevaluated]))
        rw [values, exists_combine_iff, ← hl, ← hr]
        exact BringsFunction.binary_iff
      | array ns =>
        have hns := isPure_run_iff.1 (hparts _ (List.mem_singleton_self _))
        rw [values, BringsFunction.array_iff, exists_array_answers_iff]
        refine and_congr_right fun _ => exists_congr fun n => and_congr_right fun hn => ?_
        exact ihrun ns (List.mem_singleton_self _) n hn (hns n hn)
      | object ns =>
        have hns := isPure_run_iff.1 (hparts _ (List.mem_singleton_self _))
        rw [values, BringsFunction.object_iff, exists_object_answers_iff]
        refine or_congr Iff.rfl (exists_congr fun p => and_congr_right fun hp =>
          and_congr_right fun _ => ?_)
        exact ihrun ns (List.mem_singleton_self _) p hp (hns p hp)
    · rw [values_inner hc]
      -- Any other node has the value of its last part, or one that its kind tells.
      cases hw : k.isWrapper with
      | true =>
        rw [BringsFunction.wrapper_iff hw, if_pos rfl, lastValues_eq]
        cases hl : parts.getLast? with
        | none =>
          constructor
          · rintro ⟨m, hm, -⟩
            cases hm
          · rintro ⟨v, rfl, h⟩
            exact absurd h not_answers_primitive
        | some n =>
          have hmem := List.mem_of_getLast? hl
          have hpure := hparts n (by rwa [Kind.evaluatedParts_of_isWrapper hw])
          rw [Option.elim_some, ← ih n hmem hpure]
          constructor
          · rintro ⟨m, hm, hb⟩
            exact Option.some.inj hm ▸ hb
          · exact fun hb => ⟨n, rfl, hb⟩
      | false =>
        rw [BringsFunction.plain_iff hc hw]
        exact (exists_kind_answers_iff (allowed_of_isPure hn hw) hw).symm

/-- A node that is accepted is of no kind that runs code. -/
theorem runsCode_eq_false {k : Kind} {h : Head} {parts : List Node}
    (hn : isPure u (.inner k h parts) = true) : k.runsCode = false := by
  have hforbidden := ((isPure_inner_iff ..).1 hn).1
  cases k <;>
    first
    | rfl
    | exact absurd .spreadElement hforbidden
    | exact absurd .spreadProperty hforbidden
    | exact absurd (.expression rfl rfl) hforbidden

/-- **Code that a pure expression runs.**  Evaluating it may call a function exactly if it demands
a primitive value, or the test for instances, of an operand that brings functions along. -/
theorem runsCode_iff {e : Node} (he : isPure u e = true) (ρ : Bindings) :
    e.RunsCode ρ ↔ ∃ n d m, e.Evaluates n ∧ n.Demands ρ d m ∧ m.BringsFunction ρ d := by
  constructor
  · rintro ⟨n, hn, hruns⟩
    have hpure := isPure_of_evaluates hn he
    cases hruns with
    | kind hk => exact absurd hk (Bool.eq_false_iff.1 (runsCode_eq_false hpure))
    | demand hm hv h =>
      have hm' := isPure_of_evaluates hm.evaluates hpure
      exact ⟨n, _, _, hn, hm, (bringsFunction_iff hm').2 ⟨_, hv, h⟩⟩
  · rintro ⟨n, d, m, hn, hm, hb⟩
    have hm' := isPure_of_evaluates hm.evaluates (isPure_of_evaluates hn he)
    obtain ⟨v, hv, h⟩ := (bringsFunction_iff hm').1 hb
    exact ⟨n, hn, .demand hm hv h⟩

/-- An object literal with a method `toString`. -/
def withMethod : Node :=
  .object .empty [.inner .method .empty
    [.word ⟨.dummy, "toString"⟩, .run [], .run [], .inner .blockStatement .empty [.run []]]]

/-- That object in a template. -/
def inTemplate : Node :=
  .inner .template .empty [.run [withMethod],
    .run [.leaf (.quasi ⟨.dummy, false, some "", ""⟩), .leaf (.quasi ⟨.dummy, true, some "", ""⟩)]]

/-- An object literal with a method brings a function that a conversion calls. -/
theorem withMethod_bringsFunction : withMethod.BringsFunction .primitives .primitive := by
  refine .property List.mem_cons_self rfl ?_
  rw [values_inner (by rintro ⟨⟩)]
  rfl

/-- In a template, the object literal is converted to a string: the expression is pure and runs the
method. -/
theorem inTemplate_runsCode :
    isPure .unresolved inTemplate = true ∧ inTemplate.RunsCode .primitives := by
  have hpure : isPure .unresolved inTemplate = true := by decide
  exact ⟨hpure, (runsCode_iff hpure .primitives).2
    ⟨_, _, _, .self _, .interpolation List.mem_cons_self, withMethod_bringsFunction⟩⟩

/-- **Not every pure expression runs no code**, even if all names stand for primitive values. -/
theorem not_forall_runsNoCode :
    ¬∀ (u : Context) (e : Node), isPure u e = true → ¬e.RunsCode .primitives := by
  intro hall
  have hpure : isPure .unresolved withMethod = true := by decide
  obtain ⟨v, hv, h⟩ := (bringsFunction_iff hpure).1 withMethod_bringsFunction
  exact hall .unresolved inTemplate (by decide)
    ⟨_, .self _, .demand (.interpolation List.mem_cons_self) hv h⟩

end Scope
end StyleLowering
