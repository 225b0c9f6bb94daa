/-
# Well-shaped trees

The grammar of the language fixes the parts of a node, and the passes count on
it where they take a node apart: an export specifier has two names, a call has
a list of arguments, a tag stands before a template, and a template has a list
of expressions and a list of texts.  All other kinds may have any parts.

A template has one more text than it has expressions.  Most results do not need
that, so it is asked for only where `fit` says so.
-/

import StyleLowering.Syntax.Idents

namespace StyleLowering

/-- **Induction on trees, through runs.**  For an inner node the statement may be used
for its parts and also for the items of those parts that are runs. -/
theorem Node.induct_through {motive : Node → Prop}
    (leaf : ∀ a, motive (.leaf a))
    (run : ∀ items, (∀ n ∈ items, motive n) → motive (.run items))
    (inner : ∀ k h parts, (∀ n ∈ parts, motive n) →
      (∀ items, .run items ∈ parts → ∀ n ∈ items, motive n) → motive (.inner k h parts))
    (n : Node) : motive n := by
  suffices h : motive n ∧ ∀ items, n = .run items → ∀ m ∈ items, motive m from h.1
  induction n with
  | leaf a => exact ⟨leaf a, fun _ h => nomatch h⟩
  | run items ih =>
    refine ⟨run items fun n hn => (ih n hn).1, ?_⟩
    rintro _ ⟨rfl⟩ m hm
    exact (ih m hm).1
  | inner k h parts ih =>
    refine ⟨inner k h parts (fun n hn => (ih n hn).1) fun items hi => ?_, fun _ h => nomatch h⟩
    exact (ih _ hi).2 items rfl

/-- An argument with its expression. -/
def Node.isArgument : Node → Bool
  | .inner .argument _ [_] | .inner .spreadArgument _ [_] => true
  | _ => false

/-- A text of a template. -/
def Node.isQuasi : Node → Bool
  | .leaf (.quasi _) => true
  | _ => false

/-- The local name of an export, which may be any text where it is exported from
elsewhere. -/
def Leaf.isLocalName : Leaf → Bool
  | .ident .exportLocal _ | .text _ => true
  | _ => false

/-- The outer name of an export, which may be left out. -/
def Leaf.isOuterName : Leaf → Bool
  | .ident .exported _ | .text _ | .absent => true
  | _ => false

/-- Whether a node of a kind may have the given parts. -/
def Kind.allows (fit : Bool) : Kind → List Node → Bool
  | .exportSpecifier, [.leaf a, .leaf b] => a.isLocalName && b.isOuterName
  | .call, [_, .run args] => args.all Node.isArgument
  | .tagged, [_, .inner .template _ [.run _, .run quasis]] => quasis.all Node.isQuasi
  | .template, [.run expressions, .run quasis] =>
    !fit || quasis.length == expressions.length + 1
  | .exportSpecifier, _ | .call, _ | .tagged, _ | .template, _ => false
  | _, _ => true

mutual

/-- Whether all nodes of a tree have parts that their kinds allow. -/
def Node.wellShaped (fit : Bool) : Node → Bool
  | .leaf _ => true
  | .run ns => Node.allWellShaped fit ns
  | .inner k _ ns => k.allows fit ns && Node.allWellShaped fit ns

/-- Whether several trees are well-shaped. -/
def Node.allWellShaped (fit : Bool) : List Node → Bool
  | [] => true
  | n :: ns => n.wellShaped fit && Node.allWellShaped fit ns

end

namespace Node

variable {fit : Bool}

/-- A leaf has no shape to keep to. -/
@[simp] theorem wellShaped_leaf (a : Leaf) : (Node.leaf a).wellShaped fit = true := by
  rw [wellShaped]

/-- Several trees are well-shaped if each of them is. -/
theorem allWellShaped_iff {ns : List Node} :
    allWellShaped fit ns = true ↔ ∀ n ∈ ns, n.wellShaped fit = true := by
  induction ns with
  | nil => rw [allWellShaped]; simp
  | cons n ns ih => rw [allWellShaped, Bool.and_eq_true, ih, List.forall_mem_cons]

/-- A run is well-shaped if its items are. -/
@[simp] theorem wellShaped_run {ns : List Node} :
    (Node.run ns).wellShaped fit = true ↔ ∀ n ∈ ns, n.wellShaped fit = true := by
  rw [wellShaped, allWellShaped_iff]

/-- A node is well-shaped if its kind allows its parts and they are well-shaped. -/
@[simp] theorem wellShaped_inner {k : Kind} {h : Head} {ns : List Node} :
    (Node.inner k h ns).wellShaped fit = true ↔
      k.allows fit ns = true ∧ ∀ n ∈ ns, n.wellShaped fit = true := by
  rw [wellShaped, Bool.and_eq_true, allWellShaped_iff]

end Node

namespace Kind

variable {fit : Bool} {parts : List Node}

/-- A specifier has a local name and an outer one, or none. -/
theorem allows_exportSpecifier :
    allows fit .exportSpecifier parts = true ↔
      ∃ a b, parts = [.leaf a, .leaf b] ∧ a.isLocalName = true ∧ b.isOuterName = true := by
  constructor
  · intro h
    unfold allows at h
    split at h
    case h_1 => exact ⟨_, _, rfl, Bool.and_eq_true_iff.1 h⟩
    all_goals simp_all
  · rintro ⟨a, b, rfl, h⟩
    exact Bool.and_eq_true_iff.2 h

/-- A call has a callee and a run of arguments. -/
theorem allows_call :
    allows fit .call parts = true ↔
      ∃ callee args, parts = [callee, .run args] ∧ ∀ a ∈ args, a.isArgument = true := by
  constructor
  · intro h
    unfold allows at h
    split at h
    case h_2 => exact ⟨_, _, rfl, List.all_eq_true.1 h⟩
    all_goals simp_all
  · rintro ⟨callee, args, rfl, h⟩
    exact List.all_eq_true.2 h

/-- A tagged template has a tag and a template. -/
theorem allows_tagged :
    allows fit .tagged parts = true ↔
      ∃ tag h es qs, parts = [tag, .inner .template h [.run es, .run qs]] ∧
        ∀ q ∈ qs, q.isQuasi = true := by
  constructor
  · intro h
    unfold allows at h
    split at h
    case h_3 => exact ⟨_, _, _, _, rfl, List.all_eq_true.1 h⟩
    all_goals simp_all
  · rintro ⟨tag, h, es, qs, rfl, hq⟩
    exact List.all_eq_true.2 hq

/-- A template has expressions and texts, and one more text than expressions where they have to
fit. -/
theorem allows_template :
    allows fit .template parts = true ↔
      ∃ es qs, parts = [.run es, .run qs] ∧ (fit = true → qs.length = es.length + 1) := by
  constructor
  · intro h
    unfold allows at h
    split at h
    case h_4 => exact ⟨_, _, rfl, fun hf => by simpa [hf] using h⟩
    all_goals simp_all
  · rintro ⟨es, qs, rfl, hl⟩
    cases fit with
    | false => rfl
    | true => simpa [allows] using hl rfl

end Kind

/-- The local name of a specifier is an identifier or, from another module, a string. -/
theorem Leaf.isLocalName_iff {a : Leaf} :
    a.isLocalName = true ↔ (∃ x, a = .ident .exportLocal x) ∨ ∃ s, a = .text s := by
  constructor
  · intro h
    unfold isLocalName at h
    split at h
    · exact .inl ⟨_, rfl⟩
    · exact .inr ⟨_, rfl⟩
    · simp at h
  · rintro (⟨x, rfl⟩ | ⟨s, rfl⟩) <;> rfl

/-- The outer name of a specifier is an identifier or a string, or it is left out. -/
theorem Leaf.isOuterName_iff {a : Leaf} :
    a.isOuterName = true ↔ (∃ x, a = .ident .exported x) ∨ (∃ s, a = .text s) ∨ a = .absent := by
  constructor
  · intro h
    unfold isOuterName at h
    split at h
    · exact .inl ⟨_, rfl⟩
    · exact .inr (.inl ⟨_, rfl⟩)
    · exact .inr (.inr rfl)
    · simp at h
  · rintro (⟨x, rfl⟩ | ⟨s, rfl⟩ | rfl) <;> rfl

/-- An argument is an expression, with dots in front or without. -/
theorem Node.isArgument_iff {n : Node} :
    n.isArgument = true ↔
      ∃ k h e, (k = .argument ∨ k = .spreadArgument) ∧ n = .inner k h [e] := by
  constructor
  · intro h
    unfold isArgument at h
    split at h
    · exact ⟨_, _, _, .inl rfl, rfl⟩
    · exact ⟨_, _, _, .inr rfl, rfl⟩
    · simp at h
  · rintro ⟨k, h, e, rfl | rfl, rfl⟩ <;> rfl

/-- The texts of a template are leaves. -/
theorem Node.isQuasi_iff {n : Node} : n.isQuasi = true ↔ ∃ q, n = .leaf (.quasi q) := by
  constructor
  · intro h
    unfold isQuasi at h
    split at h
    · exact ⟨_, rfl⟩
    · simp at h
  · rintro ⟨q, rfl⟩
    rfl

/-- A well-shaped tagged template has a tag, expressions and texts. -/
theorem Node.exists_of_wellShaped_tagged {fit : Bool} {h : Head} {parts : List Node}
    (hn : (Node.inner .tagged h parts).wellShaped fit = true) :
    ∃ tag ht es qs, parts = [tag, .inner .template ht [.run es, .run qs]] ∧
      tag.wellShaped fit = true ∧ (∀ e ∈ es, e.wellShaped fit = true) ∧
      (∀ q ∈ qs, q.isQuasi = true) ∧ (fit = true → qs.length = es.length + 1) := by
  rw [wellShaped_inner] at hn
  obtain ⟨tag, ht, es, qs, rfl, hq⟩ := Kind.allows_tagged.1 hn.1
  rw [List.forall_mem_cons, List.forall_mem_singleton, wellShaped_inner, List.forall_mem_cons,
    wellShaped_run] at hn
  obtain ⟨-, htag, htemplate, hes, -⟩ := hn
  obtain ⟨es', qs', hparts, hlength⟩ := Kind.allows_template.1 htemplate
  cases hparts
  exact ⟨tag, ht, es, qs, rfl, htag, hes, hq, hlength⟩

/-- Texts of a template mention no identifiers. -/
theorem Node.mentionsAll_eq_nil_of_isQuasi {qs : List Node} (h : ∀ q ∈ qs, q.isQuasi = true) :
    Node.mentionsAll qs = [] := by
  rw [Node.mentionsAll_eq_flatMap, List.flatMap_eq_nil_iff]
  intro q hq
  obtain ⟨t, rfl⟩ := Node.isQuasi_iff.1 (h q hq)
  rw [Node.mentions_leaf, Leaf.mentions]
  simp

/-- Whether an item is well-shaped. -/
def Item.wellShaped (fit : Bool) : Item → Bool
  | .importing d => d.attributes.wellShaped fit
  | .node n => n.wellShaped fit

/-- Whether a module is well-shaped. -/
def Module.wellShaped (fit : Bool) (m : Module) : Bool := m.body.all (·.wellShaped fit)

/-- Whether a program is well-shaped. -/
def Program.wellShaped (fit : Bool) : Program → Bool
  | .module m => m.wellShaped fit
  | .script s => s.body.all (·.wellShaped fit)

end StyleLowering
