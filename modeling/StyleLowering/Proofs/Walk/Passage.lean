/-
# Readings pass through the last pass

What can be read off a tree passes through the last pass (`Walk.letsPass_node`), as
long as it does so at each node whose parts are visited.  A call around the
literal of a css prop changes nothing that is read, and the options of a
`withComponent` call come in when the counter goes on.
-/

import StyleLowering.Proofs.Passage
import StyleLowering.Proofs.Walk.Outline

namespace StyleLowering
namespace Walk

open Stateful Css

/-- Wanting the identifier that compiled css props call leaves the facts about the file
and the counter alone. -/
theorem enter_state (k : Kind) (parts : List Node) (s : FileState) :
    (CssProp.enter k parts s).2.info = s.info ∧
      (CssProp.enter k parts s).2.targets = s.targets := by
  have hcss : (FileState.cssIdentifier s).2.info = s.info ∧
      (FileState.cssIdentifier s).2.targets = s.targets :=
    cssIdentifier_cases s (P := fun p => p.2.info = s.info ∧ p.2.targets = s.targets)
      (fun _ _ => ⟨rfl, rfl⟩) fun _ => ⟨rfl, rfl⟩
  rw [enter_apply]
  split
  · exact hcss
  · exact ⟨rfl, rfl⟩

/-- Either there is nothing to compile, or there is a css prop and something to call. -/
theorem enter_cases (k : Kind) (parts : List Node) (s : FileState) :
    CssProp.enter k parts s = (none, s) ∨
      ∃ callee, (CssProp.enter k parts s).1 = some callee ∧
        (CssProp.literal? k parts).isSome = true := by
  rw [enter_apply]
  split
  · next hc => exact .inr ⟨_, rfl, (Bool.and_eq_true_iff.1 hc).2⟩
  · exact .inl rfl

/-- A call has a callee and arguments when its parts have been visited. -/
theorem exists_nodes_call (labels : LabelStack) (callee : Node) {args : List Node}
    (ha : ∀ a ∈ args, a.isArgument = true) (w : Walk) :
    ∃ callee' args', (nodes labels [callee, .run args] w).1 = [callee', .run args'] ∧
      ∀ a ∈ args', a.isArgument = true := by
  rw [nodes_cons, nodes_cons, nodes_nil, node_run]
  refine ⟨_, _, rfl, fun a hm => ?_⟩
  obtain ⟨a', ha', w', rfl⟩ := mem_nodes _ hm
  exact isArgument_node _ (ha a' ha') w'

section Reading

variable {α : Type} {c : Reading α} {f : FileInfo} (R : c.Rule f)

open Reading.Rule Styled

/-- Whether what is read off a node takes steps only when its parts are visited. -/
def Keeps : Prop := ∀ labels k h parts (w : Walk), w.file.info = f → Kind.isFrame k = false →
  Multiset.Rel R.step (c.own k h parts) (c.own k h (nodes labels parts w).1)

/-- What is read goes from `as` to `bs` while the state goes from `w` to `w'`. -/
structure Lets (as : Multiset α) (w : Walk) (bs : Multiset α) (w' : Walk) : Prop where
  info : w'.file.info = f
  passes : R.Passes as w.file.targets bs w'.file.targets

/-- What is read off a tree passes, whatever the labels and the state. -/
def LetsPass (n : Node) : Prop := ∀ labels (w : Walk), w.file.info = f →
  Lets R (n.read c) w ((node labels n w).1.read c) (node labels n w).2

variable {R}

/-- What is read off several trees passes if it does off each of them. -/
theorem lets_nodes (labels : LabelStack) {ns : List Node} (h : ∀ n ∈ ns, LetsPass R n)
    (w : Walk) (hw : w.file.info = f) :
    Lets R (Node.readAll c ns) w (Node.readAll c (nodes labels ns w).1) (nodes labels ns w).2 := by
  induction ns generalizing w with
  | nil =>
    rw [nodes_nil]
    exact ⟨hw, .refl _ _⟩
  | cons n ns ih =>
    rw [List.forall_mem_cons] at h
    have hn := h.1 labels w hw
    have hns := ih h.2 _ hn.info
    rw [nodes_cons, Node.readAll_cons, Node.readAll_cons]
    exact ⟨hns.info, hn.passes.add hns.passes⟩

/-- A `withComponent` call gets the options that are generated for it. -/
theorem lets_leave_call (labels : LabelStack) (h : Head) (callee : Node) {args : List Node}
    (ha : ∀ a ∈ args, a.isArgument = true) (w : Walk) (hw : w.file.info = f) :
    Lets R ((Node.call h callee args).read c) w
      ((leave labels none .call h [callee, .run args] w).1.read c)
      (leave labels none .call h [callee, .run args] w).2 := by
  simp only [leave, bind_apply, onFile_apply, normalize_apply]
  split
  · exact ⟨hw, .refl _ _⟩
  split
  · exact ⟨hw, .refl _ _⟩
  next happ _ =>
    cases args with
    | nil => simp [WithComponent.applies] at happ
    | cons first rest =>
      rw [List.forall_mem_cons] at ha
      refine ⟨hw, ?_⟩
      dsimp only
      rw [hw]
      have hgenerated := Passes.of_new (R.new_generated labels.current true w.file.targets)
      have hset := R.passes_setSecond Styled.objectAssign first ha.2 labels.current true
        w.file.targets (generated f labels.current true w.file.targets).2 rfl
      generalize generated f labels.current true w.file.targets = g at *
      have hassign : assignRead c Styled.objectAssign (secondArgument (first :: rest)) g.1 = 0 := by
        rw [assignRead, read_objectAssign, ite_self]
      rw [hassign, add_zero] at hset
      have hfirst : R.Passes (Node.readAll c (first :: rest)) w.file.targets
          (Node.readAll c (first :: rest)) w.file.targets := .refl _ _
      have hcallee : R.Passes (callee.read c) w.file.targets (callee.read c) w.file.targets :=
        .refl _ _
      have hargs := (hfirst.add hgenerated).trans hset
      rw [add_zero] at hargs
      rw [Node.read_call, pure_apply, Node.read_call]
      exact hcallee.add hargs

/-- The call around the literal of a css prop changes nothing that is read. -/
theorem readAll_wrapParts (f : FileInfo) (name : Option String) (callee : Ident) (h : Head)
    (word : Word) (hc : Head) (v : Node) :
    Node.readAll c (CssProp.wrapParts f name callee h [.word word, .container hc v]) =
      Node.readAll c [.word word, .container hc v] := by
  have hcontainer : ∀ e : Node, (Node.container hc e).read c = e.read c := by
    intro e
    rw [Node.read_inner_of_isFrame c rfl, Node.readAll_cons, Node.readAll_nil, add_zero]
  have hcomment : Node.readAll c (if f.sourceMaps then
      ((f.comment? h.place).map Build.textArgument).toList else []) = 0 := by
    split
    · cases f.comment? h.place <;> simp
    · rfl
  have hcall : (CssProp.callAround f name callee h.place v).read c = v.read c := by
    rw [CssProp.callAround, Build.call, Node.read_annotate, Node.read_call, Build.reference,
      Node.read_leaf, Node.readAll_cons, hcomment, Build.argument, Node.read_argument, zero_add,
      add_zero]
  rw [CssProp.wrapParts, Node.readAll_cons, Node.readAll_cons, Node.readAll_cons,
    Node.readAll_cons, hcontainer, hcontainer, hcall]

/-- A node without a css prop to compile passes. -/
theorem lets_inner (hk : Keeps R) (labels : LabelStack) {k : Kind} {parts : List Node}
    (hshaped : k.allows true parts = true) (hparts : ∀ n ∈ parts, LetsPass R n) (h : Head)
    (w : Walk) (hw : w.file.info = f) (he : CssProp.enter k parts w.file = (none, w.file)) :
    Lets R ((Node.inner k h parts).read c) w ((node labels (.inner k h parts) w).1.read c)
      (node labels (.inner k h parts) w).2 := by
  have hnodes := lets_nodes (labels.enter k parts) hparts w hw
  rw [node_inner_of_enter labels he]
  by_cases hcall : k = .call
  · subst hcall
    obtain ⟨callee, args, rfl, ha⟩ := Kind.allows_call.1 hshaped
    obtain ⟨callee', args', hp, ha'⟩ := exists_nodes_call (labels.enter .call _) callee ha w
    have hleave := lets_leave_call (R := R) labels h callee' ha' _ hnodes.info
    have hpasses := hnodes.passes
    rw [hp] at hpasses ⊢
    refine ⟨hleave.info, Reading.Rule.Passes.trans ?_ hleave.passes⟩
    rw [Node.read_inner_of_isFrame c rfl, Node.read_inner_of_isFrame c rfl]
    exact hpasses
  · rw [leave_of_ne _ _ hcall]
    refine ⟨hnodes.info, ?_⟩
    rw [Node.read_inner, Node.read_inner]
    cases hf : k.isFrame with
    | true =>
      rw [c.own_frame hf, c.own_frame hf, zero_add, zero_add]
      exact hnodes.passes
    | false =>
      have hown := hk (labels.enter k parts) k h parts w hw hf
      exact (Reading.Rule.Passes.of_rel hown _).add hnodes.passes

/-- A css prop that is compiled passes. -/
theorem lets_cssProp (labels : LabelStack) (h : Head) (word : Word) (hc : Head) (v : Node)
    (hparts : ∀ n ∈ [.word word, .container hc v], LetsPass R n) (w : Walk)
    (hw : w.file.info = f) {callee : Ident}
    (hcallee : (CssProp.enter .jsxAttribute [.word word, .container hc v] w.file).1 =
      some callee) :
    Lets R ((Node.jsxAttribute h (.word word) (.container hc v)).read c) w
      ((node labels (.jsxAttribute h (.word word) (.container hc v)) w).1.read c)
      (node labels (.jsxAttribute h (.word word) (.container hc v)) w).2 := by
  obtain ⟨hinfo, htargets⟩ := enter_state .jsxAttribute [.word word, .container hc v] w.file
  rw [node_inner, hcallee]
  generalize (CssProp.enter .jsxAttribute [.word word, .container hc v] w.file).2 = s at *
  have hnodes := lets_nodes (labels.enter .jsxAttribute [.word word, .container hc v]) hparts
    { w with file := s } (hinfo.trans hw)
  obtain ⟨v', hv⟩ := node_container
    (labels.enter .jsxAttribute [.word word, .container hc v]) hc v { w with file := s }
  rw [leave_cssProp, Node.read_inner_of_isFrame c rfl, Node.read_inner_of_isFrame c rfl]
  refine ⟨hnodes.info, ?_⟩
  have hpasses := hnodes.passes
  rw [htargets] at hpasses
  rw [nodes_cons, nodes_cons, nodes_nil, node_leaf] at hpasses ⊢
  dsimp only at hpasses ⊢
  rw [hv] at hpasses ⊢
  rw [readAll_wrapParts]
  exact hpasses

/-- **Readings pass through the last pass.** -/
theorem letsPass_node (hk : Keeps R) {n : Node} (hn : n.wellShaped true = true) : LetsPass R n := by
  induction n with
  | leaf a =>
    intro labels w hw
    rw [node_leaf]
    exact ⟨hw, .refl _ _⟩
  | run ns ih =>
    intro labels w hw
    rw [Node.wellShaped_run] at hn
    rw [node_run, Node.read_run, Node.read_run]
    exact lets_nodes labels (fun n h => ih n h (hn n h)) w hw
  | inner k h parts ih =>
    intro labels w hw
    have hshaped := Node.wellShaped_inner.1 hn
    have hparts : ∀ n ∈ parts, LetsPass R n := fun n hm => ih n hm (hshaped.2 n hm)
    rcases enter_cases k parts w.file with he | ⟨callee, hcallee, hlit⟩
    · exact lets_inner hk labels hshaped.1 hparts h w hw he
    · obtain ⟨rfl, word, hc, v, rfl⟩ := literal?_isSome hlit
      exact lets_cssProp labels h word hc v hparts w hw hcallee

/-- **What is read off the items of a module passes.** -/
theorem lets_items (hk : Keeps R) {is : List Item} (his : ∀ i ∈ is, i.wellShaped true = true)
    (w : Walk) (hw : w.file.info = f) :
    Lets R (is.map (Item.read c)).sum w ((items is w).1.map (Item.read c)).sum (items is w).2 := by
  induction is generalizing w with
  | nil => exact ⟨hw, .refl _ _⟩
  | cons i is ih =>
    rw [List.forall_mem_cons] at his
    have hi : Lets R (i.read c) w ((item i w).1.read c) (item i w).2 := by
      cases i with
      | importing d => exact letsPass_node hk his.1 LabelStack.empty w hw
      | node n => exact letsPass_node hk his.1 LabelStack.empty w hw
    have hrest := ih his.2 (item i w).2 hi.info
    have heq : items (i :: is) w = ((item i w).1 :: (items is (item i w).2).1,
        (items is (item i w).2).2) := by
      simp only [items, bind_apply, pure_apply]
    rw [heq, List.map_cons, List.map_cons, List.sum_cons, List.sum_cons]
    exact ⟨hrest.info, hi.passes.add hrest.passes⟩

/-- Readings of a program pass, those of import attributes among them. -/
theorem lets_program (hk : Keeps R) {p : Program} (hp : p.wellShaped true = true) (w : Walk)
    (hw : w.file.info = f) :
    Lets R (p.read c) w ((program p w).1.read c) (program p w).2 := by
  cases p with
  | module m => exact lets_items hk (List.all_eq_true.1 hp) w hw
  | script t =>
    exact lets_nodes LabelStack.empty
      (fun n hn => letsPass_node hk (List.all_eq_true.1 hp n hn)) w hw

end Reading
end Walk
end StyleLowering
