/-
# What the last pass does to the state of a file

The pass changes the state in two places only: where it wants the identifier for a
css prop, and where it normalises a call.  What both steps preserve holds after the
pass (`Walk.program_preserves`).  And since both mark the index as stale, a pass that
leaves a fresh index behind has changed nothing at all (`Walk.staleOrEq_program`).
-/

import StyleLowering.Proofs.Walk.Outline

namespace StyleLowering
namespace Walk

open Stateful

/-- A property of the state of a file that each step of the pass preserves. -/
structure Preserves (P : FileState → Prop) : Prop where
  enter : ∀ k parts s, P s → P (CssProp.enter k parts s).2
  normalize : ∀ name n s, P s → P (WithComponent.normalize name n s).2

/-- When a node is left, either nothing happens to the state of the file, or what
normalising the node does to it. -/
theorem file_leave (labels : LabelStack) (callee : Option Ident) (k : Kind) (h : Head)
    (parts : List Node) (w : Walk) :
    (leave labels callee k h parts w).2.file = w.file ∨
      (leave labels callee k h parts w).2.file =
        (WithComponent.normalize labels.current (.inner k h parts) w.file).2 := by
  unfold leave
  split
  · exact .inl rfl
  · refine .inr ?_
    simp only [bind_apply, onFile_apply]
    cases (WithComponent.normalize labels.current (.inner .call h parts) w.file).1 <;> rfl
  · exact .inl rfl

variable {P : FileState → Prop}

/-- Several trees preserve what each of them preserves. -/
theorem nodes_preserves {ns : List Node}
    (h : ∀ n ∈ ns, ∀ labels w, P w.file → P (node labels n w).2.file) (labels : LabelStack)
    (w : Walk) (hw : P w.file) : P (nodes labels ns w).2.file := by
  induction ns generalizing w with
  | nil =>
    rw [nodes_nil]
    exact hw
  | cons n ns ih =>
    rw [List.forall_mem_cons] at h
    rw [nodes_cons]
    exact ih h.2 _ (h.1 labels w hw)

/-- What holds once it has been looked for a css prop holds behind the node. -/
theorem inner_preserves (hP : Preserves P) (k : Kind) (h : Head) {parts : List Node}
    (hparts : ∀ n ∈ parts, ∀ labels w, P w.file → P (node labels n w).2.file)
    (labels : LabelStack) (w : Walk) (hw : P (CssProp.enter k parts w.file).2) :
    P (node labels (.inner k h parts) w).2.file := by
  have hnodes := nodes_preserves hparts (labels.enter k parts)
    { w with file := (CssProp.enter k parts w.file).2 } hw
  rw [node_inner]
  generalize nodes (labels.enter k parts) parts
    { w with file := (CssProp.enter k parts w.file).2 } = b at hnodes ⊢
  rcases file_leave labels (CssProp.enter k parts w.file).1 k h b.1 b.2 with he | he
  · rw [he]
    exact hnodes
  · rw [he]
    exact hP.normalize _ _ _ hnodes

/-- **Going through a tree preserves what every step preserves.** -/
theorem node_preserves (hP : Preserves P) (n : Node) (labels : LabelStack) (w : Walk)
    (hw : P w.file) : P (node labels n w).2.file := by
  induction n generalizing labels w with
  | leaf a =>
    rw [node_leaf]
    exact hw
  | run ns ih =>
    rw [node_run]
    exact nodes_preserves ih labels w hw
  | inner k h parts ih => exact inner_preserves hP k h ih labels w (hP.enter k parts _ hw)

/-- **What each step preserves, the pass preserves.** -/
theorem program_preserves (hP : Preserves P) (p : Program) (w : Walk) (hw : P w.file) :
    P (program p w).2.file := by
  cases p with
  | script t => exact nodes_preserves (fun n _ => node_preserves hP n) LabelStack.empty w hw
  | module m =>
    have hitems : ∀ (is : List Item) (w : Walk), P w.file → P (items is w).2.file := by
      intro is
      induction is with
      | nil => exact fun _ hw => hw
      | cons i is ih =>
        intro w hw
        refine ih _ ?_
        cases i with
        | importing d => exact node_preserves hP d.attributes LabelStack.empty w hw
        | node n => exact node_preserves hP n LabelStack.empty w hw
    exact hitems m.body w hw

/-! ### The index at the end -/

/-- Either the index is stale in the end, or neither the tree nor the state has changed. -/
def StaleOrEq {α : Type} (a : α) (w : Walk) (b : α × Walk) : Prop :=
  b.2.file.scope.stale = true ∨ b.1 = a ∧ b.2.file = w.file

variable {w : Walk}

/-- One change after the other: a stale index stays stale as long as the state does. -/
theorem StaleOrEq.andThen {α β γ : Type} {a : α} {c : β} {b : α × Walk} {d : β × Walk}
    (h : StaleOrEq a w b) (h' : StaleOrEq c b.2 d) (f : α → β → γ) :
    StaleOrEq (f a c) w (f b.1 d.1, d.2) := by
  rcases h' with hs | ⟨hd, hf⟩
  · exact .inl hs
  · rcases h with hs | ⟨hb, hf'⟩
    · refine .inl ?_
      dsimp only
      rw [hf]
      exact hs
    · exact .inr ⟨by dsimp only; rw [hb, hd], hf.trans hf'⟩

/-- What is made of a result that is stale or the same is so too. -/
theorem StaleOrEq.map {α β : Type} {a : α} {b : α × Walk} (h : StaleOrEq a w b) (f : α → β) :
    StaleOrEq (f a) w (f b.1, b.2) :=
  h.imp_right fun h => ⟨congrArg f h.1, h.2⟩

/-- On the way in, nothing happens, or the index is marked as stale. -/
theorem stale_enter (k : Kind) (parts : List Node) (s : FileState) :
    CssProp.enter k parts s = (none, s) ∨ (CssProp.enter k parts s).2.scope.stale = true := by
  rw [enter_apply]
  split
  · exact .inr rfl
  · exact .inl rfl

/-- A node that is normalised marks the index as stale, and any other one stays. -/
theorem stale_normalize (name : Option String) (n : Node) (s : FileState) :
    (WithComponent.normalize name n s).2.scope.stale = true ∨
      (WithComponent.normalize name n s).2 = s ∧
        ((WithComponent.normalize name n s).1 = .ok (false, n) ∨
          (WithComponent.normalize name n s).1 = .error .withComponentSpread) := by
  refine normalize_cases name n s (P := fun p => p.2.scope.stale = true ∨
    p.2 = s ∧ (p.1 = .ok (false, n) ∨ p.1 = .error .withComponentSpread)) ?_ ?_ ?_
  · exact .inr ⟨rfl, .inl rfl⟩
  · exact fun _ _ _ _ _ => .inr ⟨rfl, .inr rfl⟩
  · exact fun _ _ _ _ _ => .inl rfl

/-- Leaving a node without a css prop to compile. -/
theorem staleOrEq_leave (labels : LabelStack) (k : Kind) (h : Head) (parts : List Node)
    (w : Walk) : StaleOrEq (.inner k h parts) w (leave labels none k h parts w) := by
  by_cases hk : k = .call
  · subst hk
    simp only [leave, bind_apply, onFile_apply]
    rcases stale_normalize labels.current (.inner .call h parts) w.file with hs | ⟨hf, hn | hn⟩
    · refine .inl ?_
      cases (WithComponent.normalize labels.current (.inner .call h parts) w.file).1 <;> exact hs
    · rw [hn]
      exact .inr ⟨rfl, hf⟩
    · rw [hn]
      exact .inr ⟨rfl, hf⟩
  · rw [leave_of_ne labels w hk]
    exact .inr ⟨rfl, rfl⟩

/-- Several trees stay, or the index is marked as stale. -/
theorem staleOrEq_nodes {ns : List Node}
    (h : ∀ n ∈ ns, ∀ labels w, StaleOrEq n w (node labels n w)) (labels : LabelStack) (w : Walk) :
    StaleOrEq ns w (nodes labels ns w) := by
  induction ns generalizing w with
  | nil =>
    rw [nodes_nil]
    exact .inr ⟨rfl, rfl⟩
  | cons n ns ih =>
    rw [List.forall_mem_cons] at h
    rw [nodes_cons]
    exact (h.1 labels w).andThen (ih h.2 _) List.cons

/-- A property of the state that holds once the index is stale. -/
theorem preserves_stale : Preserves fun s => s.scope.stale = true where
  enter k parts s hs := by
    rcases stale_enter k parts s with he | he
    · rw [he]
      exact hs
    · exact he
  normalize name n s hs := by
    rcases stale_normalize name n s with he | he
    · exact he
    · rw [he.1]
      exact hs

/-- **A tree with a fresh index behind it has not changed.** -/
theorem staleOrEq_node (n : Node) (labels : LabelStack) (w : Walk) :
    StaleOrEq n w (node labels n w) := by
  induction n generalizing labels w with
  | leaf a =>
    rw [node_leaf]
    exact .inr ⟨rfl, rfl⟩
  | run ns ih =>
    rw [node_run]
    exact (staleOrEq_nodes ih labels w).map Node.run
  | inner k h parts ih =>
    rcases stale_enter k parts w.file with he | hs
    · rw [node_inner_of_enter labels he]
      have hparts := staleOrEq_nodes ih (labels.enter k parts) w
      generalize nodes (labels.enter k parts) parts w = b at hparts ⊢
      have hleave := staleOrEq_leave labels k h b.1 b.2
      rcases hleave with hs | ⟨hn, hf⟩
      · exact .inl hs
      · rcases hparts with hs | ⟨hb, hf'⟩
        · exact .inl (by rw [hf]; exact hs)
        · exact .inr ⟨by rw [hn, hb], hf.trans hf'⟩
    · -- once the css prop is compiled, nothing that follows makes the index fresh
      exact .inl (inner_preserves preserves_stale k h
        (fun n _ => node_preserves preserves_stale n) labels w hs)

/-- An item stays, or the index is marked as stale. -/
theorem staleOrEq_item (i : Item) (w : Walk) : StaleOrEq i w (item i w) := by
  cases i with
  | importing d =>
    exact (staleOrEq_node d.attributes LabelStack.empty w).map
      fun attributes => Item.importing { d with attributes }
  | node n => exact (staleOrEq_node n LabelStack.empty w).map Item.node

/-- **A program with a fresh index behind it has not changed,** and neither has the state. -/
theorem staleOrEq_program (p : Program) (w : Walk) : StaleOrEq p w (program p w) := by
  cases p with
  | script t =>
    exact (staleOrEq_nodes (fun n _ => staleOrEq_node n) LabelStack.empty w).map
      fun body => Program.script { t with body }
  | module m =>
    have hitems : ∀ (is : List Item) (w : Walk), StaleOrEq is w (items is w) := by
      intro is
      induction is with
      | nil => exact fun _ => .inr ⟨rfl, rfl⟩
      | cons i is ih => exact fun w => (staleOrEq_item i w).andThen (ih _) List.cons
    exact (hitems m.body w).map fun body => Program.module { m with body }

end Walk
end StyleLowering
