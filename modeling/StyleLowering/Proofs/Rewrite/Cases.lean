/-
# What the rewriting pass does to one node

The pass treats a node in one of five ways, and `Rewriter.node_cases` lists them
with all that is known in each.  Facts about the pass are proved through that
list, without looking at how a node is taken apart.
-/

import StyleLowering.Proofs.Syntax.Shape
import StyleLowering.Rewrite.Rewriter
import Mathlib.Data.List.Forall2

namespace StyleLowering

/-- Where lists are related element by element, each element on the right has one on the
left. -/
theorem exists_of_mem_forall₂ {α β : Type} {R : α → β → Prop} {as : List α} {bs : List β}
    (h : List.Forall₂ R as bs) {b : β} (hb : b ∈ bs) : ∃ a ∈ as, R a b := by
  induction h with
  | nil => exact absurd hb List.not_mem_nil
  | @cons a _ _ _ ha _ ih =>
    rcases List.mem_cons.1 hb with rfl | hb
    · exact ⟨a, List.mem_cons_self .., ha⟩
    · obtain ⟨a', ha', hab⟩ := ih hb
      exact ⟨a', List.mem_cons_of_mem _ ha', hab⟩

namespace Rewrite

variable {k : Kind} {parts : List Node}

/-- The ways in which a node can use a target, with what is known in each. -/
inductive Usage.Fits (ts : Targets) : Kind → List Node → Usage → Prop where
  | unrelated {k : Kind} {parts : List Node} : Fits ts k parts .unrelated
  /-- Styles are templates behind a tag, or calls. -/
  | styles {k : Kind} {parts : List Node} {label : Bool} (hk : k = .tagged ∨ k = .call) :
      Fits ts k parts (.styles label)
  /-- A styled target is called with at least one argument, and none is spread. -/
  | component {callee a : Node} {rest : List Node} {t : StyledTarget}
      (ht : ts.styled? callee = some t) (hs : (a :: rest).any Styled.isSpread = false) :
      Fits ts .call [callee, .run (a :: rest)] (.component t)
  /-- A name stands behind a styled target. -/
  | tag {x y : Ident} {w : Word} {t : StyledTarget}
      (ht : ts.styled? (.ident .reference x) = some t) (hw : t.isWeb = true)
      (hy : ts.replacement? x = some y) :
      Fits ts .member [.ident .reference x, .word w] (.tag y w.text t)

/-- What a callee is used for fits its target. -/
theorem Usage.fits_ofCallee (ts : Targets) (hk : k = .tagged ∨ k = .call) (callee : Node) :
    Fits ts k parts (ofCallee ts callee) := by
  unfold ofCallee
  split
  · exact .styles hk
  · exact .unrelated
  · split
    · exact .styles hk
    · exact .unrelated

/-- What a member access is used for fits the target of its object. -/
theorem Usage.fits_ofMember (ts : Targets) (object property : Node) :
    Fits ts .member [object, property] (ofMember ts object property) := by
  unfold ofMember
  split
  · split
    · next ht hy =>
      split
      · next hw => exact .tag ht hw hy
      · exact .unrelated
    · exact .unrelated
  · exact .unrelated

/-- **What a node is used for fits the target in it.** -/
theorem Usage.fits_of (ts : Targets) (k : Kind) (parts : List Node) :
    Fits ts k parts (of ts k parts) := by
  unfold of
  split
  · exact fits_ofCallee ts (.inl rfl) _
  · next callee args =>
    split
    · next t ht =>
      split
      · next ho =>
        rw [Styled.takesOptions, Bool.and_eq_true, Bool.not_eq_true', Bool.not_eq_true'] at ho
        cases args with
        | nil => exact absurd ho.1 (by simp)
        | cons a rest => exact .component ht ho.2
      · exact .unrelated
    · exact fits_ofCallee ts (.inr rfl) _
  · exact fits_ofMember ts _ _
  · exact .unrelated

end Rewrite

namespace Rewriter

open Rewrite Stateful

variable (r : Rewriter) (labels : LabelStack)

/-- A leaf is replaced, and the counter stays. -/
theorem node_leaf (a : Leaf) (s : Nat) : r.node labels (.leaf a) s = (r.leaf a, s) := by
  rw [node, pure_apply]

/-- The pass goes through the items of a run. -/
theorem node_run (ns : List Node) (s : Nat) :
    r.node labels (.run ns) s = (.run (r.nodes labels ns s).1, (r.nodes labels ns s).2) := by
  rw [node, map_apply]

/-- Going through no trees does nothing. -/
theorem nodes_nil (s : Nat) : r.nodes labels [] s = ([], s) := by
  rw [nodes, pure_apply]

/-- Several trees are gone through in their order. -/
theorem nodes_cons (n : Node) (ns : List Node) (s : Nat) :
    r.nodes labels (n :: ns) s =
      ((r.node labels n s).1 :: (r.nodes labels ns (r.node labels n s).2).1,
        (r.nodes labels ns (r.node labels n s).2).2) := by
  simp only [nodes, bind_apply, pure_apply]

/-- What holds of each tree and what becomes of it, wherever the counter stands,
holds of all trees of a list. -/
theorem forall₂_nodes {P : Node → Node → Prop} {ns : List Node}
    (h : ∀ n ∈ ns, ∀ s, P n (r.node labels n s).1) (s : Nat) :
    List.Forall₂ P ns (r.nodes labels ns s).1 := by
  induction ns generalizing s with
  | nil => rw [nodes_nil]; exact .nil
  | cons n ns ih =>
    rw [List.forall_mem_cons] at h
    rw [nodes_cons]
    exact .cons (h.1 s) (ih h.2 _)

/-- Every tree of the list comes from one that was there. -/
theorem mem_nodes {ns : List Node} {m : Node} {s : Nat} (h : m ∈ (r.nodes labels ns s).1) :
    ∃ n ∈ ns, ∃ s', m = (r.node labels n s').1 := by
  have hall : List.Forall₂ (fun n m => ∃ s', m = (r.node labels n s').1) ns
      (r.nodes labels ns s).1 :=
    r.forall₂_nodes labels (fun _ _ s' => ⟨s', rfl⟩) s
  exact exists_of_mem_forall₂ hall h

/-- **The five ways of treating a node.**  The local name of an export is looked at
alone; `styled.tag` becomes a call; a styled target that is called gets options;
a style is annotated when its parts are done; of any other node only the parts
are rewritten. -/
theorem node_cases (k : Kind) (h : Head) (parts : List Node) (s : Nat) {P : Node × Nat → Prop}
    (specifier : k = .exportSpecifier → P (.inner k h (r.exportParts parts), s))
    (tag : ∀ x w t y, k = .member → parts = [.ident .reference x, .word w] →
      r.targets.styled? (.ident .reference x) = some t → t.isWeb = true →
      r.targets.replacement? x = some y → P (r.tagCall labels h.place y w.text t s))
    (component : ∀ callee a rest t, k = .call → parts = [callee, .run (a :: rest)] →
      r.targets.styled? callee = some t → (a :: rest).any Styled.isSpread = false →
      let g := Styled.generated r.info labels.current t.isWeb s
      let c := r.node labels callee g.2
      let first := r.node labels a c.2
      let assign := r.mergeFunction labels (a :: rest) g.1 first.2
      let others := r.nodes labels rest assign.2
      P (.call h c.1 (Styled.addOptions assign.1 g.1 (first.1 :: others.1)), others.2))
    (styles : ∀ label, k = .tagged ∨ k = .call → Usage.of r.targets k parts = .styles label →
      let ps := r.nodes (labels.enter k parts) parts s
      P (r.styles labels label k h ps.1, ps.2))
    (plain : k ≠ .exportSpecifier → Usage.of r.targets k parts = .unrelated →
      let ps := r.nodes (labels.enter k parts) parts s
      P (.inner k h ps.1, ps.2)) :
    P (r.node labels (.inner k h parts) s) := by
  rw [node.eq_def]
  dsimp only
  by_cases hk : k = .exportSpecifier
  · rw [if_pos hk, pure_apply]
    exact specifier hk
  rw [if_neg hk]
  have hf := Usage.fits_of r.targets k parts
  generalize hu : Usage.of r.targets k parts = u at hf
  cases hf with
  | unrelated => exact plain hk hu
  | styles hst => exact styles _ hst hu
  | component ht hs => exact component _ _ _ _ rfl rfl ht hs
  | tag ht hw hy => exact tag _ _ _ _ rfl rfl ht hw hy

/-- Of a node that is neither an export specifier nor can use a target as a whole,
the parts are rewritten. -/
theorem node_inner_of_ne {k : Kind} (h₀ : k ≠ .exportSpecifier) (h₁ : k ≠ .tagged)
    (h₂ : k ≠ .call) (h₃ : k ≠ .member) (h : Head) (parts : List Node) (s : Nat) :
    r.node labels (.inner k h parts) s =
      (.inner k h (r.nodes (labels.enter k parts) parts s).1,
        (r.nodes (labels.enter k parts) parts s).2) := by
  refine r.node_cases (P := (· = _)) labels k h parts s (fun h => absurd h h₀)
    (fun _ _ _ _ h => absurd h h₃) (fun _ _ _ _ h => absurd h h₂) (fun _ h => ?_) fun _ _ => rfl
  rcases h with h | h
  · exact absurd h h₁
  · exact absurd h h₂

/-- An import declaration is left alone. -/
theorem item_importing (d : ImportDecl) (s : Nat) :
    r.item (.importing d) s = (.importing d, s) := by
  rw [item, pure_apply]

/-- An item that is no import is gone through without a label from outside. -/
theorem item_node (n : Node) (s : Nat) :
    r.item (.node n) s =
      (.node (r.node LabelStack.empty n s).1, (r.node LabelStack.empty n s).2) := by
  rw [item, map_apply]

/-- The items of a module are gone through in their order. -/
theorem items_cons (i : Item) (is : List Item) (s : Nat) :
    r.items (i :: is) s =
      ((r.item i s).1 :: (r.items is (r.item i s).2).1, (r.items is (r.item i s).2).2) := by
  simp only [items, bind_apply, pure_apply]

/-- What holds of each item and what becomes of it, wherever the counter stands,
holds of all items of a module. -/
theorem forall₂_items {P : Item → Item → Prop} {is : List Item}
    (h : ∀ i ∈ is, ∀ s, P i (r.item i s).1) (s : Nat) :
    List.Forall₂ P is (r.items is s).1 := by
  induction is generalizing s with
  | nil => rw [items, pure_apply]; exact .nil
  | cons i is ih =>
    rw [List.forall_mem_cons] at h
    rw [items_cons]
    exact .cons (h.1 s) (ih h.2 _)

/-- The body of a module is its items, gone through. -/
theorem body_module (m : Module) (s : Nat) : (r.module m s).1.body = (r.items m.body s).1 := by
  simp only [module, bind_apply, pure_apply]

end Rewriter
end StyleLowering
