/-
# The rewriting pass is a renaming

Nodes that can use a target as a whole are taken apart; of all others the rewriting
pass keeps the outline (`Rewriter.isRenaming`).
-/

import StyleLowering.Proofs.Rewrite.Renaming
import StyleLowering.Proofs.Syntax.Outline

namespace StyleLowering

/-- Nodes that can use a target as a whole. -/
def Kind.canUse : Kind → Bool
  | .tagged | .call | .member => true
  | _ => false

/-- What can use a target is taken apart by the pass, and is no specifier. -/
theorem Kind.isFrame_of_canUse {k : Kind} (hk : k.canUse = true) :
    k.isFrame = true ∧ k ≠ .exportSpecifier := by
  cases k <;> first | exact ⟨rfl, by decide⟩ | cases hk

namespace Rewriter

open Rewrite Stateful Css

variable (r : Rewriter) (labels : LabelStack)

/-- A style stays a template behind a tag or becomes a call. -/
theorem exists_styles {k : Kind} (hk : k = .tagged ∨ k = .call) (label : Bool) (h : Head)
    (parts : List Node) :
    ∃ k' h' parts', r.styles labels label k h parts = .inner k' h' parts' ∧
      k'.canUse = true := by
  have hannotate : ∀ (name : Option String) (k : Kind) (h : Head) (parts : List Node),
      k.canUse = true → ∃ k' h' parts', annotate r.info name (.inner k h parts) =
        .inner k' h' parts' ∧ k'.canUse = true := by
    intro name k h parts hk
    unfold annotate
    split
    · exact ⟨_, _, _, rfl, rfl⟩
    · exact ⟨_, _, _, rfl, hk⟩
  have hcall : ∃ k' h' parts', callOfTemplate (.inner k h parts) = .inner k' h' parts' ∧
      k'.canUse = true := by
    unfold callOfTemplate
    split
    · exact ⟨_, _, _, rfl, rfl⟩
    · exact ⟨_, _, _, rfl, by rcases hk with rfl | rfl <;> rfl⟩
  obtain ⟨k', h', parts', he, hcan⟩ := hcall
  rw [styles, he]
  exact hannotate _ k' h' parts' hcan

/-- Inner nodes keep their kind, or they become nodes that can use a target. -/
theorem exists_node_inner (k : Kind) (h : Head) (parts : List Node) (s : Nat) :
    ∃ k' h' parts', (r.node labels (.inner k h parts) s).1 = .inner k' h' parts' ∧
      (k' = k ∨ k'.canUse = true) := by
  refine r.node_cases (P := fun p => ∃ k' h' parts', p.1 = .inner k' h' parts' ∧
    (k' = k ∨ k'.canUse = true)) labels k h parts s ?_ ?_ ?_ ?_ ?_
  · intro _
    exact ⟨_, _, _, rfl, .inl rfl⟩
  · rintro x w t y rfl rfl - - -
    obtain ⟨args, he, -⟩ := r.tagCall_eq labels h.place y w.text t s
    exact ⟨_, _, _, he, .inr rfl⟩
  · rintro callee a rest t rfl rfl - -
    exact ⟨_, _, _, rfl, .inl rfl⟩
  · intro label hk _
    obtain ⟨k', h', parts', he, hcan⟩ := r.exists_styles labels hk label h
      (r.nodes (labels.enter k parts) parts s).1
    exact ⟨k', h', parts', he, .inr hcan⟩
  · intro _ _
    exact ⟨_, _, _, rfl, .inl rfl⟩

/-- A leaf stays a leaf, or it is a shorthand property that is spelled out. -/
theorem leaf_cases (a : Leaf) :
    (∃ x y, a = .ident .shorthand x ∧ r.targets.replacement? x = some y ∧
      r.leaf a = .keyValue Head.empty (.word ⟨x.span, x.name⟩) (Build.reference y)) ∨
    (∃ role x, a = .ident role x ∧ (role = .shorthand → r.targets.replacement? x = none) ∧
      r.leaf a = .ident role ((r.targets.replacement? x).getD x)) ∨
    ((∀ role x, a ≠ .ident role x) ∧ r.leaf a = .leaf a) := by
  unfold leaf
  split
  · next x =>
    cases hx : r.targets.replacement? x with
    | some y => exact .inl ⟨x, y, rfl, hx, rfl⟩
    | none => exact .inr (.inl ⟨.shorthand, x, rfl, fun _ => hx, by rw [hx]; rfl⟩)
  · next role x hne => exact .inr (.inl ⟨role, x, rfl, fun hr => (hne hr).elim, rfl⟩)
  · next hne => exact .inr (.inr ⟨fun role x h => hne role x h, rfl⟩)

/-- What the pass makes of a tree, whatever the labels and the counter. -/
def Makes (n m : Node) : Prop := ∃ labels s, m = (r.node labels n s).1

/-- What comes of several trees comes of each of them. -/
theorem forall₂_makes (ns : List Node) (s : Nat) :
    List.Forall₂ r.Makes ns (r.nodes labels ns s).1 :=
  r.forall₂_nodes labels (fun _ _ s => ⟨labels, s, rfl⟩) s

/-- A specifier gets its outer name when its local name is replaced. -/
theorem entryOfSpecifier?_exportParts (h : Head) (ps : List Node) :
    (Node.inner .exportSpecifier h (r.exportParts ps)).entryOfSpecifier? =
      (Node.inner .exportSpecifier h ps).entryOfSpecifier? := by
  unfold exportParts
  split
  · next role x exported =>
    split
    · rfl
    · split
      · rfl
      · next hne =>
        have houter : ∀ n : Node, Node.outerName? n exported = exported.exportName? := by
          intro n
          unfold Node.outerName?
          split
          · exact absurd rfl hne
          · rfl
        rw [Node.entryOfSpecifier?, Node.entryOfSpecifier?, houter, houter]
  · rfl

/-- **The rewriting pass is a renaming** by the replacements of its targets. -/
theorem isRenaming : Node.IsRenaming r.targets.replacement? r.Makes := by
  rintro n _ ⟨labels, s, rfl⟩
  cases n with
  | leaf a =>
    rw [node_leaf]
    rcases r.leaf_cases a with ⟨x, y, rfl, hy, he⟩ | ⟨role, x, rfl, hx, he⟩ | ⟨hne, he⟩ <;> rw [he]
    · exact .shorthand hy
    · exact .ident hx
    · exact .leaf hne
  | run ns =>
    rw [node_run]
    exact .run (r.forall₂_makes labels ns s)
  | inner k h ps =>
    cases hf : k.isFrame with
    | false =>
      rw [r.node_inner_of_ne labels (by rintro rfl; cases hf) (by rintro rfl; cases hf)
        (by rintro rfl; cases hf) (by rintro rfl; cases hf)]
      exact .inner hf (r.forall₂_makes _ ps s)
    | true =>
      -- the parts of a specifier are not visited; of other frames nothing is to be known but
      -- that they stay frames
      by_cases hs : k = .exportSpecifier
      · subst hs
        have hnode : r.node labels (.inner .exportSpecifier h ps) s =
            (.inner .exportSpecifier h (r.exportParts ps), s) := by
          rw [node.eq_def]
          rfl
        rw [hnode]
        exact .frame rfl rfl (r.entryOfSpecifier?_exportParts h ps)
      · obtain ⟨k', h', qs, he, hkind⟩ := r.exists_node_inner labels k h ps s
        have hk' : k'.isFrame = true ∧ k' ≠ .exportSpecifier := by
          rcases hkind with rfl | hcan
          · exact ⟨hf, hs⟩
          · exact Kind.isFrame_of_canUse hcan
        rw [he]
        refine .frame hf hk'.1 ?_
        rw [Node.entryOfSpecifier?_of_isFrame hk'.1 hk'.2, Node.entryOfSpecifier?_of_isFrame hf hs]

end Rewriter
end StyleLowering
