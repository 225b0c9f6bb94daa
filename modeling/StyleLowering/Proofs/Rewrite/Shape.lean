/-
# The rewriting pass keeps trees well-shaped

The outline of a tree survives where the pass, or a later one, takes it apart:
arguments stay arguments, texts of templates stay what they are, and there are
as many parts as before.  So one pass may follow another.
-/

import StyleLowering.Proofs.Rewrite.Cases
import StyleLowering.Proofs.Styled

namespace StyleLowering
namespace Rewriter

open Rewrite Stateful Css

variable {fit : Bool} (r : Rewriter) (labels : LabelStack)

/-- An argument stays one. -/
theorem isArgument_node {n : Node} (h : n.isArgument = true) (s : Nat) :
    (r.node labels n s).1.isArgument = true := by
  obtain ⟨k, hd, e, hk, rfl⟩ := Node.isArgument_iff.1 h
  rcases hk with rfl | rfl <;>
    rw [node_inner_of_ne _ _ (by decide) (by decide) (by decide) (by decide), nodes_cons,
      nodes_nil] <;> rfl

/-- Arguments stay arguments. -/
theorem isArgument_nodes {ns : List Node} (h : ∀ n ∈ ns, n.isArgument = true) (s : Nat) :
    ∀ n ∈ (r.nodes labels ns s).1, n.isArgument = true := by
  intro m hm
  obtain ⟨n, hn, s', rfl⟩ := r.mem_nodes labels hm
  exact r.isArgument_node labels (h n hn) s'

/-- A text of a template stays what it is. -/
theorem node_of_isQuasi {n : Node} (h : n.isQuasi = true) (s : Nat) :
    (r.node labels n s).1 = n := by
  obtain ⟨q, rfl⟩ := Node.isQuasi_iff.1 h
  rw [node_leaf]
  rfl

/-- A template keeps its outline. -/
theorem node_template (h : Head) (es qs : List Node) (s : Nat) :
    ∃ s₁ s₂, (r.node labels (.inner .template h [.run es, .run qs]) s).1 =
      .inner .template h [.run (r.nodes labels es s₁).1, .run (r.nodes labels qs s₂).1] := by
  rw [node_inner_of_ne _ _ (by decide) (by decide) (by decide) (by decide), nodes_cons,
    nodes_cons, nodes_nil, node_run, node_run]
  exact ⟨_, _, rfl⟩

/-- An object literal stays one. -/
theorem node_object (h : Head) (ps : List Node) (s : Nat) :
    ∃ s', (r.node labels (.object h ps) s).1 = .object h (r.nodes labels ps s').1 := by
  rw [node_inner_of_ne _ _ (by decide) (by decide) (by decide) (by decide), nodes_cons,
    nodes_nil, node_run]
  exact ⟨_, rfl⟩

/-- The call that a tag becomes, and what is left of the counter. -/
theorem tagCall_apply (span : Span) (y : Ident) (name : String) (t : StyledTarget) (s : Nat) :
    r.tagCall labels span y name t s =
      (Build.call span (Build.reference y) (Build.textArgument name ::
        ((Styled.merge Styled.objectAssign none
          (Styled.generated r.info labels.current t.isWeb s).1).map Build.argument).toList),
        (Styled.generated r.info labels.current t.isWeb s).2) := by
  simp only [tagCall, Styled.options, bind_apply, pure_apply, map_apply]

/-- What a tag call is made of. -/
theorem tagCall_eq (span : Span) (y : Ident) (name : String) (t : StyledTarget) (s : Nat) :
    ∃ args, (r.tagCall labels span y name t s).1 = Build.call span (Build.reference y) args ∧
      Node.mentionsAll args = [] ∧ ∀ fit, ∀ a ∈ args, IsGoodArgument fit a := by
  have hg := Styled.areTexts_generated r.info labels.current t.isWeb s
  have hm := Styled.mentions_merge Styled.objectAssign none hg
  rw [tagCall_apply]
  refine ⟨_, rfl, ?_, fun fit a ha => ?_⟩
  · cases he : Styled.merge Styled.objectAssign none
      (Styled.generated r.info labels.current t.isWeb s).1 <;> simp_all
  · rcases List.mem_cons.1 ha with rfl | ha
    · exact isGoodArgument_textArgument name
    · obtain ⟨e, he, rfl⟩ := Option.map_eq_some_iff.1 (Option.mem_toList.1 ha)
      have hassign : Styled.objectAssign.wellShaped fit = true := rfl
      exact isGoodArgument_argument (Styled.wellShaped_merge hg hassign (by simp) he)

/-- The call that a tag becomes is well-shaped. -/
theorem wellShaped_tagCall (span : Span) (y : Ident) (name : String) (t : StyledTarget)
    (s : Nat) : (r.tagCall labels span y name t s).1.wellShaped fit = true := by
  obtain ⟨args, he, -, ha⟩ := r.tagCall_eq labels span y name t s
  rw [he, Build.call, wellShaped_call]
  exact ⟨Node.wellShaped_leaf _, ha fit⟩

/-- What a leaf becomes is well-shaped. -/
theorem wellShaped_leaf (a : Leaf) : (r.leaf a).wellShaped fit = true := by
  unfold leaf
  split
  · split
    · rw [Node.wellShaped_inner]
      exact ⟨rfl, by simp [Build.reference]⟩
    · exact Node.wellShaped_leaf _
  · exact Node.wellShaped_leaf _
  · exact Node.wellShaped_leaf _

/-- The global `Object`, which the function that merges options is looked up in. -/
theorem objectAssign_cases (s : Nat) :
    (∃ y name t, r.targets.replacement? (.global "Object") = some y ∧
      r.objectAssign labels s = r.tagCall labels Span.dummy y name t s) ∨
    r.objectAssign labels s =
      (Build.member (r.leaf (.ident .reference (.global "Object"))) "assign", s) := by
  unfold objectAssign
  have hf := Usage.fits_ofMember r.targets (Build.reference (.global "Object"))
    (Build.word "assign")
  generalize Usage.ofMember r.targets (Build.reference (.global "Object"))
    (Build.word "assign") = u at hf
  cases hf with
  | tag _ _ hy => exact .inl ⟨_, _, _, hy, rfl⟩
  | unrelated => exact .inr rfl
  | styles => exact .inr rfl

/-- The function that merges options is well-shaped. -/
theorem wellShaped_mergeFunction (args options : List Node) (s : Nat) :
    (r.mergeFunction labels args options s).1.wellShaped fit = true := by
  unfold mergeFunction
  split
  · rcases r.objectAssign_cases labels s with ⟨y, name, t, -, he⟩ | he
    · rw [he]
      exact r.wellShaped_tagCall labels _ _ _ _ s
    · rw [he, Build.member, Node.wellShaped_inner]
      refine ⟨rfl, ?_⟩
      rw [List.forall_mem_cons, List.forall_mem_singleton]
      exact ⟨r.wellShaped_leaf _, Node.wellShaped_leaf _⟩
  · rw [pure_apply, Styled.objectAssign, Build.member, Node.wellShaped_inner]
    exact ⟨rfl, by simp [Build.reference, Build.word]⟩

/-- An export specifier whose local name is no target stays. -/
theorem exportParts_of_none {role : Role} {x : Ident} (h : r.targets.replacement? x = none)
    (e : Node) : r.exportParts [.ident role x, e] = [.ident role x, e] := by
  simp only [exportParts, h]

/-- An export specifier whose local name is replaced has an outer name afterwards. -/
theorem exportParts_of_some {role : Role} {x y : Ident} (h : r.targets.replacement? x = some y)
    (b : Leaf) :
    r.exportParts [.ident role x, .leaf b] =
      [.ident role y, .leaf (if b = .absent then .ident .exported (.generated x.name) else b)] := by
  simp only [exportParts, h]
  split
  · next hb => cases hb; rfl
  · next hb => rw [if_neg fun he => hb (by rw [he])]

/-- The parts of a node are of the same outline after the pass. -/
theorem allows_nodes {k : Kind} {parts : List Node} (hk : k ≠ .exportSpecifier)
    (h : k.allows fit parts = true) (s : Nat) :
    k.allows fit (r.nodes labels parts s).1 = true := by
  by_cases hc : k = .call
  · subst hc
    obtain ⟨callee, args, rfl, ha⟩ := Kind.allows_call.1 h
    rw [Kind.allows_call, nodes_cons, nodes_cons, nodes_nil, node_run]
    exact ⟨_, _, rfl, r.isArgument_nodes labels ha _⟩
  by_cases ht : k = .tagged
  · subst ht
    obtain ⟨tag, hd, es, qs, rfl, hq⟩ := Kind.allows_tagged.1 h
    rw [Kind.allows_tagged, nodes_cons, nodes_cons, nodes_nil]
    obtain ⟨s₁, s₂, he⟩ := r.node_template labels hd es qs (r.node labels tag s).2
    refine ⟨_, hd, _, _, by rw [he], fun q hm => ?_⟩
    obtain ⟨n, hn, s', rfl⟩ := r.mem_nodes labels hm
    rw [r.node_of_isQuasi labels (hq n hn)]
    exact hq n hn
  by_cases hm : k = .template
  · subst hm
    obtain ⟨es, qs, rfl, hl⟩ := Kind.allows_template.1 h
    rw [Kind.allows_template, nodes_cons, nodes_cons, nodes_nil, node_run, node_run]
    refine ⟨_, _, rfl, fun hf => ?_⟩
    rw [length_nodes, length_nodes]
    exact hl hf
  · unfold Kind.allows
    split <;> simp_all

/-- A style call or template that is finished is well-shaped. -/
theorem wellShaped_styles {k : Kind} (hk : k = .tagged ∨ k = .call) (label : Bool) (h : Head)
    {parts : List Node} (hn : (Node.inner k h parts).wellShaped fit = true) :
    (r.styles labels label k h parts).wellShaped fit = true := by
  unfold styles
  rcases hk with rfl | rfl
  · obtain ⟨tag, ht, es, qs, rfl, htag, hes, -⟩ := Node.exists_of_wellShaped_tagged hn
    refine wellShaped_annotate_call _ _ ?_
    rw [wellShaped_call]
    refine ⟨htag, fun a ha => ?_⟩
    rcases mem_templateArguments ha with ⟨e, he, rfl⟩ | ⟨text, rfl⟩
    · exact isGoodArgument_argument (hes e he)
    · exact isGoodArgument_textArgument text
  · obtain ⟨callee, args, rfl, -⟩ := Kind.allows_call.1 (Node.wellShaped_inner.1 hn).1
    exact wellShaped_annotate_call _ _ hn

/-- A specifier stays well-shaped. -/
theorem wellShaped_exportParts {hd : Head} {parts : List Node}
    (h : Kind.allows fit .exportSpecifier parts = true) :
    (Node.inner .exportSpecifier hd (r.exportParts parts)).wellShaped fit = true := by
  obtain ⟨a, b, rfl, ha, hb⟩ := Kind.allows_exportSpecifier.1 h
  have hp : ∃ a' b', r.exportParts [.leaf a, .leaf b] = [.leaf a', .leaf b'] ∧
      a'.isLocalName = true ∧ b'.isOuterName = true := by
    rcases Leaf.isLocalName_iff.1 ha with ⟨x, rfl⟩ | ⟨s, rfl⟩
    · cases hx : r.targets.replacement? x with
      | none => exact ⟨_, _, r.exportParts_of_none hx _, ha, hb⟩
      | some y =>
        refine ⟨_, _, r.exportParts_of_some hx b, rfl, ?_⟩
        split
        · rfl
        · exact hb
    · exact ⟨_, _, rfl, ha, hb⟩
  obtain ⟨a', b', he, ha', hb'⟩ := hp
  rw [he, Node.wellShaped_inner, Kind.allows_exportSpecifier]
  exact ⟨⟨a', b', rfl, ha', hb'⟩, by simp⟩

/-- **The pass keeps trees well-shaped.** -/
theorem wellShaped_node {n : Node} (h : n.wellShaped fit = true) (labels : LabelStack) (s : Nat) :
    (r.node labels n s).1.wellShaped fit = true := by
  induction n using Node.induct_through generalizing labels s with
  | leaf a => rw [node_leaf]; exact r.wellShaped_leaf a
  | run ns ih =>
    rw [Node.wellShaped_run] at h
    rw [node_run, Node.wellShaped_run]
    intro m hm
    obtain ⟨n, hn, s', rfl⟩ := r.mem_nodes labels hm
    exact ih n hn (h n hn) labels s'
  | inner k hd parts ih ihr =>
    rw [Node.wellShaped_inner] at h
    have hnodes : ∀ labels s, ∀ m ∈ (r.nodes labels parts s).1, m.wellShaped fit = true := by
      intro labels s m hm
      obtain ⟨n, hn, s', rfl⟩ := r.mem_nodes labels hm
      exact ih n hn (h.2 n hn) labels s'
    have hinner : ∀ s, k ≠ .exportSpecifier →
        (Node.inner k hd (r.nodes (labels.enter k parts) parts s).1).wellShaped fit = true := by
      intro s hk
      rw [Node.wellShaped_inner]
      exact ⟨r.allows_nodes _ hk h.1 s, hnodes _ s⟩
    -- A specifier, a tag, a component, a style, and what is used for nothing.
    refine r.node_cases (P := fun p => p.1.wellShaped fit = true) labels k hd parts s ?_ ?_ ?_ ?_ ?_
    · rintro rfl
      exact r.wellShaped_exportParts h.1
    · intro x w t y _ _ _ _ _
      exact r.wellShaped_tagCall labels _ _ _ _ s
    · rintro callee a rest t rfl rfl - -
      have hc := wellShaped_call.1 (Node.wellShaped_inner (h := hd).2 h)
      have hargs : ∀ b ∈ a :: rest, ∀ s, IsGoodArgument fit (r.node labels b s).1 := by
        intro b hb s
        have hg := hc.2 b hb
        exact ⟨r.isArgument_node labels hg.1 s, ihr _ (by simp) b hb hg.2 labels s⟩
      have hg := Styled.areTexts_generated r.info labels.current t.isWeb s
      rw [wellShaped_call]
      refine ⟨ih _ (by simp) hc.1 labels _,
        Styled.isGoodArgument_addOptions hg (r.wellShaped_mergeFunction labels _ _ _) ?_⟩
      intro b hb
      rcases List.mem_cons.1 hb with rfl | hb
      · exact hargs a (List.mem_cons_self ..) _
      · obtain ⟨n, hn, s', rfl⟩ := r.mem_nodes labels hb
        exact hargs n (List.mem_cons_of_mem _ hn) s'
    · intro label hk _
      have hne : k ≠ .exportSpecifier := by rcases hk with rfl | rfl <;> decide
      exact r.wellShaped_styles labels hk label hd (hinner s hne)
    · intro hk _
      exact hinner s hk

/-- A node is well-shaped when its parts have been rewritten. -/
theorem wellShaped_inner_nodes {k : Kind} {h : Head} {parts : List Node}
    (hk : k ≠ .exportSpecifier) (hn : (Node.inner k h parts).wellShaped fit = true)
    (labels : LabelStack) (s : Nat) :
    (Node.inner k h (r.nodes labels parts s).1).wellShaped fit = true := by
  rw [Node.wellShaped_inner] at hn ⊢
  refine ⟨r.allows_nodes labels hk hn.1 s, fun m hm => ?_⟩
  obtain ⟨n, hmem, s', rfl⟩ := r.mem_nodes labels hm
  exact r.wellShaped_node (hn.2 n hmem) labels s'

/-- The pass keeps modules well-shaped. -/
theorem wellShaped_module {m : Module} (h : m.wellShaped fit = true) (s : Nat) :
    (r.module m s).1.wellShaped fit = true := by
  rw [Module.wellShaped, List.all_eq_true] at h
  rw [Module.wellShaped, List.all_eq_true, body_module]
  have hall : List.Forall₂ (fun _ j => Item.wellShaped fit j = true) m.body
      (r.items m.body s).1 := by
    refine r.forall₂_items (fun i hi s => ?_) s
    have hw := h i hi
    cases i with
    | importing d => rw [item_importing]; exact hw
    | node n => rw [item_node]; exact r.wellShaped_node hw _ _
  intro j hj
  obtain ⟨-, -, hw⟩ := exists_of_mem_forall₂ hall hj
  exact hw

end Rewriter
end StyleLowering
