/-
# What a rewrite leaves of templates and calls

A template that is left was one before, with its parts rewritten, and it used no style
(`Rewriter.leaves_module`).  Where its tag comes from is told by `Rewriter.takesLabel?_makes`: what
looks like a style afterwards looked like one before, if its identifier was treated in the same
way.  So no template is left for a style (`Rewriter.takesLabel?_of_mem_module`).

A call of something that is no target is carried along (`Rewriter.carries_module`): its parts
are rewritten, and nothing is added to it.
-/

import StyleLowering.Proofs.Rewrite.Uses

namespace StyleLowering

/-- The identifier that a callee is, or is the object or the callee of. -/
def Node.base? : Node → Option Ident
  | .ident .reference x | .member _ (.ident .reference x) _ | .call _ (.ident .reference x) _ =>
    some x
  | _ => none

namespace Css

/-- Only the callee of an annotated style can be an identifier. -/
theorem eq_of_isBaseOf_annotate {f : FileInfo} {name : Option String} {k : Kind}
    (hk : k = .tagged ∨ k = .call) {h : Head} {callee : Node} {rest : List Node} {x : Ident}
    (hx : (annotate f name (callOfTemplate (.inner k h (callee :: rest)))).IsBaseOf x) :
    callee = .ident .reference x := by
  unfold callOfTemplate at hx
  split at hx
  · next heq =>
    cases heq
    cases hx
    rfl
  · unfold annotate at hx
    split at hx
    · next heq =>
      cases heq
      cases hx
      rfl
    · rcases hk with rfl | rfl <;> cases hx
      rfl

end Css

namespace Rewriter

open Rewrite Rewrite.Targets Stateful Css

variable (r : Rewriter) {labels : LabelStack}

/-! ### Templates that remain -/

/-- A template that is left behind its tag is no use; its parts are rewritten. -/
inductive Leaves (r : Rewriter) : Node → Node → Prop where
  | intro {h : Head} {parts parts' : List Node}
      (huse : r.targets.use? (.inner .tagged h parts) = none)
      (hparts : List.Forall₂ r.Makes parts parts') :
      Leaves r (.inner .tagged h parts) (.inner .tagged h parts')

/-- All that is applied in the call that a tag becomes are calls. -/
theorem eq_call_of_mem_tagCall {span : Span} {y : Ident} {name : String} {t : StyledTarget}
    {s : Nat} {n : Node} (hn : n ∈ (r.tagCall labels span y name t s).1.applications) :
    ∃ h callee args, n = .call h callee args := by
  rw [tagCall_apply, Build.call, Node.applications_call, List.mem_cons] at hn
  rcases hn with rfl | hn
  · exact ⟨_, _, _, rfl⟩
  obtain ⟨added, happs, hadded⟩ := Styled.applicationsAll_merge Styled.objectAssign none
    (Styled.areTexts_generated r.info labels.current t.isWeb s)
  have hmem : n ∈ added := by
    generalize Styled.merge Styled.objectAssign none
      (Styled.generated r.info labels.current t.isWeb s).1 = o at hn happs
    cases o <;> simp_all [Build.reference, Build.argument]
  rcases hadded n hmem with hassign | hcall
  · exact absurd hassign List.not_mem_nil
  · exact hcall

/-- All that is applied in the function that merges options are calls. -/
theorem eq_call_of_mem_mergeFunction {args options : List Node} {s : Nat} {n : Node}
    (hn : n ∈ (r.mergeFunction labels args options s).1.applications) :
    ∃ h callee args, n = .call h callee args := by
  unfold mergeFunction at hn
  split at hn
  · rcases r.objectAssign_cases labels s with ⟨y, name, t, -, he⟩ | he
    · rw [he] at hn
      exact r.eq_call_of_mem_tagCall hn
    · rw [he] at hn
      exact absurd hn List.not_mem_nil
  · exact absurd hn List.not_mem_nil

/-- An application that the pass leaves in some trees is one in what it makes of one of them. -/
theorem exists_of_mem_nodes {ns : List Node} {t : Node} {s : Nat}
    (h : t ∈ Node.applicationsAll (r.nodes labels ns s).1) :
    ∃ n ∈ ns, ∃ s', t ∈ (r.node labels n s').1.applications := by
  obtain ⟨m, hm, ht⟩ := Node.mem_applicationsAll.1 h
  obtain ⟨n, hn, s', rfl⟩ := r.mem_nodes labels hm
  exact ⟨n, hn, s', ht⟩

/-- A call of a styled target applies what its callee and its arguments apply, and calls. -/
theorem exists_of_mem_component {h : Head} {callee a : Node} {rest : List Node}
    {target : StyledTarget} {s : Nat} (hrest : ∀ n ∈ rest, n.isArgument = true) {t : Node} :
    let g := Styled.generated r.info labels.current target.isWeb s
    let c := r.node labels callee g.2
    let first := r.node labels a c.2
    let assign := r.mergeFunction labels (a :: rest) g.1 first.2
    let others := r.nodes labels rest assign.2
    t ∈ (Node.call h c.1 (Styled.addOptions assign.1 g.1 (first.1 :: others.1))).applications →
      (∃ h callee args, t = .call h callee args) ∨
        ∃ n ∈ callee :: a :: rest, ∃ s, t ∈ (r.node labels n s).1.applications := by
  intro g c first assign others ht
  have hothers : ∀ n ∈ others.1, n.isArgument = true := r.isArgument_nodes labels hrest assign.2
  obtain ⟨added, happs, hadded⟩ := Styled.applicationsAll_addOptions assign.1 first.1
    (Styled.areTexts_generated r.info labels.current target.isWeb s) hothers
  rw [Node.applications_call, happs, List.mem_cons, List.mem_append, List.mem_append,
    List.mem_append] at ht
  rcases ht with rfl | ht | ht | ht | ht
  · exact .inl ⟨_, _, _, rfl⟩
  · exact .inr ⟨callee, List.mem_cons_self .., _, ht⟩
  · exact .inr ⟨a, by simp, _, ht⟩
  · rcases hadded _ ht with hassign | hcall
    · exact .inl (r.eq_call_of_mem_mergeFunction hassign)
    · exact .inl hcall
  · obtain ⟨n, hn, s', ht⟩ := r.exists_of_mem_nodes ht
    exact .inr ⟨n, List.mem_cons_of_mem _ (List.mem_cons_of_mem _ hn), s', ht⟩

/-- **No template comes in,** and those that remain are no uses. -/
theorem leaves_node {n : Node} (hn : n.wellShaped true = true) {s : Nat} {h : Head}
    {parts : List Node} (hmem : .inner .tagged h parts ∈ (r.node labels n s).1.applications) :
    ∃ t ∈ n.applications, r.Leaves t (.inner .tagged h parts) := by
  induction n using Node.induct_through generalizing labels s with
  | leaf a =>
    rw [node_leaf] at hmem
    rcases r.leaf_cases a with ⟨x, y, -, -, he⟩ | ⟨role, x, -, -, he⟩ | ⟨-, he⟩ <;>
      rw [he] at hmem <;> exact absurd hmem List.not_mem_nil
  | run ns ih =>
    rw [Node.wellShaped_run] at hn
    rw [node_run, Node.applications_run] at hmem
    obtain ⟨n, hns, s', ht⟩ := r.exists_of_mem_nodes hmem
    obtain ⟨t, hmem, ht⟩ := ih n hns (hn n hns) ht
    rw [Node.applications_run]
    exact ⟨t, Node.mem_applicationsAll.2 ⟨n, hns, hmem⟩, ht⟩
  | inner k hd ps ih ihr =>
    have hshaped := Node.wellShaped_inner.1 hn
    -- what is left of a part is left of the node
    have hpart : ∀ n ∈ ps, ∀ {labels s},
        .inner .tagged h parts ∈ (r.node labels n s).1.applications →
        ∃ t ∈ (Node.inner k hd ps).applications, r.Leaves t (.inner .tagged h parts) := by
      intro n hps labels s hm
      obtain ⟨t, hmem, ht⟩ := ih n hps (hshaped.2 n hps) hm
      exact ⟨t, Node.mem_applications_inner.2
        (.inr (Node.mem_applicationsAll.2 ⟨n, hps, hmem⟩)), ht⟩
    have hnodes : ∀ {labels s},
        .inner .tagged h parts ∈ Node.applicationsAll (r.nodes labels ps s).1 →
        ∃ t ∈ (Node.inner k hd ps).applications, r.Leaves t (.inner .tagged h parts) := by
      intro labels s hm
      obtain ⟨n, hps, s', hm⟩ := r.exists_of_mem_nodes hm
      exact hpart n hps hm
    have hnotcall : ∀ {hd callee args}, Node.inner .tagged h parts ≠ .call hd callee args :=
      fun he => by cases he
    revert hmem
    refine r.node_cases (P := fun p => .inner .tagged h parts ∈ p.1.applications →
      ∃ t ∈ (Node.inner k hd ps).applications, r.Leaves t (.inner .tagged h parts))
      labels k hd ps s ?_ ?_ ?_ ?_ ?_
    · rintro rfl hm
      have hout : (Node.inner .exportSpecifier hd (r.exportParts ps)).wellShaped true = true :=
        r.wellShaped_exportParts hshaped.1
      obtain ⟨a, b, he, -⟩ := Kind.allows_exportSpecifier.1 (Node.wellShaped_inner.1 hout).1
      rw [he] at hm
      exact absurd hm List.not_mem_nil
    · rintro x w t y rfl rfl - - - hm
      obtain ⟨_, _, _, he⟩ := r.eq_call_of_mem_tagCall hm
      exact absurd he hnotcall
    · rintro callee a rest t rfl rfl - -
      have hc := wellShaped_call.1 hn
      intro g c first assign others hm
      rcases r.exists_of_mem_component (fun n hn => (hc.2 n (List.mem_cons_of_mem _ hn)).1) hm with
        ⟨_, _, _, he⟩ | ⟨n, hmem, s', hleft⟩
      · exact absurd he hnotcall
      · rcases List.mem_cons.1 hmem with rfl | hrest
        · exact hpart n (List.mem_cons_self ..) hleft
        · obtain ⟨t, ht, hleaves⟩ := ihr (a :: rest) (by simp) n hrest (hc.2 n hrest).2 hleft
          refine ⟨t, ?_, hleaves⟩
          rw [Node.applications_call]
          exact List.mem_cons_of_mem _ (List.mem_append_right _
            (Node.mem_applicationsAll.2 ⟨n, hrest, ht⟩))
    · intro label hkind _ ps' hm
      have hne : k ≠ .exportSpecifier := by rcases hkind with rfl | rfl <;> decide
      obtain ⟨h', callee, args, he, happs⟩ := Node.exists_annotate_callOfTemplate r.info
        (if label then labels.current else none) hkind (r.wellShaped_inner_nodes hne hn _ s)
      have hstyles : r.styles labels label k hd ps'.1 = .call h' callee args := he
      rw [hstyles, Node.applications_call, happs, List.mem_cons] at hm
      rcases hm with he | hm
      · exact absurd he hnotcall
      · exact hnodes hm
    · intro _ hunrelated ps' hm
      rcases Node.mem_applications_inner.1 hm with ⟨-, he⟩ | hm
      · cases he
        have hno : r.targets.use? (.inner .tagged h ps) = none := by
          rw [Option.eq_none_iff_forall_ne_some]
          intro label hu
          rw [use?_eq_some_iff, hunrelated] at hu
          cases hu
        exact ⟨.inner .tagged h ps, Node.mem_applications_inner.2 (.inl ⟨rfl, rfl⟩),
          .intro hno (r.forall₂_makes _ ps s)⟩
      · exact hnodes hm

/-! ### Modules -/

/-- What is applied in an item is applied in its tree. -/
theorem mem_applications_item {i : Item} {t : Node} {s : Nat}
    (ht : t ∈ (r.item i s).1.applications) :
    ∃ n s', i = .node n ∧ t ∈ (r.node .empty n s').1.applications := by
  cases i with
  | importing d =>
    rw [item_importing] at ht
    exact absurd ht List.not_mem_nil
  | node n =>
    rw [item_node] at ht
    exact ⟨n, s, rfl, ht⟩

/-- **A template that is left in a module was one before**, and used no style. -/
theorem leaves_module {m : Module} (hm : m.wellShaped true = true) {s : Nat} {h : Head}
    {parts : List Node} (hmem : .inner .tagged h parts ∈ (r.module m s).1.applications) :
    ∃ t ∈ m.applications, r.Leaves t (.inner .tagged h parts) := by
  rw [Module.wellShaped, List.all_eq_true] at hm
  rw [Module.applications, body_module] at hmem
  obtain ⟨j, hj, hmem⟩ := List.mem_flatMap.1 hmem
  have hall : List.Forall₂ (fun i j => ∃ s, j = (r.item i s).1) m.body (r.items m.body s).1 :=
    r.forall₂_items (fun _ _ s => ⟨s, rfl⟩) s
  obtain ⟨i, hi, s', rfl⟩ := exists_of_mem_forall₂ hall hj
  obtain ⟨n, s', rfl, hmem⟩ := r.mem_applications_item hmem
  obtain ⟨t, ht, hleaves⟩ := r.leaves_node (hm _ hi) hmem
  exact ⟨t, List.mem_flatMap.2 ⟨.node n, hi, ht⟩, hleaves⟩

/-- An identifier that is left was one before, and has been replaced if it is a target. -/
theorem exists_of_makes_reference {n : Node} {y : Ident} (h : r.Makes n (.ident .reference y)) :
    ∃ x, n = .ident .reference x ∧ y = (r.targets.replacement? x).getD x := by
  have houtlines := r.isRenaming _ _ h
  cases houtlines with
  | leaf ha => exact absurd rfl (ha _ _)
  | ident => exact ⟨_, rfl, rfl⟩

/-- **Where a base comes from:** it was one before, or the template of a style. -/
theorem exists_of_isBaseOf_makes {n n' : Node} {y : Ident} (hn : r.Makes n n')
    (hy : n'.IsBaseOf y) :
    ∃ x, y = (r.targets.replacement? x).getD x ∧
      (n.IsBaseOf x ∨ ∃ h template label, n = .inner .tagged h [.ident .reference x, template] ∧
        r.targets.treatment? x = some (.styles label)) := by
  obtain ⟨labels, s, rfl⟩ := hn
  cases n with
  | leaf a =>
    rw [node_leaf] at hy
    rcases r.leaf_cases a with ⟨_, _, -, -, he⟩ | ⟨_, _, -, -, he⟩ | ⟨-, he⟩ <;>
      rw [he] at hy <;> cases hy
  | run ns =>
    rw [node_run] at hy
    cases hy
  | inner k h ps =>
    revert hy
    refine r.node_cases (P := fun p => p.1.IsBaseOf y → _) labels k h ps s ?_ ?_ ?_ ?_ ?_
    · rintro rfl hy
      cases hy
    -- A name behind a dot became a call of what replaces its object.
    · intro x w t z hk hps _ _ hz hy
      obtain ⟨args, he, -⟩ := r.tagCall_eq labels h.place z w.text t s
      rw [he] at hy
      cases hy
      rw [hk, hps]
      exact ⟨x, by rw [hz, Option.getD_some], .inl .member⟩
    · intro callee a rest t hk hps ht _ g c first assign others hy
      obtain ⟨x, -, rfl, -⟩ := exists_of_styled? ht
      rw [hk, hps]
      refine ⟨x, ?_, .inl .call⟩
      have hc : c.1 = .ident .reference ((r.targets.replacement? x).getD x) := by
        show (r.node labels _ _).1 = _
        rw [node_leaf]
        rfl
      dsimp only at hy
      rw [hc] at hy
      cases hy
      rfl
    -- A style is an identifier with texts behind it now, so its tag or callee was the identifier.
    · intro label hk husage ps' hy
      rw [← use?_eq_some_iff (h := h)] at husage
      have hcallee : ∀ callee rest, ps = callee :: rest →
          ∃ x, callee = .ident .reference x ∧ y = (r.targets.replacement? x).getD x := by
        rintro callee rest rfl
        have hbase : (r.styles labels label k h ps'.1).IsBaseOf y := hy
        rw [show ps' = _ from r.nodes_cons ..] at hbase
        exact r.exists_of_makes_reference ⟨_, _, (eq_of_isBaseOf_annotate hk hbase).symm⟩
      rcases use?_cases husage with ⟨_, callee, template, he, hlabel⟩ | ⟨_, callee, args, he, -⟩
      · cases he
        obtain ⟨x, rfl, hx⟩ := hcallee _ _ rfl
        rcases takesLabel?_iff.1 hlabel with ⟨_, he, hlabel⟩ | ⟨-, _, _, he, -⟩ <;> cases he
        exact ⟨x, hx, .inr ⟨_, _, _, rfl, hlabel⟩⟩
      · cases he
        obtain ⟨x, rfl, hx⟩ := hcallee _ _ rfl
        exact ⟨x, hx, .inl .call⟩
    -- Nothing was done but to the parts, and they are what they were.
    · intro _ _ ps' hy
      have hmakes := r.forall₂_makes (labels.enter k ps) ps s
      show ∃ x, _
      change (Node.inner k h (r.nodes (labels.enter k ps) ps s).1).IsBaseOf y at hy
      generalize (r.nodes (labels.enter k ps) ps s).1 = qs at hy hmakes
      cases hy with
      | member =>
        obtain _ | ⟨hobject, _ | ⟨hproperty, ⟨⟩⟩⟩ := hmakes
        obtain ⟨x, rfl, hy⟩ := r.exists_of_makes_reference hobject
        cases r.isRenaming _ _ hproperty with
        | leaf => exact ⟨x, hy, .inl .member⟩
      | call =>
        obtain _ | ⟨hcallee, _ | ⟨hargs, ⟨⟩⟩⟩ := hmakes
        obtain ⟨x, rfl, hy⟩ := r.exists_of_makes_reference hcallee
        obtain ⟨args, rfl⟩ := r.isRenaming.exists_run hargs
        exact ⟨x, hy, .inl .call⟩

/-- **Where a callee that makes styles comes from:** its identifier has been renamed, and it made
styles before if that identifier was treated in the same way; or it comes from the template of a
style, and makes a styled component. -/
theorem takesLabel?_makes {n n' : Node} {ts : Targets} {label : Bool} (hn : r.Makes n n')
    (h : ts.takesLabel? n' = some label) :
    ∃ x t, ts.treatment? ((r.targets.replacement? x).getD x) = some t ∧
      (⟨.reference, x⟩ ∈ n.mentions ∧
          (∀ ts' : Targets, ts'.treatment? x = some t → ts'.takesLabel? n = some label) ∨
        (∃ target, t = .styled target) ∧
          ∃ label, r.targets.treatment? x = some (.styles label)) := by
  rcases takesLabel?_iff.1 h with ⟨y, rfl, hy⟩ | ⟨rfl, y, t, hbase, hy⟩
  · obtain ⟨x, rfl, rfl⟩ := r.exists_of_makes_reference hn
    exact ⟨x, _, hy, .inl ⟨by simp [Leaf.mentions],
      fun ts' hx => takesLabel?_iff.2 (.inl ⟨x, rfl, hx⟩)⟩⟩
  · obtain ⟨x, rfl, hx | ⟨_, _, label, -, hx⟩⟩ := r.exists_of_isBaseOf_makes hn hbase
    · exact ⟨x, _, hy, .inl ⟨hx.mem_mentions,
        fun ts' hx' => takesLabel?_iff.2 (.inr ⟨rfl, x, t, hx, hx'⟩)⟩⟩
    · exact ⟨x, _, hy, .inr ⟨⟨t, rfl⟩, label, hx⟩⟩

/-- A template that is left was one before, with a tag that makes no style. -/
theorem exists_template_of_mem {m : Module} (hm : m.wellShaped true = true) {s : Nat} {h : Head}
    {tag template : Node}
    (hmem : .inner .tagged h [tag, template] ∈ (r.module m s).1.applications) :
    ∃ tag₀ template₀, .inner .tagged h [tag₀, template₀] ∈ m.applications ∧ r.Makes tag₀ tag ∧
      r.targets.takesLabel? tag₀ = none := by
  obtain ⟨n, hn, hleaves⟩ := r.leaves_module hm hmem
  cases hleaves with
  | intro huse hparts =>
    obtain _ | ⟨htag, _ | ⟨-, ⟨⟩⟩⟩ := hparts
    exact ⟨_, _, hn, htag, huse⟩

/-- **No template is left for a style** if no replacement is a target itself. -/
theorem takesLabel?_of_mem_module {m : Module} (hm : m.wellShaped true = true)
    (ht : ∀ x y, r.targets.replacement? x = some y → r.targets.get? y = none) {s : Nat}
    {h : Head} {tag template : Node}
    (hmem : .inner .tagged h [tag, template] ∈ (r.module m s).1.applications) :
    r.targets.takesLabel? tag = none := by
  rw [Option.eq_none_iff_forall_ne_some]
  intro label hlabel
  obtain ⟨tag₀, template₀, -, htag, huse⟩ := r.exists_template_of_mem hm hmem
  obtain ⟨x, t, hx, hbefore⟩ := r.takesLabel?_makes htag hlabel
  -- If its identifier was replaced, the replacement would be a target itself; otherwise the
  -- template was a use before.
  cases hy : r.targets.replacement? x with
  | some y =>
    rw [hy, Option.getD_some, treatment?, ht x y hy] at hx
    cases hx
  | none =>
    rw [hy, Option.getD_none] at hx
    rcases hbefore with ⟨-, hsame⟩ | ⟨⟨target, rfl⟩, label', hx'⟩
    · exact Option.some_ne_none label ((hsame _ hx).symm.trans huse)
    · rw [hx] at hx'
      cases hx'

/-! ### Calls that are no uses -/

/-- The base of a callee is replaced where it stands. -/
theorem base?_makes {n n' : Node} {x : Ident} (h : r.Makes n n') (hx : n.base? = some x) :
    n'.base? = some ((r.targets.replacement? x).getD x) := by
  obtain ⟨labels, s, rfl⟩ := h
  unfold Node.base? at hx
  split at hx
  · cases hx
    rw [node_leaf]
    rfl
  · next h x p =>
    cases hx
    -- Behind a dot, the identifier may be called instead; it stays the base either way.
    refine r.node_cases (P := fun q => q.1.base? = _) labels .member h [.ident .reference x, p] s
      (fun hk => nomatch hk) ?_ (fun _ _ _ _ hk => nomatch hk) ?_ ?_
    · rintro x' w t y - hparts - - hy
      cases hparts
      obtain ⟨args, he, -⟩ := r.tagCall_eq labels h.place y w.text t s
      rw [he, hy]
      rfl
    · rintro label (hk | hk) <;> cases hk
    · intro _ _
      dsimp only
      rw [nodes_cons, node_leaf]
      rfl
  · next h x args =>
    cases hx
    refine r.node_cases (P := fun q => q.1.base? = _) labels .call h
      [.ident .reference x, .run args] s
      (fun hk => nomatch hk) (fun _ _ _ _ hk => nomatch hk) ?_ ?_ ?_
    · rintro callee a rest t - hparts - -
      cases hparts
      dsimp only
      rw [node_leaf]
      rfl
    · intro label _ _
      dsimp only
      rw [nodes_cons, nodes_cons, nodes_nil, node_leaf, node_run]
      rfl
    · intro _ _
      dsimp only
      rw [nodes_cons, nodes_cons, nodes_nil, node_leaf, node_run]
      rfl
  · cases hx

/-- A callee that makes a style is a target, or its object or its callee is. -/
theorem base?_of_takesLabel? {ts : Targets} {callee : Node} {label : Bool}
    (h : ts.takesLabel? callee = some label) :
    ∃ x t, callee.base? = some x ∧ ts.get? x = some t := by
  rcases takesLabel?_iff.1 h with ⟨x, rfl, hx⟩ | ⟨-, x, t, hbase, hx⟩
  · obtain ⟨t, ht, -⟩ := Option.map_eq_some_iff.1 hx
    exact ⟨x, t, rfl, ht⟩
  · obtain ⟨t, ht, -⟩ := Option.map_eq_some_iff.1 hx
    cases hbase <;> exact ⟨x, t, rfl, ht⟩

/-- **A call that is carried along:** it is no use, so its parts are rewritten, and nothing is
added to it. -/
inductive Carries (r : Rewriter) : Node → Node → Prop where
  | intro {h : Head} {callee callee' : Node} {args args' : List Node}
      (huse : r.targets.use? (.call h callee args) = none) (hcallee : r.Makes callee callee')
      (hargs : List.Forall₂ r.Makes args args') :
      Carries r (.call h callee args) (.call h callee' args')

variable {r} in
/-- What is carried along is a call. -/
theorem Carries.isApplication {n out : Node} (h : r.Carries n out) : out.isApplication = true := by
  cases h
  rfl

/-- A call whose callee is made of no target is carried along. -/
theorem carries_node {h : Head} {callee : Node} {args : List Node} {x : Ident}
    (hbase : callee.base? = some x) (hx : r.targets.get? x = none) (labels : LabelStack) (s : Nat) :
    r.Carries (.call h callee args) (r.node labels (.call h callee args) s).1 := by
  have huse : r.targets.use? (.call h callee args) = none := by
    rw [Option.eq_none_iff_forall_ne_some]
    intro label hu
    have hlabel : r.targets.takesLabel? callee = some label := hu
    obtain ⟨x', t, hbase', hx'⟩ := base?_of_takesLabel? hlabel
    rw [hbase] at hbase'
    cases hbase'
    rw [hx] at hx'
    cases hx'
  refine r.node_cases (P := fun p => r.Carries (.call h callee args) p.1) labels .call h
    [callee, .run args] s (fun hk => nomatch hk) (fun _ _ _ _ hk => nomatch hk) ?_ ?_ ?_
  · rintro callee a rest t - hparts ht -
    cases hparts
    obtain ⟨x', y, rfl, hx'⟩ := exists_of_styled? ht
    cases hbase
    rw [hx] at hx'
    cases hx'
  · intro label _ hu
    rw [← use?_eq_some_iff (h := h), huse] at hu
    cases hu
  · intro _ _
    dsimp only
    rw [nodes_cons, nodes_cons, nodes_nil, node_run]
    exact .intro huse ⟨labels, s, rfl⟩ (r.forall₂_makes labels args _)

end Rewriter

/-- Whether a node is a call whose callee is made of a binding with `p`. -/
def Node.isCallOf (p : Id → Bool) : Node → Bool
  | .call _ callee _ => callee.base?.any (p ·.id)
  | _ => false

/-- A call of bindings with `p` has such a binding as its callee, or in front of it. -/
theorem Node.isCallOf_iff {p : Id → Bool} {n : Node} :
    n.isCallOf p = true ↔
      ∃ h callee args x, n = .call h callee args ∧ callee.base? = some x ∧ p x.id = true := by
  constructor
  · intro h
    unfold isCallOf at h
    split at h
    · obtain ⟨x, hbase, hp⟩ := (Option.any_eq_true _ _).1 h
      exact ⟨_, _, _, x, rfl, hbase, hp⟩
    · cases h
  · rintro ⟨h, callee, args, x, rfl, hbase, hp⟩
    simp [isCallOf, hbase, hp]

/-- What the bindings of the targets are called by afterwards. -/
def Rewrite.Targets.results (ts : Targets) : List Id :=
  ts.map fun e => (e.2.replacement.map Ident.id).getD e.1

/-- What an identifier finds is in the table, under its binding. -/
theorem Rewrite.Targets.mem_of_get? {ts : Targets} {x : Ident} {t : Target}
    (h : ts.get? x = some t) : (x.id, t) ∈ ts := by
  obtain ⟨before, after, rfl, -⟩ := List.lookup_eq_some_iff.1 h
  exact List.mem_append_right _ (List.mem_cons_self ..)

/-- An identifier is replaced by what its target says, in its own place. -/
theorem Rewrite.Targets.exists_of_replacement? {ts : Targets} {x y : Ident}
    (h : ts.replacement? x = some y) :
    ∃ t z, ts.get? x = some t ∧ t.replacement = some z ∧ y = z.moveTo x.span := by
  obtain ⟨t, ht, h⟩ := Option.bind_eq_some_iff.1 h
  obtain ⟨z, hz, h⟩ := Option.bind_eq_some_iff.1 h
  exact ⟨t, z, ht, hz, (Option.some.inj h).symm⟩

/-- What becomes of an identifier with a target is a result of the table. -/
theorem Rewrite.Targets.mem_results {ts : Targets} {x : Ident} {t : Target}
    (h : ts.get? x = some t) : ((ts.replacement? x).getD x).id ∈ ts.results := by
  refine List.mem_map.2 ⟨_, mem_of_get? h, ?_⟩
  rw [replacement?, h]
  obtain ⟨replacement, treatment⟩ := t
  cases replacement <;> rfl

namespace Rewriter

open Rewrite Rewrite.Targets Stateful Css

variable {r : Rewriter}

/-- A use and the call that it becomes have the same callee. -/
theorem takesLabel?_of_callOfTemplate {ts : Targets} {n callee : Node} {label : Bool} {h : Head}
    {args : List Node} (hu : ts.use? n = some label)
    (hc : callOfTemplate n = .call h callee args) : ts.takesLabel? callee = some label := by
  unfold callOfTemplate at hc
  split at hc
  · cases hc
    exact hu
  · subst hc
    exact hu

/-- A finished call is one of what the targets are called by now. -/
theorem Finishes.isCallOf {s : Site} {out : Node} (h : r.Finishes s out) :
    out.isCallOf (· ∈ r.targets.results) = true := by
  obtain ⟨huse, hcall, hcallee, -⟩ := h
  obtain ⟨x, t, hbase, hx⟩ := base?_of_takesLabel? (takesLabel?_of_callOfTemplate huse hcall)
  exact Node.isCallOf_iff.2
    ⟨_, _, _, _, rfl, r.base?_makes hcallee hbase, decide_eq_true (mem_results hx)⟩

/-- Whether a rewrite has no target among the bindings with `p`. -/
def Spares (r : Rewriter) (p : Id → Bool) : Prop :=
  ∀ x : Ident, p x.id = true → r.targets.get? x = none

/-- A call of something that is no target is a call of it afterwards. -/
theorem Carries.isCallOf {p : Id → Bool} (hp : r.Spares p) {n out : Node} (h : r.Carries n out)
    (hn : n.isCallOf p = true) : out.isCallOf p = true := by
  obtain ⟨h', callee, args, x, rfl, hbase, hx⟩ := Node.isCallOf_iff.1 hn
  have hnone : r.targets.replacement? x = none := by
    rw [replacement?, hp x hx]
    rfl
  cases h with
  | intro _ hcallee =>
    have hbase' := r.base?_makes hcallee hbase
    rw [hnone, Option.getD_none] at hbase'
    exact Node.isCallOf_iff.2 ⟨_, _, _, x, rfl, hbase', hx⟩

/-- **Calls are carried along** if they are calls of bindings that are no targets. -/
theorem carries_module {p : Id → Bool} (hp : r.Spares p) {m : Module}
    (hm : m.wellShaped true = true) (s : Nat) :
    List.SublistForall₂ (fun n out => r.Carries n out ∧ out.isCallOf p = true)
      (m.applications.filter (Node.isCallOf p)) (r.module m s).1.applications := by
  have hcall : ∀ n : Node, n.isCallOf p = true → n.isApplication = true := by
    intro n hn
    obtain ⟨h, callee, args, x, rfl, -⟩ := Node.isCallOf_iff.1 hn
    rfl
  rw [m.filter_applications hcall, List.sublistForall₂_map_left_iff]
  refine r.sublistForall₂_module (P := Node.isCallOf p) (fun _ _ h => h.1.isApplication) ?_ hm s
  intro k h parts above labels s _ _ hn
  obtain ⟨h', callee, args, x, hcall, hbase, hx⟩ := Node.isCallOf_iff.1 hn
  cases hcall
  have hcarries : r.Carries (.call h callee args) _ :=
    r.carries_node hbase (hp x hx) labels s
  exact ⟨hcarries, hcarries.isCallOf hp hn⟩

end Rewriter

/-- A call that several rewrites carry along, one after the other. -/
inductive CarriedBy : List Rewriter → Node → Node → Prop where
  | refl (n : Node) : CarriedBy [] n n
  | cons {r : Rewriter} {rs : List Rewriter} {n n' out : Node} (h : r.Carries n n')
      (rest : CarriedBy rs n' out) : CarriedBy (r :: rs) n out

end StyleLowering
