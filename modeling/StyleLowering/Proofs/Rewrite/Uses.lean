/-
# Each use of a style is finished once

A style is used where an identifier of a style target, or the base of a styled
component, is called or stands in front of a template.  The rewriting pass turns each
of these uses into one call and annotates it once (`Rewriter.finishes_module`).

The uses of a tree and the calls that come of them are compared as lists.  What the pass
makes of one application at its root is all that has to be known
(`Rewriter.sublistForall₂_sites`); the pass may build other calls, but it never loses or
swaps any.
-/

import StyleLowering.Proofs.Rewrite.Labels
import StyleLowering.Proofs.Rewrite.Outline
import StyleLowering.Proofs.Syntax.Applications

namespace StyleLowering

/-- What can be the base of a styled component: an identifier with a name behind a dot, or
called. -/
inductive Node.IsBaseOf (x : Ident) : Node → Prop where
  | member {h : Head} {w : Word} : IsBaseOf x (.member h (.ident .reference x) (.word w))
  | call {h : Head} {args : List Node} : IsBaseOf x (.call h (.ident .reference x) args)

/-- The base of a styled component mentions its identifier. -/
theorem Node.IsBaseOf.mem_mentions {x : Ident} {n : Node} (h : n.IsBaseOf x) :
    ⟨.reference, x⟩ ∈ n.mentions := by
  cases h <;> simp [Leaf.mentions]

namespace Rewrite
namespace Targets

/-- Whether what a callee makes takes a label: it does if the callee is an identifier of a style
target that says so, and it does not if it is the base of a styled component, which is a styled
target with a name behind a dot, or called.  `none` if the callee makes no style. -/
def takesLabel? (ts : Targets) : Node → Option Bool
  | .ident .reference x =>
    match ts.get? x with
    | some ⟨_, .styles label⟩ => some label
    | _ => none
  | .member _ (.ident .reference x) (.word _) | .call _ (.ident .reference x) _ =>
    match ts.get? x with
    | some ⟨_, .styled _⟩ => some false
    | _ => none
  | _ => none

/-- Whether a call or a tagged template takes a label, `none` if it uses no style. -/
def use? (ts : Targets) : Node → Option Bool
  | .inner .tagged _ [callee, _] | .call _ callee _ => ts.takesLabel? callee
  | _ => none

variable {ts : Targets} {n callee : Node} {label : Bool}

/-- An identifier uses a styled target if that is its target. -/
theorem styled?_reference {x : Ident} {t : StyledTarget} :
    ts.styled? (.ident .reference x) = some t ↔ ∃ y, ts.get? x = some ⟨y, .styled t⟩ := by
  unfold styled? ofNode?
  dsimp only
  split
  · next y t' h =>
    rw [h]
    simp
  · next h =>
    simp only [reduceCtorEq, false_iff]
    rintro ⟨y, hy⟩
    exact h y t hy

/-- A target is used by an identifier. -/
theorem ofNode?_eq_some_iff {t : Target} :
    ts.ofNode? n = some t ↔ ∃ x, n = .ident .reference x ∧ ts.get? x = some t := by
  constructor
  · intro h
    unfold ofNode? at h
    split at h
    · exact ⟨_, rfl, h⟩
    · cases h
  · rintro ⟨x, rfl, h⟩
    exact h

/-- Only identifiers use styled targets. -/
theorem exists_of_styled? {t : StyledTarget} (h : ts.styled? n = some t) :
    ∃ x y, n = .ident .reference x ∧ ts.get? x = some ⟨y, .styled t⟩ := by
  have hn : ∃ x, n = .ident .reference x := by
    unfold styled? at h
    split at h
    · next hx =>
      obtain ⟨x, hn, -⟩ := ofNode?_eq_some_iff.1 hx
      exact ⟨x, hn⟩
    · cases h
  obtain ⟨x, rfl⟩ := hn
  obtain ⟨y, hy⟩ := styled?_reference.1 h
  exact ⟨x, y, rfl, hy⟩

/-- How an identifier is treated. -/
def treatment? (ts : Targets) (x : Ident) : Option Treatment := (ts.get? x).map Target.treatment

/-- **The two kinds of callees that make styles.** -/
theorem takesLabel?_iff :
    ts.takesLabel? n = some label ↔
      (∃ x, n = .ident .reference x ∧ ts.treatment? x = some (.styles label)) ∨
      (label = false ∧ ∃ x t, n.IsBaseOf x ∧ ts.treatment? x = some (.styled t)) := by
  constructor
  · intro h
    unfold takesLabel? at h
    split at h
    all_goals first
      | cases h
      | split at h
        · next hx =>
          cases h
          first
            | exact .inl ⟨_, rfl, congrArg _ hx⟩
            | exact .inr ⟨rfl, _, _, .member, congrArg _ hx⟩
            | exact .inr ⟨rfl, _, _, .call, congrArg _ hx⟩
        · cases h
  · rintro (⟨x, rfl, hx⟩ | ⟨rfl, x, t, hn, hx⟩)
    all_goals obtain ⟨⟨y, _⟩, hget, rfl⟩ := Option.map_eq_some_iff.1 hx
    · simp only [takesLabel?, hget]
    · cases hn <;> simp only [takesLabel?, hget]

/-- The table in which one identifier is a target. -/
def only (y : Ident) (t : Treatment) : Targets := [(y.id, ⟨none, t⟩)]

/-- In a table with one target, only its binding has a treatment. -/
theorem treatment?_only {x y : Ident} {t t' : Treatment} :
    (only y t).treatment? x = some t' ↔ x.id = y.id ∧ t = t' := by
  rw [only, treatment?, get?, List.lookup_cons]
  cases hx : x.id == y.id with
  | true => simp [eq_of_beq hx]
  | false => simp [beq_eq_false_iff_ne.1 hx]

/-- A plain target makes no style. -/
theorem takesLabel?_only_plain (y : Ident) (n : Node) : (only y .plain).takesLabel? n = none := by
  rw [Option.eq_none_iff_forall_ne_some]
  intro label h
  rcases takesLabel?_iff.1 h with ⟨x, -, hx⟩ | ⟨-, x, t, -, hx⟩
  · cases (treatment?_only.1 hx).2
  · cases (treatment?_only.1 hx).2

/-- The base of a styled component has a styled target. -/
theorem isStyledBase_iff :
    ts.isStyledBase n = true ↔ ∃ x t, n.IsBaseOf x ∧ ts.treatment? x = some (.styled t) := by
  constructor
  · intro h
    unfold isStyledBase at h
    split at h
    all_goals first
      | cases h
      | obtain ⟨t, ht⟩ := Option.isSome_iff_exists.1 h
        obtain ⟨x, y, rfl, hx⟩ := exists_of_styled? ht
        first
          | exact ⟨x, t, .member, congrArg _ hx⟩
          | exact ⟨x, t, .call, congrArg _ hx⟩
  · rintro ⟨x, t, hn, hx⟩
    obtain ⟨⟨y, _⟩, hget, rfl⟩ := Option.map_eq_some_iff.1 hx
    have hstyled := styled?_reference.2 ⟨y, hget⟩
    cases hn <;> rw [isStyledBase, hstyled] <;> rfl

/-- What is called with a callee is a style if the callee makes one. -/
theorem ofCallee_eq_styles_iff :
    Usage.ofCallee ts callee = .styles label ↔ ts.takesLabel? callee = some label := by
  have hbase : ∀ {x : Ident}, ts.isStyledBase (.ident .reference x) = false := rfl
  have hcallee : ts.takesLabel? callee = some label ↔
      (∃ x, callee = .ident .reference x ∧ ts.treatment? x = some (.styles label)) ∨
        (label = false ∧ ts.isStyledBase callee = true) := by
    rw [takesLabel?_iff, isStyledBase_iff]
  rw [hcallee, Usage.ofCallee]
  cases hn : ts.ofNode? callee with
  | none =>
    have hno : ¬∃ x, callee = .ident .reference x ∧ ts.treatment? x = some (.styles label) := by
      rintro ⟨x, rfl, hx⟩
      obtain ⟨t, hget, -⟩ := Option.map_eq_some_iff.1 hx
      rw [ofNode?_eq_some_iff.2 ⟨x, rfl, hget⟩] at hn
      cases hn
    rw [or_iff_right hno]
    dsimp only
    split
    · next hb => simp [hb, eq_comm]
    · next hb => simp [hb]
  | some t =>
    obtain ⟨x, rfl, hx⟩ := ofNode?_eq_some_iff.1 hn
    obtain ⟨y, treatment⟩ := t
    rw [hbase]
    cases treatment <;> simp [treatment?, hx]

/-- A use is a template or a call, and its callee makes a style. -/
theorem use?_cases (h : ts.use? n = some label) :
    (∃ hd callee template, n = .inner .tagged hd [callee, template] ∧
        ts.takesLabel? callee = some label) ∨
      ∃ hd callee args, n = .call hd callee args ∧ ts.takesLabel? callee = some label := by
  unfold use? at h
  split at h
  · exact .inl ⟨_, _, _, rfl, h⟩
  · exact .inr ⟨_, _, _, rfl, h⟩
  · cases h

/-- **A node uses a style exactly where the pass treats it as one.** -/
theorem use?_eq_some_iff {k : Kind} {h : Head} {parts : List Node} :
    ts.use? (.inner k h parts) = some label ↔ Usage.of ts k parts = .styles label := by
  have hstyled : ∀ {x : Ident} {y t}, ts.get? x = some ⟨y, .styled t⟩ →
      ts.takesLabel? (.ident .reference x) = none := by
    intro x y t hx
    simp only [takesLabel?, hx]
  unfold Usage.of
  split
  · exact ofCallee_eq_styles_iff.symm
  · rw [use?]
    split
    · next ht =>
      obtain ⟨x, y, rfl, hx⟩ := exists_of_styled? ht
      rw [hstyled hx]
      split <;> simp
    · exact ofCallee_eq_styles_iff.symm
  · next object property =>
    have hf := Usage.fits_ofMember ts object property
    generalize Usage.ofMember ts object property = u at hf
    cases hf with
    | styles hk => rcases hk with hk | hk <;> cases hk
    | unrelated | tag => simp [use?]
  · next htagged hcall _ =>
    simp only [reduceCtorEq, iff_false]
    intro hu
    rcases use?_cases hu with ⟨_, _, _, heq, -⟩ | ⟨_, _, _, heq, -⟩
    · cases heq
      exact absurd rfl (htagged _ _ rfl)
    · cases heq
      exact absurd rfl (hcall _ _ rfl)

end Targets
end Rewrite

namespace Rewriter

open Rewrite Rewrite.Targets Stateful Css

variable (r : Rewriter) {labels : LabelStack}

/-! ### Each application on its own -/

/-- The parts of an export specifier are names. -/
theorem sitesAll_exportSpecifier {fit : Bool} {parts : List Node}
    (h : Kind.allows fit .exportSpecifier parts = true) (above : List Node) :
    Node.sitesAll above parts = [] := by
  obtain ⟨a, b, rfl, -, -⟩ := Kind.allows_exportSpecifier.1 h
  simp

/-- Applications of several trees have their images one after the other. -/
theorem sublistForall₂_nodes {P : Node → Bool} {S : Site → Node → Prop} {above : List Node}
    {ns : List Node} (h : ∀ n ∈ ns, ∀ s, List.SublistForall₂ S
      ((n.sites above).filter (P ·.node)) (r.node labels n s).1.applications) (s : Nat) :
    List.SublistForall₂ S ((Node.sitesAll above ns).filter (P ·.node))
      (Node.applicationsAll (r.nodes labels ns s).1) := by
  induction ns generalizing s with
  | nil =>
    rw [Node.sitesAll_nil]
    exact .nil
  | cons n ns ih =>
    rw [List.forall_mem_cons] at h
    rw [Node.sitesAll_cons, List.filter_append, nodes_cons, Node.applicationsAll_cons]
    exact sublistForall₂_append (h.1 s) (ih h.2 _)

/-- Applications of the callee and the arguments of a styled target have their images one after the
other, the generated options between them. -/
theorem sublistForall₂_component {P : Node → Bool} {S : Site → Node → Prop} {above : List Node}
    {callee a : Node} {rest : List Node} {target : StyledTarget} {s : Nat}
    (hrest : ∀ n ∈ rest, n.isArgument = true)
    (himages : ∀ n ∈ callee :: a :: rest, ∀ s, List.SublistForall₂ S
      ((n.sites above).filter (P ·.node)) (r.node labels n s).1.applications) :
    let g := Styled.generated r.info labels.current target.isWeb s
    let c := r.node labels callee g.2
    let first := r.node labels a c.2
    let assign := r.mergeFunction labels (a :: rest) g.1 first.2
    let others := r.nodes labels rest assign.2
    List.SublistForall₂ S ((Node.sitesAll above [callee, .run (a :: rest)]).filter (P ·.node))
      (Node.applicationsAll
        [c.1, .run (Styled.addOptions assign.1 g.1 (first.1 :: others.1))]) := by
  intro g c first assign others
  rw [List.forall_mem_cons, List.forall_mem_cons] at himages
  have hothers : ∀ n ∈ others.1, n.isArgument = true := r.isArgument_nodes labels hrest assign.2
  obtain ⟨added, happs, -⟩ := Styled.applicationsAll_addOptions assign.1 first.1
    (Styled.areTexts_generated r.info labels.current target.isWeb s) hothers
  simp only [Node.sitesAll_cons, Node.sitesAll_nil, Node.sites_run, List.append_nil,
    List.filter_append, Node.applicationsAll_cons, Node.applicationsAll_nil,
    Node.applications_run]
  rw [happs]
  refine sublistForall₂_append (himages.1 g.2) ?_
  refine sublistForall₂_append (himages.2.1 c.2) ?_
  exact sublistForall₂_sublist (r.sublistForall₂_nodes himages.2.2 assign.2)
    (List.sublist_append_right _ _)

/-- The pass makes an inner node of an inner node, and if the applications of the parts have their
images in what it makes of them, then these are behind the node that comes out. -/
theorem sublistForall₂_parts {P : Node → Bool} {S : Site → Node → Prop} {above : List Node}
    {k : Kind} {h : Head} {parts : List Node} (hn : (Node.inner k h parts).wellShaped true = true)
    (hparts : ∀ n ∈ parts, ∀ s, List.SublistForall₂ S ((n.sites above).filter (P ·.node))
      (r.node (labels.enter k parts) n s).1.applications)
    (hitems : ∀ items, .run items ∈ parts → ∀ n ∈ items, ∀ s, List.SublistForall₂ S
      ((n.sites above).filter (P ·.node)) (r.node (labels.enter k parts) n s).1.applications)
    (s : Nat) :
    ∃ k' h' parts', (r.node labels (.inner k h parts) s).1 = .inner k' h' parts' ∧
      List.SublistForall₂ S ((Node.sitesAll above parts).filter (P ·.node))
        (Node.applicationsAll parts') := by
  have hnodes : ∀ s, List.SublistForall₂ S ((Node.sitesAll above parts).filter (P ·.node))
      (Node.applicationsAll (r.nodes (labels.enter k parts) parts s).1) :=
    r.sublistForall₂_nodes hparts
  -- Whatever becomes of the node, the parts come out in order; only options may come in between.
  refine r.node_cases (P := fun p => ∃ k' h' parts', p.1 = .inner k' h' parts' ∧
    List.SublistForall₂ S ((Node.sitesAll above parts).filter (P ·.node))
      (Node.applicationsAll parts')) labels k h parts s ?_ ?_ ?_ ?_ ?_
  · rintro rfl
    refine ⟨_, _, _, rfl, ?_⟩
    rw [sitesAll_exportSpecifier (Node.wellShaped_inner.1 hn).1]
    exact .nil
  · rintro x w t y rfl rfl - - -
    obtain ⟨args, he, -⟩ := r.tagCall_eq labels h.place y w.text t s
    refine ⟨_, _, _, he, ?_⟩
    rw [Node.sitesAll_cons, Node.sitesAll_cons, Node.sitesAll_nil, Node.sites_leaf,
      Node.sites_leaf]
    exact .nil
  · rintro callee a rest t rfl rfl - -
    have hc := wellShaped_call.1 hn
    refine ⟨_, _, _, rfl, r.sublistForall₂_component
      (fun n hn => (hc.2 n (List.mem_cons_of_mem _ hn)).1) fun n hmem => ?_⟩
    rcases List.mem_cons.1 hmem with rfl | hmem
    · exact hparts n (List.mem_cons_self ..)
    · exact hitems (a :: rest) (by simp) n hmem
  · intro label hkind _
    have hne : k ≠ .exportSpecifier := by rcases hkind with rfl | rfl <;> decide
    have hwell := r.wellShaped_inner_nodes hne hn (labels.enter k parts) s
    obtain ⟨h', callee, args, he, happs⟩ := Node.exists_annotate_callOfTemplate r.info
      (if label then labels.current else none) hkind hwell
    refine ⟨_, _, _, he, ?_⟩
    have hcall : Node.applicationsAll [callee, .run args] =
        callee.applications ++ Node.applicationsAll args := by simp
    rw [hcall, happs]
    exact hnodes s
  · intro _ _
    exact ⟨_, _, _, rfl, hnodes s⟩

/-- **Applications have images.**  If the pass makes of each application with `P`, wherever it
stands, an application that is related to it, then it does so for all of them at once: their
images are different applications of what comes out, in the same order. -/
theorem sublistForall₂_sites {P : Node → Bool} {S : Site → Node → Prop}
    (hS : ∀ s out, S s out → out.isApplication = true)
    (hnode : ∀ k h parts above labels s, labels.current = nearestName? above →
      (Node.inner k h parts).wellShaped true = true → P (.inner k h parts) = true →
      S ⟨above, .inner k h parts⟩ (r.node labels (.inner k h parts) s).1)
    {n : Node} (hn : n.wellShaped true = true) {above : List Node}
    (hl : labels.current = nearestName? above) (s : Nat) :
    List.SublistForall₂ S ((n.sites above).filter (P ·.node))
      (r.node labels n s).1.applications := by
  induction n using Node.induct_through generalizing above labels s with
  | leaf a =>
    rw [Node.sites_leaf]
    exact .nil
  | run ns ih =>
    rw [Node.wellShaped_run] at hn
    rw [node_run, Node.sites_run, Node.applications_run]
    exact r.sublistForall₂_nodes (fun n hmem s => ih n hmem (hn n hmem) hl s) s
  | inner k h parts ih ihr =>
    have hshaped := (Node.wellShaped_inner.1 hn).2
    have hname := LabelStack.current_enter_of_nearest hl k h parts
    obtain ⟨k', h', parts', hout, hsub⟩ := r.sublistForall₂_parts hn
      (fun n hmem => ih n hmem (hshaped n hmem) hname)
      (fun items hi n hmem => ihr items hi n hmem
        (Node.wellShaped_run.1 (hshaped _ hi) n hmem) hname) s
    rw [Node.sites_inner]
    -- The node comes before its parts on both sides, if it counts at all.
    by_cases hP : P (.inner k h parts) = true
    · have hroot := hnode k h parts above labels s hl hn hP
      have happ := hS _ _ hroot
      rw [hout] at hroot happ ⊢
      rw [List.filter_cons, if_pos hP, Node.applications_inner_of_isApplication happ]
      exact .cons hroot hsub
    · rw [List.filter_cons, if_neg hP, hout]
      exact sublistForall₂_sublist hsub (Node.sublist_applications_inner k' h' parts')

/-! ### Uses -/

/-- Neither a call nor a tagged template gives a name to labels. -/
theorem enter_of_isApplication {k : Kind} (hk : k = .tagged ∨ k = .call) (l : LabelStack)
    (parts : List Node) : l.enter k parts = l := by
  rcases hk with rfl | rfl <;> rfl

variable {r} in
/-- What is made of an expression is made of it as an argument. -/
theorem Makes.argument {e e' : Node} (h : r.Makes e e') :
    r.Makes (Build.argument e) (Build.argument e') := by
  obtain ⟨labels, s, rfl⟩ := h
  refine ⟨labels, s, ?_⟩
  have hnode := r.node_inner_of_ne labels (k := .argument) (by decide) (by decide) (by decide)
    (by decide) Head.empty [e] s
  rw [nodes_cons, nodes_nil] at hnode
  exact (congrArg Prod.fst hnode).symm

/-- A generated string is left as it is. -/
theorem makes_textArgument (text : String) :
    r.Makes (Build.textArgument text) (Build.textArgument text) := by
  have htext : r.Makes (Build.text text) (Build.text text) := by
    refine ⟨.empty, 0, ?_⟩
    rw [Build.text, node_leaf]
    rfl
  exact htext.argument

/-- The texts of a template are left as they are. -/
theorem nodes_of_isQuasi (labels : LabelStack) {qs : List Node}
    (h : ∀ q ∈ qs, q.isQuasi = true) (s : Nat) : (r.nodes labels qs s).1 = qs := by
  induction qs generalizing s with
  | nil => rw [nodes_nil]
  | cons q qs ih =>
    rw [List.forall_mem_cons] at h
    rw [nodes_cons, r.node_of_isQuasi labels h.1, ih h.2]

/-- Templates become arguments expression by expression. -/
theorem forall₂_templateArguments {es es' : List Node} (h : List.Forall₂ r.Makes es es')
    (first : Bool) (qs : List Node) :
    List.Forall₂ r.Makes (templateArguments first qs es) (templateArguments first qs es') := by
  have htexts : ∀ first last q,
      List.Forall₂ r.Makes (textArguments first last q) (textArguments first last q) := by
    intro first last q
    refine List.forall₂_same.2 fun a ha => ?_
    obtain ⟨text, rfl⟩ := mem_textArguments ha
    exact r.makes_textArgument text
  induction qs generalizing first es es' with
  | nil =>
    rw [templateArguments, templateArguments]
    exact .nil
  | cons q qs ih =>
    cases h with
    | nil => exact List.rel_append (htexts ..) (ih .nil false)
    | cons he h => exact List.rel_append (htexts ..) (.cons he.argument (ih h false))

/-- **A use that is finished:** its parts are rewritten, it has become a call, and that call is
annotated once, with the name of the nearest declaration if it takes a label. -/
inductive Finishes (r : Rewriter) : Site → Node → Prop where
  | annotated {s : Site} {label : Bool} {h : Head} {callee callee' : Node}
      {args args' : List Node} (huse : r.targets.use? s.node = some label)
      (hcall : callOfTemplate s.node = .call h callee args) (hcallee : r.Makes callee callee')
      (hargs : List.Forall₂ r.Makes args args') :
      Finishes r s
        (annotate r.info (if label then nearestName? s.above else none) (.call h callee' args'))

variable {r} in
/-- What a use is finished as is a call or a tagged template. -/
theorem Finishes.isApplication {s : Site} {out : Node} (h : r.Finishes s out) :
    out.isApplication = true := by
  cases h
  rfl

/-- The call that a use becomes has the arguments of the use, rewritten, and besides them at most
one label, which is left out if the use takes none, and at most one source-map comment. -/
inductive GainsOnce (r : Rewriter) : Site → Node → Prop where
  | intro {s : Site} {label : Bool} {h : Head} {callee callee' : Node}
      {args before after : List Node} {name comment : Option String}
      (huse : r.targets.use? s.node = some label)
      (hcall : callOfTemplate s.node = .call h callee args) (hcallee : r.Makes callee callee')
      (hargs : List.Forall₂ r.Makes args (before ++ after)) (hname : label = false → name = none) :
      GainsOnce r s (.call h callee' (before ++ (name.map Build.textArgument).toList ++ after ++
        (comment.map Build.textArgument).toList))

variable {r} in
/-- **A use that is finished gains one label and one comment at most.** -/
theorem Finishes.gainsOnce {s : Site} {out : Node} (h : r.Finishes s out) : r.GainsOnce s out := by
  cases h with
  | @annotated label h callee callee' args args' huse hcall hcallee hargs =>
    obtain ⟨before, after, text, comment, rfl, he, htext⟩ :=
      exists_annotated r.info (if label then nearestName? s.above else none) h.place args'
    rw [annotate, he]
    refine .intro huse hcall hcallee hargs ?_
    rintro rfl
    exact htext rfl

/-- What the pass makes of a use is a finished call. -/
theorem finishes_node {k : Kind} {h : Head} {parts above : List Node} (s : Nat)
    (hl : labels.current = nearestName? above)
    (hn : (Node.inner k h parts).wellShaped true = true)
    (hu : (r.targets.use? (.inner k h parts)).isSome = true) :
    r.Finishes ⟨above, .inner k h parts⟩ (r.node labels (.inner k h parts) s).1 := by
  obtain ⟨label, hu⟩ := Option.isSome_iff_exists.1 hu
  have husage := use?_eq_some_iff.1 hu
  have hshaped := (Node.wellShaped_inner.1 hn).1
  refine r.node_cases (P := fun p => r.Finishes ⟨above, .inner k h parts⟩ p.1) labels k h parts s
    ?_ ?_ ?_ ?_ ?_
  · rintro rfl
    cases hu
  · rintro x w t y rfl rfl - - -
    cases hu
  -- The base of a component is no use: what is called later is what it makes.
  · rintro callee a rest t rfl rfl ht -
    obtain ⟨x, y, rfl, hx⟩ := exists_of_styled? ht
    simp only [use?, takesLabel?, hx] at hu
    cases hu
  · intro label' hk husage'
    obtain rfl : label = label' := by
      rw [husage] at husage'
      cases husage'
      rfl
    -- A use gives no name to labels, so its label is the one from outside.
    rw [enter_of_isApplication hk]
    show r.Finishes _ (annotate r.info (if label then labels.current else none) _)
    rw [hl]
    rcases hk with rfl | rfl
    · obtain ⟨tag, ht, es, qs, rfl, hq⟩ := Kind.allows_tagged.1 hshaped
      rw [nodes_cons, nodes_cons, nodes_nil]
      obtain ⟨s₁, s₂, he⟩ := r.node_template labels ht es qs (r.node labels tag s).2
      rw [he, r.nodes_of_isQuasi labels hq]
      exact .annotated hu rfl ⟨labels, s, rfl⟩
        (r.forall₂_templateArguments (r.forall₂_makes labels es s₁) true qs)
    · obtain ⟨callee, args, rfl, -⟩ := Kind.allows_call.1 hshaped
      rw [nodes_cons, nodes_cons, nodes_nil, node_run]
      exact .annotated hu rfl ⟨labels, s, rfl⟩ (r.forall₂_makes labels args _)
  · intro _ hunrelated
    rw [husage] at hunrelated
    cases hunrelated

end Rewriter

/-! ### Modules -/

/-- The calls and tagged templates of an item that is not an import declaration. -/
def Item.applications : Item → List Node
  | .importing _ => []
  | .node n => n.applications

namespace Module

/-- The calls and tagged templates of a module outside of its imports. -/
def applications (m : Module) : List Node := m.body.flatMap Item.applications

/-- The places of a module outside of its imports. -/
def sites (m : Module) : List Site := m.body.flatMap Rewriter.sitesOf

/-- An application mentions nothing that its module does not. -/
theorem mentions_subset_outside {m : Module} {t : Node} (ht : t ∈ m.applications) :
    t.mentions ⊆ m.outside := by
  obtain ⟨i, hi, ht⟩ := List.mem_flatMap.1 ht
  cases i with
  | importing d => exact absurd ht List.not_mem_nil
  | node n =>
    exact fun a ha =>
      List.mem_flatMap.2 ⟨.node n, hi, Node.mentions_subset_of_mem_applications ht ha⟩

/-- The applications among the sites of a module are its applications, in order. -/
theorem map_node_sites (m : Module) :
    (m.sites.filter (·.node.isApplication)).map Site.node = m.applications := by
  rw [sites, applications, List.filter_flatMap, List.map_flatMap]
  refine List.flatMap_congr fun i _ => ?_
  cases i with
  | importing d => rfl
  | node n => exact n.map_node_sites []

/-- Applications with some property are found at the places of a module. -/
theorem filter_applications (m : Module) {p : Node → Bool}
    (hp : ∀ n, p n = true → n.isApplication = true) :
    m.applications.filter p = (m.sites.filter (p ·.node)).map Site.node := by
  rw [← m.map_node_sites, List.filter_map, List.filter_filter]
  refine congrArg _ (List.filter_congr fun s _ => ?_)
  rw [Bool.eq_iff_iff, Bool.and_eq_true]
  exact and_iff_left_of_imp (hp s.node)

/-- The places of a module where a style is used. -/
def uses (m : Module) (ts : Rewrite.Targets) : List Site :=
  m.sites.filter fun s => (ts.use? s.node).isSome

end Module

namespace Rewriter

variable (r : Rewriter)

/-- Applications of a module have images if each of them has one. -/
theorem sublistForall₂_module {P : Node → Bool} {S : Site → Node → Prop}
    (hS : ∀ s out, S s out → out.isApplication = true)
    (hnode : ∀ k h parts above labels s, labels.current = nearestName? above →
      (Node.inner k h parts).wellShaped true = true → P (.inner k h parts) = true →
      S ⟨above, .inner k h parts⟩ (r.node labels (.inner k h parts) s).1)
    {m : Module} (hm : m.wellShaped true = true) (s : Nat) :
    List.SublistForall₂ S (m.sites.filter (P ·.node)) (r.module m s).1.applications := by
  rw [Module.wellShaped, List.all_eq_true] at hm
  rw [Module.sites, Module.applications, body_module]
  generalize m.body = is at hm
  induction is generalizing s with
  | nil => exact .nil
  | cons i is ih =>
    rw [List.forall_mem_cons] at hm
    rw [items_cons, List.flatMap_cons, List.flatMap_cons, List.filter_append]
    refine sublistForall₂_append ?_ (ih _ hm.2)
    cases i with
    | importing d =>
      rw [item_importing]
      exact .nil
    | node n =>
      rw [item_node]
      exact r.sublistForall₂_sites hS hnode hm.1 rfl s

/-- **Each use of a style is finished once.** -/
theorem finishes_module {m : Module} (hm : m.wellShaped true = true) (s : Nat) :
    List.SublistForall₂ r.Finishes (m.uses r.targets) (r.module m s).1.applications :=
  r.sublistForall₂_module (P := fun n => (r.targets.use? n).isSome)
    (fun _ _ => Finishes.isApplication)
    (fun _ _ _ _ _ s hl hn hu => r.finishes_node s hl hn hu) hm s

end Rewriter
end StyleLowering
