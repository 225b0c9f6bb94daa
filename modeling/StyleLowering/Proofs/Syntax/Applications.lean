/-
# Calls and tagged templates of a tree

Where a binding is applied there is a call or a template behind a tag.
`Node.applications` lists them, a node in front of its parts.  The passes take
arguments and templates apart and build calls around them, so what counts is how the
list comes out of the lists of the parts: labels and comments are no
applications, a template that becomes a call keeps those in its expressions, and
options that are merged into a call only bring the call that merges them.
-/

import StyleLowering.Proofs.Labels
import StyleLowering.Proofs.Styled
import Mathlib.Data.List.Forall2

namespace StyleLowering

/-! ### Sublists, element by element -/

section Sublists

variable {α β γ : Type} {R : α → β → Prop} {as as' : List α} {bs bs' : List β}

/-- Lists in relation stay so when they are joined. -/
theorem sublistForall₂_append (h : List.SublistForall₂ R as bs)
    (h' : List.SublistForall₂ R as' bs') : List.SublistForall₂ R (as ++ as') (bs ++ bs') := by
  obtain ⟨image, hall, hsub⟩ := List.sublistForall₂_iff.1 h
  obtain ⟨image', hall', hsub'⟩ := List.sublistForall₂_iff.1 h'
  exact List.sublistForall₂_iff.2 ⟨image ++ image', List.rel_append hall hall', hsub.append hsub'⟩

/-- There may be more on the right. -/
theorem sublistForall₂_sublist (h : List.SublistForall₂ R as bs) (hs : bs.Sublist bs') :
    List.SublistForall₂ R as bs' := by
  obtain ⟨image, hall, hsub⟩ := List.sublistForall₂_iff.1 h
  exact List.sublistForall₂_iff.2 ⟨image, hall, hsub.trans hs⟩

/-- A weaker relation relates no fewer lists. -/
theorem sublistForall₂_imp {S : α → β → Prop} (hR : ∀ a b, R a b → S a b)
    (h : List.SublistForall₂ R as bs) : List.SublistForall₂ S as bs := by
  obtain ⟨image, hall, hsub⟩ := List.sublistForall₂_iff.1 h
  exact List.sublistForall₂_iff.2 ⟨image, hall.imp hR, hsub⟩

/-- What is related to something on the left is still there when the others are filtered out. -/
theorem sublistForall₂_filter {p : β → Bool} (hp : ∀ a b, R a b → p b = true)
    (h : List.SublistForall₂ R as bs) : List.SublistForall₂ R as (bs.filter p) := by
  induction h with
  | nil => exact .nil
  | cons hab _ ih =>
    rw [List.filter_cons_of_pos (hp _ _ hab)]
    exact .cons hab ih
  | @cons_right b as bs _ ih =>
    exact sublistForall₂_sublist ih ((List.sublist_cons_self b bs).filter p)

/-- One correspondence behind the other. -/
theorem sublistForall₂_comp {S : β → γ → Prop} {cs : List γ} (h : List.SublistForall₂ R as bs)
    (h' : List.SublistForall₂ S bs cs) :
    List.SublistForall₂ (fun a c => ∃ b, R a b ∧ S b c) as cs := by
  induction h' generalizing as with
  | nil =>
    cases h
    exact .nil
  | cons hbc _ ih =>
    cases h with
    | nil => exact .nil
    | cons hab h => exact .cons ⟨_, hab, hbc⟩ (ih h)
    | cons_right h => exact .cons_right (ih h)
  | cons_right _ ih => exact .cons_right (ih h)

end Sublists

/-! ### Applications -/

/-- Nodes that apply something: calls that are expressions, and templates behind a tag. -/
def Kind.isApplication : Kind → Bool
  | .call | .tagged => true
  | _ => false

/-- Whether a node applies something. -/
def Node.isApplication : Node → Bool
  | .inner k _ _ => k.isApplication
  | _ => false

mutual

/-- The calls and tagged templates of a tree. -/
def Node.applications : Node → List Node
  | .leaf _ => []
  | .run ns => Node.applicationsAll ns
  | .inner k h ps =>
    (if k.isApplication then [.inner k h ps] else []) ++ Node.applicationsAll ps

/-- The calls and tagged templates of several trees. -/
def Node.applicationsAll : List Node → List Node
  | [] => []
  | n :: ns => n.applications ++ Node.applicationsAll ns

end

namespace Node

/-- A leaf applies nothing. -/
@[simp] theorem applications_leaf (a : Leaf) : (Node.leaf a).applications = [] := by
  rw [applications]

/-- The applications in a run are those in its items. -/
@[simp] theorem applications_run (ns : List Node) :
    (Node.run ns).applications = applicationsAll ns := by
  rw [applications]

/-- No trees, no applications. -/
@[simp] theorem applicationsAll_nil : applicationsAll [] = [] := by
  rw [applicationsAll]

/-- The applications in several trees are those in the first, then those in the others. -/
@[simp] theorem applicationsAll_cons (n : Node) (ns : List Node) :
    applicationsAll (n :: ns) = n.applications ++ applicationsAll ns := by
  rw [applicationsAll]

/-- The applications in joined lists of trees are joined. -/
@[simp] theorem applicationsAll_append (ns ms : List Node) :
    applicationsAll (ns ++ ms) = applicationsAll ns ++ applicationsAll ms := by
  induction ns with
  | nil => simp
  | cons n ns ih => rw [List.cons_append, applicationsAll_cons, applicationsAll_cons, ih,
      List.append_assoc]

/-- Trees without applications have none together. -/
theorem applicationsAll_eq_nil {ns : List Node} (h : ∀ n ∈ ns, n.applications = []) :
    applicationsAll ns = [] := by
  induction ns with
  | nil => exact applicationsAll_nil
  | cons n ns ih =>
    rw [List.forall_mem_cons] at h
    rw [applicationsAll_cons, h.1, ih h.2, List.append_nil]

/-- An application in several trees is in one of them. -/
theorem mem_applicationsAll {ns : List Node} {t : Node} :
    t ∈ applicationsAll ns ↔ ∃ n ∈ ns, t ∈ n.applications := by
  induction ns with
  | nil => simp
  | cons n ns ih => simp [ih]

/-- A call or a tagged template comes before the applications in its parts. -/
theorem applications_inner_of_isApplication {k : Kind} (hk : k.isApplication = true) (h : Head)
    (ps : List Node) : (Node.inner k h ps).applications = .inner k h ps :: applicationsAll ps := by
  rw [applications, if_pos hk]
  rfl

/-- Any other node has the applications in its parts. -/
theorem applications_inner_of_not_isApplication {k : Kind} (hk : k.isApplication = false) (h : Head)
    (ps : List Node) : (Node.inner k h ps).applications = applicationsAll ps := by
  rw [applications, hk]
  rfl

/-- An application in a node is the node itself or is in one of its parts. -/
theorem mem_applications_inner {k : Kind} {h : Head} {ps : List Node} {t : Node} :
    t ∈ (Node.inner k h ps).applications ↔
      (k.isApplication = true ∧ t = .inner k h ps) ∨ t ∈ applicationsAll ps := by
  cases hk : k.isApplication with
  | true => rw [applications_inner_of_isApplication hk, List.mem_cons, and_iff_right rfl]
  | false => simp [applications_inner_of_not_isApplication hk]

/-- The applications in the parts are among those in the node. -/
theorem sublist_applications_inner (k : Kind) (h : Head) (ps : List Node) :
    (applicationsAll ps).Sublist (Node.inner k h ps).applications := by
  rw [applications]
  exact List.sublist_append_right _ _

/-- The applications in an argument are those in its expression. -/
@[simp] theorem applications_argument (h : Head) (e : Node) :
    (Node.argument h e).applications = e.applications := by
  rw [applications_inner_of_not_isApplication rfl, applicationsAll_cons, applicationsAll_nil,
    List.append_nil]

/-- A generated string applies nothing. -/
@[simp] theorem applications_textArgument (value : String) :
    (Build.textArgument value).applications = [] := by
  rw [Build.textArgument, Build.argument, applications_argument, Build.text, applications_leaf]

/-- The applications in an object literal are those in its properties. -/
@[simp] theorem applications_object (h : Head) (ps : List Node) :
    (Node.object h ps).applications = applicationsAll ps := by
  rw [applications_inner_of_not_isApplication rfl, applicationsAll_cons, applicationsAll_nil,
    List.append_nil, applications_run]

/-- A call comes first, then the applications in its callee and its arguments. -/
@[simp] theorem applications_call (h : Head) (callee : Node) (args : List Node) :
    (Node.call h callee args).applications =
      .call h callee args :: (callee.applications ++ applicationsAll args) := by
  rw [applications_inner_of_isApplication rfl, applicationsAll_cons, applicationsAll_cons,
    applicationsAll_nil, List.append_nil, applications_run]

/-- The applications of a tree are its places where something is applied. -/
theorem map_node_sites (n : Node) (above : List Node) :
    ((n.sites above).filter (·.node.isApplication)).map Site.node = n.applications := by
  have hall : ∀ (ns : List Node) (above : List Node),
      (∀ n ∈ ns, ∀ above, ((n.sites above).filter (·.node.isApplication)).map Site.node =
        n.applications) →
      ((sitesAll above ns).filter (·.node.isApplication)).map Site.node = applicationsAll ns := by
    intro ns above h
    induction ns with
    | nil => rw [sitesAll_nil, applicationsAll_nil, List.filter_nil, List.map_nil]
    | cons n ns ih =>
      rw [List.forall_mem_cons] at h
      rw [sitesAll_cons, applicationsAll_cons, List.filter_append, List.map_append, h.1 above,
        ih h.2]
  induction n generalizing above with
  | leaf a => rw [sites_leaf, applications_leaf, List.filter_nil, List.map_nil]
  | run ns ih =>
    rw [sites_run, applications_run]
    exact hall ns above ih
  | inner k h ps ih =>
    have hparts := hall ps (.inner k h ps :: above) ih
    rw [sites_inner, List.filter_cons]
    cases hk : k.isApplication with
    | true =>
      rw [applications_inner_of_isApplication hk, ← hparts]
      simp [isApplication, hk]
    | false =>
      rw [applications_inner_of_not_isApplication hk, ← hparts]
      simp [isApplication, hk]

/-- An application mentions nothing that its tree does not. -/
theorem mentions_subset_of_mem_applications {t n : Node} (ht : t ∈ n.applications) :
    t.mentions ⊆ n.mentions := by
  have hall : ∀ ns : List Node, (∀ n ∈ ns, t ∈ n.applications → t.mentions ⊆ n.mentions) →
      t ∈ applicationsAll ns → t.mentions ⊆ mentionsAll ns := by
    intro ns h hmem
    obtain ⟨n, hn, hmem⟩ := mem_applicationsAll.1 hmem
    rw [mentionsAll_eq_flatMap]
    exact fun a ha => List.mem_flatMap.2 ⟨n, hn, h n hn hmem ha⟩
  induction n with
  | leaf a =>
    rw [applications_leaf] at ht
    exact absurd ht List.not_mem_nil
  | run ns ih =>
    rw [applications_run] at ht
    rw [mentions_run]
    exact hall ns ih ht
  | inner k h ps ih =>
    rcases mem_applications_inner.1 ht with ⟨-, rfl⟩ | ht
    · exact List.Subset.refl _
    · rw [mentions_inner]
      exact hall ps ih ht

/-! ### Style calls -/

/-- A label and a source-map comment apply nothing. -/
theorem applicationsAll_annotated (f : FileInfo) (name : Option String) (span : Span)
    (args : List Node) :
    applicationsAll (Css.addComment f span (Css.addLabel f name args)) = applicationsAll args := by
  obtain ⟨before, after, label, comment, rfl, he, -⟩ := Css.exists_annotated f name span args
  rw [he]
  cases label <;> cases comment <;> simp

/-- A template that becomes arguments keeps what its expressions apply, if it has a text for
each of them. -/
theorem applicationsAll_templateArguments (first : Bool) {qs es : List Node}
    (h : es.length ≤ qs.length) :
    applicationsAll (Css.templateArguments first qs es) = applicationsAll es := by
  have htexts : ∀ first last q, applicationsAll (Css.textArguments first last q) = [] := by
    intro first last q
    refine applicationsAll_eq_nil fun a ha => ?_
    obtain ⟨text, rfl⟩ := Css.mem_textArguments ha
    exact applications_textArgument text
  induction qs generalizing first es with
  | nil => rw [List.length_eq_zero_iff.1 (Nat.le_zero.1 h), Css.templateArguments]
  | cons q qs ih =>
    cases es with
    | nil =>
      rw [Css.templateArguments, applicationsAll_append, htexts, List.nil_append]
      exact ih false (Nat.zero_le _)
    | cons e es =>
      rw [Css.templateArguments, applicationsAll_append, htexts, List.nil_append,
        applicationsAll_cons, applicationsAll_cons, Build.argument, applications_argument,
        ih false (Nat.le_of_succ_le_succ h)]

/-- **What is behind a tag is behind the call.**  A style that becomes an annotated call keeps
what its parts apply. -/
theorem exists_annotate_callOfTemplate (f : FileInfo) (name : Option String) {k : Kind} {h : Head}
    {parts : List Node} (hk : k = .tagged ∨ k = .call)
    (hn : (Node.inner k h parts).wellShaped true = true) :
    ∃ h' callee args, Css.annotate f name (Css.callOfTemplate (.inner k h parts)) =
        .call h' callee args ∧
      callee.applications ++ applicationsAll args = applicationsAll parts := by
  rcases hk with rfl | rfl
  · obtain ⟨tag, ht, es, qs, rfl, -, -, hq, hlength⟩ := exists_of_wellShaped_tagged hn
    have hle : es.length ≤ qs.length := by
      have := hlength rfl
      omega
    have hquasis : applicationsAll qs = [] := by
      refine applicationsAll_eq_nil fun q hmem => ?_
      obtain ⟨t, rfl⟩ := isQuasi_iff.1 (hq q hmem)
      exact applications_leaf _
    refine ⟨_, _, _, rfl, ?_⟩
    rw [applicationsAll_annotated, applicationsAll_templateArguments true hle,
      applicationsAll_cons, applicationsAll_cons, applications_inner_of_not_isApplication rfl]
    simp [hquasis]
  · obtain ⟨callee, args, rfl, -⟩ := Kind.allows_call.1 (wellShaped_inner.1 hn).1
    refine ⟨_, _, _, rfl, ?_⟩
    rw [applicationsAll_annotated]
    simp

end Node

/-! ### Options -/

namespace Styled

variable {g : List Node}

open Node

/-- Generated texts apply nothing. -/
theorem AreTexts.applicationsAll_eq_nil (h : AreTexts g) : applicationsAll g = [] := by
  refine Node.applicationsAll_eq_nil fun n hn => ?_
  obtain ⟨key, value, rfl⟩ := h n hn
  rw [Build.property, applications_inner_of_not_isApplication rfl]
  simp [Build.word, Build.text]

/-- Calls, and what the merging function applies. -/
def IsBuilt (assign t : Node) : Prop :=
  t ∈ assign.applications ∨ ∃ h callee args, t = .call h callee args

/-- Merged options apply what those of the user do; in front there may be the call that merges
them. -/
theorem applicationsAll_merge (assign : Node) (existing : Option Node) (hg : AreTexts g) :
    ∃ added, applicationsAll (merge assign existing g).toList =
        added ++ applicationsAll existing.toList ∧ ∀ t ∈ added, IsBuilt assign t := by
  have htexts : applicationsAll g = [] := hg.applicationsAll_eq_nil
  have hnone : ∀ t ∈ ([] : List Node), IsBuilt assign t := fun _ h => absurd h List.not_mem_nil
  cases existing with
  | none =>
    refine ⟨[], ?_, hnone⟩
    cases g with
    | nil => rfl
    | cons p g => simpa [merge, Build.object] using htexts
  | some e =>
    by_cases hnil : g = []
    · subst hnil
      exact ⟨[], by simp [merge], hnone⟩
    by_cases he : ∃ h ps, e = .object h ps
    · obtain ⟨h, ps, rfl⟩ := he
      refine ⟨[], ?_, hnone⟩
      rw [merge_object hnil]
      simp [htexts]
    · let args := [Build.argument (Build.object []), Build.argument (Build.object g),
        Build.argument e]
      rw [merge_of_needsAssign (needsAssign_some.2 ⟨hnil, he⟩)]
      refine ⟨Build.call Span.dummy assign args :: assign.applications, ?_,
        List.forall_mem_cons.2 ⟨.inr ⟨_, assign, args, rfl⟩, fun t h => .inl h⟩⟩
      simp [args, Build.call, Build.argument, Build.object, htexts]

/-- **A call that gets options keeps what its arguments apply.** -/
theorem applicationsAll_addOptions (assign first : Node) {rest : List Node} (hg : AreTexts g)
    (hr : ∀ a ∈ rest, a.isArgument = true) :
    ∃ added, applicationsAll (addOptions assign g (first :: rest)) =
        first.applications ++ (added ++ applicationsAll rest) ∧
      ∀ t ∈ added, IsBuilt assign t := by
  by_cases hnil : g = []
  · subst hnil
    exact ⟨[], applicationsAll_cons first rest, fun _ h => absurd h List.not_mem_nil⟩
  rw [addOptions, if_neg (by simpa using hnil)]
  cases rest with
  | nil =>
    have hs : secondArgument [first] = none := rfl
    obtain ⟨added, happs, hadded⟩ := applicationsAll_merge assign none hg
    refine ⟨added, ?_, hadded⟩
    rw [hs]
    cases hm : merge assign none g <;> rw [hm] at happs <;>
      simpa [setSecond, Build.argument] using happs
  | cons a rest =>
    obtain ⟨k, hd, e, hk, rfl⟩ := Node.isArgument_iff.1 (hr a (List.mem_cons_self ..))
    have ha : (Node.inner k hd [e]).applications = e.applications := by
      have hframe : k.isApplication = false := by rcases hk with rfl | rfl <;> rfl
      rw [applications_inner_of_not_isApplication hframe, applicationsAll_cons,
        applicationsAll_nil, List.append_nil]
    have hs : secondArgument (first :: .inner k hd [e] :: rest) = some e := by
      rcases hk with rfl | rfl <;> rfl
    obtain ⟨added, happs, hadded⟩ := applicationsAll_merge assign (some e) hg
    obtain ⟨o, ho⟩ := exists_merge assign e g
    rw [ho] at happs
    refine ⟨added, ?_, hadded⟩
    have hoptions : o.applications = added ++ e.applications := by simpa using happs
    rw [hs, ho]
    simp [setSecond, Build.argument, ha, hoptions]

end Styled
end StyleLowering
