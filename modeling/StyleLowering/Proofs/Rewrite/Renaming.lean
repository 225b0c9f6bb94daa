/-
# Renaming is complete and captures nothing

What the rewriting pass does to the identifiers of a program.  Each one stays or
gets its replacement in the same place; names of exports stay; and the only
identifiers that come in are outer names for exports whose local name is
replaced and the global `Object` where options are merged.  None gets lost where
the templates have enough texts for their expressions.

The main statement is `Rewriter.module_renames`.
-/

import StyleLowering.Proofs.Rewrite.Shape
import StyleLowering.Proofs.Syntax.Imports
import StyleLowering.Proofs.Syntax.Trace

namespace StyleLowering

/-- What an identifier does after it is replaced.  A shorthand property has been
spelled out, and its value is a reference. -/
def Role.replaced : Role → Role
  | .shorthand => .reference
  | role => role

namespace Rewrite
namespace Targets

/-- What takes the place of an identifier when there is one more target in front. -/
theorem replacement?_cons (x : Id) (t : Target) (ts : Targets) (a : Ident) :
    replacement? ((x, t) :: ts) a =
      if a.id = x then t.replacement.map (·.moveTo a.span) else ts.replacement? a := by
  unfold replacement? get?
  rw [List.lookup_cons]
  split_ifs with h
  · rw [beq_iff_eq.2 h]
    obtain ⟨replacement, treatment⟩ := t
    cases replacement <;> rfl
  · rw [beq_eq_false_iff_ne.2 h]

/-- What may become of an identifier. -/
inductive Renames (ts : Targets) : Mention → Mention → Prop where
  /-- One that is no target, or is to keep its name, stays. -/
  | kept {a : Mention} (h : ts.replacement? a.ident = none) : Renames ts a a
  /-- The outer name of an export stays. -/
  | exported {x : Ident} : Renames ts ⟨.exported, x⟩ ⟨.exported, x⟩
  /-- A target gets its replacement. -/
  | replaced {role : Role} {x y : Ident} (h : ts.replacement? x = some y) :
      Renames ts ⟨role, x⟩ ⟨role.replaced, y⟩

/-- What may come in. -/
inductive Adds (ts : Targets) : Mention → Prop where
  /-- The outer name of an export, which is what its local name was. -/
  | exported {x y : Ident} (h : ts.replacement? x = some y) :
      Adds ts ⟨.exported, .generated x.name⟩
  /-- The global `Object`, or its replacement. -/
  | object : Adds ts
      ⟨.reference, (ts.replacement? (.global "Object")).getD (.global "Object")⟩

/-- What a rewrite does to the identifiers of a module. -/
structure IsRenaming (ts : Targets) (m m' : Module) : Prop where
  /-- Outside of the imports every identifier has an image, in the same order, and what
  comes in besides are outer names of exports and the global `Object`. -/
  image : ∃ image added, List.Forall₂ ts.Renames m.outside image ∧ image.Sublist m'.outside ∧
    m'.outside.Perm (image ++ added) ∧ ∀ b ∈ added, ts.Adds b
  gone : ∀ b ∈ m'.outside, b.role ≠ .exported → ts.replacement? b.ident = none
  imports : m'.imports = m.imports

end Targets
end Rewrite

namespace Rewriter

open Rewrite Stateful Css

variable {fit : Bool} (r : Rewriter) (labels : LabelStack)

/-- A leaf is renamed or left alone. -/
theorem trace_leaf (a : Leaf) :
    Trace r.targets.Renames r.targets.Adds fit a.mentions (r.leaf a).mentions := by
  unfold leaf
  split
  · next x =>
    cases hx : r.targets.replacement? x with
    | none => exact .step (.kept hx) .nil
    | some y =>
      rw [Node.mentions_inner]
      exact .step (.replaced hx) .nil
  · next role x hr =>
    have hrole : role.replaced = role := by cases role <;> simp_all [Role.replaced]
    cases hx : r.targets.replacement? x with
    | none => exact .step (.kept hx) .nil
    | some y =>
      have h : r.targets.Renames ⟨role, x⟩ ⟨role.replaced, y⟩ := .replaced hx
      rw [hrole] at h
      exact .step h .nil
  · next hs hi =>
    have hm : a.mentions = [] := by
      unfold Leaf.mentions
      split
      · next role x => exact absurd rfl (hi role x)
      · rfl
    rw [Node.mentions_leaf, hm]
    exact .nil

/-- The outer name of an export stays. -/
theorem trace_outerName {b : Leaf} (h : b.isOuterName = true) :
    Trace r.targets.Renames r.targets.Adds fit b.mentions b.mentions := by
  rcases Leaf.isOuterName_iff.1 h with ⟨x, rfl⟩ | ⟨s, rfl⟩ | rfl
  · exact .step .exported .nil
  · exact .nil
  · exact .nil

/-- A specifier has its local name renamed, and may get an outer name. -/
theorem trace_exportParts {parts : List Node}
    (h : Kind.allows fit .exportSpecifier parts = true) :
    Trace r.targets.Renames r.targets.Adds fit (Node.mentionsAll parts)
      (Node.mentionsAll (r.exportParts parts)) := by
  obtain ⟨a, b, rfl, ha, hb⟩ := Kind.allows_exportSpecifier.1 h
  have hout : Trace r.targets.Renames r.targets.Adds fit b.mentions b.mentions :=
    r.trace_outerName hb
  rcases Leaf.isLocalName_iff.1 ha with ⟨x, rfl⟩ | ⟨s, rfl⟩
  · cases hx : r.targets.replacement? x with
    | none =>
      rw [r.exportParts_of_none hx]
      simp only [Node.mentionsAll_cons, Node.mentionsAll_nil, Node.mentions_leaf, List.append_nil]
      exact .step (.kept hx) hout
    | some y =>
      rw [r.exportParts_of_some hx]
      simp only [Node.mentionsAll_cons, Node.mentionsAll_nil, Node.mentions_leaf, List.append_nil]
      refine .step (.replaced hx) ?_
      split
      · next hb =>
        subst hb
        exact .new (.exported hx) .nil
      · exact hout
  · simp only [exportParts, Node.mentionsAll_cons, Node.mentionsAll_nil, Node.mentions_leaf,
      List.append_nil]
    exact hout

/-- The call that a tag becomes mentions the function that it calls. -/
theorem mentions_tagCall (span : Span) (y : Ident) (name : String) (t : StyledTarget) (s : Nat) :
    (r.tagCall labels span y name t s).1.mentions = [⟨.reference, y⟩] := by
  obtain ⟨args, he, hm, -⟩ := r.tagCall_eq labels span y name t s
  rw [he]
  simp [Build.call, Build.reference, hm, Leaf.mentions]

/-- The function that merges options mentions nothing but `Object`. -/
theorem mentions_objectAssign (s : Nat) :
    (r.objectAssign labels s).1.mentions =
      [⟨.reference, (r.targets.replacement? (.global "Object")).getD (.global "Object")⟩] := by
  rcases r.objectAssign_cases labels s with ⟨y, name, t, hy, he⟩ | he
  · rw [he, mentions_tagCall, hy, Option.getD_some]
  · rw [he]
    simp [Build.member, Build.word, leaf, Leaf.mentions]

/-- An argument that is rewritten is still one, of the expression that is rewritten. -/
theorem exists_argumentOf_node {b : Node} (hb : b.isArgument = true) (s : Nat) :
    ∃ e s', Styled.argumentOf b = some e ∧
      Styled.argumentOf (r.node labels b s).1 = some (r.node labels e s').1 := by
  obtain ⟨k, hd, e, rfl | rfl, rfl⟩ := Node.isArgument_iff.1 hb
  all_goals
    rw [node_inner_of_ne _ _ (by decide) (by decide) (by decide) (by decide), nodes_cons, nodes_nil]
    exact ⟨e, _, rfl, rfl⟩

/-- Options of the user that are an object literal are still one after the pass, so
what has to be merged afterwards had to be before. -/
theorem needsAssign_of_nodes {a first : Node} {rest g : List Node}
    (hr : ∀ n ∈ rest, n.isArgument = true) (s : Nat)
    (h : Styled.needsAssign
      (Styled.secondArgument (first :: (r.nodes labels rest s).1)) g = true) :
    Styled.needsAssign (Styled.secondArgument (a :: rest)) g = true := by
  cases rest with
  | nil =>
    rw [nodes_nil] at h
    exact absurd h (by simp [Styled.secondArgument])
  | cons b rest =>
    obtain ⟨e, s', he, hb⟩ := r.exists_argumentOf_node labels (hr b (List.mem_cons_self ..)) s
    rw [nodes_cons, Styled.secondArgument, hb, Styled.needsAssign_some] at h
    rw [Styled.secondArgument, he, Styled.needsAssign_some]
    refine ⟨h.1, ?_⟩
    rintro ⟨ho, ps, rfl⟩
    obtain ⟨s'', hs⟩ := r.node_object labels ho ps s'
    exact h.2 ⟨ho, _, hs⟩

/-- The traces of trees, one after the other. -/
theorem trace_nodes {ns : List Node} (h : ∀ n ∈ ns, ∀ s,
      Trace r.targets.Renames r.targets.Adds fit n.mentions (r.node labels n s).1.mentions)
    (s : Nat) :
    Trace r.targets.Renames r.targets.Adds fit (Node.mentionsAll ns)
      (Node.mentionsAll (r.nodes labels ns s).1) :=
  Trace.mentionsAll (r.forall₂_nodes labels h s)

/-- A call that gets options keeps the identifiers of its parts, and `Object` comes in
where the options have to be merged. -/
theorem trace_component (h : Head) {callee a : Node} {rest g : List Node}
    (hr : ∀ b ∈ rest, IsGoodArgument fit b)
    (hcallee : ∀ s, Trace r.targets.Renames r.targets.Adds fit callee.mentions
      (r.node labels callee s).1.mentions)
    (ha : ∀ s, Trace r.targets.Renames r.targets.Adds fit a.mentions
      (r.node labels a s).1.mentions)
    (hrest : ∀ b ∈ rest, ∀ s, Trace r.targets.Renames r.targets.Adds fit b.mentions
      (r.node labels b s).1.mentions)
    (s₁ s₂ s₃ s₄ : Nat) (hg : Styled.AreTexts g) :
    Trace r.targets.Renames r.targets.Adds fit
      (Node.mentionsAll [callee, .run (a :: rest)])
      (Node.call h (r.node labels callee s₁).1
        (Styled.addOptions (r.mergeFunction labels (a :: rest) g s₃).1 g
          ((r.node labels a s₂).1 :: (r.nodes labels rest s₄).1))).mentions := by
  have hargs : ∀ b ∈ (r.nodes labels rest s₄).1, b.isArgument = true :=
    r.isArgument_nodes labels (fun n hn => (hr n hn).1) s₄
  simp only [Node.mentionsAll_cons, Node.mentionsAll_nil, Node.mentions_run, Node.mentions_inner,
    List.append_nil, Styled.mentionsAll_addOptions hg hargs]
  refine (hcallee s₁).append ((ha s₂).append
    (Trace.new_append (fun b hb => ?_) (r.trace_nodes labels hrest s₄)))
  split at hb
  · next hm =>
    have hn := r.needsAssign_of_nodes (a := a) labels (fun n hn => (hr n hn).1) s₄ hm
    rw [mergeFunction, if_pos hn, mentions_objectAssign, List.mem_singleton] at hb
    rw [hb]
    exact .object
  · exact absurd hb List.not_mem_nil

/-- A style call or template whose parts are done keeps their identifiers. -/
theorem trace_styles {k : Kind} (hk : k = .tagged ∨ k = .call) (label : Bool) (h : Head)
    {parts : List Node} {as : List Mention}
    (hn : (Node.inner k h parts).wellShaped fit = true)
    (t : Trace r.targets.Renames r.targets.Adds fit as (Node.mentionsAll parts)) :
    Trace r.targets.Renames r.targets.Adds fit as (r.styles labels label k h parts).mentions := by
  unfold styles
  rw [mentions_annotate]
  rcases hk with rfl | rfl
  · obtain ⟨tag, ht, es, qs, rfl, -, -, hq, hl⟩ := Node.exists_of_wellShaped_tagged hn
    have hqs : Node.mentionsAll qs = [] := Node.mentionsAll_eq_nil_of_isQuasi hq
    have hs := mentionsAll_templateArguments_sublist true qs es
    simp only [Node.mentionsAll_cons, Node.mentionsAll_nil, Node.mentions_inner,
      Node.mentions_run, hqs, List.append_nil] at t
    simp only [callOfTemplate, Build.call, Node.mentions_inner, Node.mentionsAll_cons,
      Node.mentionsAll_nil, Node.mentions_run, List.append_nil]
    cases fit with
    | false => exact t.of_sublist (hs.append_left _)
    | true =>
      rw [mentionsAll_templateArguments true (by rw [hl rfl]; exact Nat.le_succ _)]
      exact t
  · obtain ⟨callee, args, rfl, -⟩ := Kind.allows_call.1 (Node.wellShaped_inner.1 hn).1
    exact t

/-- **What the pass does to the identifiers of a tree.** -/
theorem trace_node {n : Node} (h : n.wellShaped fit = true) (labels : LabelStack) (s : Nat) :
    Trace r.targets.Renames r.targets.Adds fit n.mentions (r.node labels n s).1.mentions := by
  induction n using Node.induct_through generalizing labels s with
  | leaf a =>
    rw [node_leaf, Node.mentions_leaf]
    exact r.trace_leaf a
  | run ns ih =>
    rw [Node.wellShaped_run] at h
    rw [node_run, Node.mentions_run, Node.mentions_run]
    exact r.trace_nodes labels (fun n hn s => ih n hn (h n hn) labels s) s
  | inner k hd parts ih ihr =>
    rw [Node.wellShaped_inner] at h
    have hparts := fun labels => r.trace_nodes labels fun n hn s => ih n hn (h.2 n hn) labels s
    rw [Node.mentions_inner]
    refine r.node_cases (P := fun p => Trace _ _ fit _ p.1.mentions) labels k hd parts s
      ?_ ?_ ?_ ?_ ?_
    · rintro rfl
      rw [Node.mentions_inner]
      exact r.trace_exportParts h.1
    · rintro x w t y rfl rfl - - hy
      rw [mentions_tagCall]
      exact .step (.replaced hy) .nil
    -- The items of the argument list are parts of a part, so the hypothesis for runs is needed.
    · rintro callee a rest t rfl rfl - -
      have hc := wellShaped_call.1 (Node.wellShaped_inner (h := hd).2 h)
      rw [List.forall_mem_cons] at hc
      have hitems := ihr (a :: rest) (by simp)
      exact r.trace_component labels hd hc.2.2
        (ih callee (List.mem_cons_self ..) hc.1 labels)
        (hitems a (List.mem_cons_self ..) hc.2.1.2 labels)
        (fun b hb => hitems b (List.mem_cons_of_mem _ hb) (hc.2.2 b hb).2 labels) _ _ _ _
        (Styled.areTexts_generated _ _ _ _)
    · intro label hk _
      have hne : k ≠ .exportSpecifier := by rcases hk with rfl | rfl <;> decide
      exact r.trace_styles labels hk label hd
        (r.wellShaped_inner_nodes hne (Node.wellShaped_inner.2 h) _ s) (hparts _ s)
    · intro _ _
      dsimp only
      rw [Node.mentions_inner]
      exact hparts _ s

/-- What the pass does to the identifiers of a module outside of its imports. -/
theorem trace_module {m : Module} (h : m.wellShaped fit = true) (s : Nat) :
    Trace r.targets.Renames r.targets.Adds fit m.outside (r.module m s).1.outside := by
  rw [Module.wellShaped, List.all_eq_true] at h
  rw [Module.outside, Module.outside, body_module]
  refine Trace.flatMap (r.forall₂_items (fun i hi s => ?_) s)
  cases i with
  | importing d => rw [item_importing]; exact .nil
  | node n => rw [item_node]; exact r.trace_node (h _ hi) _ s

/-- The import declarations of a module stay as they are, and where they are. -/
theorem keepsImports_module (m : Module) (s : Nat) : m.KeepsImports (r.module m s).1 := by
  rw [Module.KeepsImports, body_module]
  refine r.forall₂_items (fun i _ s => ?_) s
  cases i with
  | importing d => rw [item_importing]
  | node n => rw [item_node]; rfl

/-- Where no replacement is a target itself, no target with a replacement is left but as the
outer name of an export. -/
theorem replacement?_of_mem_outside {m : Module} (hm : m.wellShaped fit = true)
    (ht : ∀ x y, r.targets.replacement? x = some y → r.targets.get? y = none) {s : Nat}
    {b : Mention} (hb : b ∈ (r.module m s).1.outside) (hr : b.role ≠ .exported) :
    r.targets.replacement? b.ident = none := by
  have hy : ∀ x y, r.targets.replacement? x = some y → r.targets.replacement? y = none := by
    intro x y h
    rw [Targets.replacement?, ht x y h]
    rfl
  rcases (r.trace_module hm s).exists_of_mem_right hb with ⟨a, -, h⟩ | h
  · cases h with
    | kept h => exact h
    | exported => exact absurd rfl hr
    | replaced h => exact hy _ _ h
  · cases h with
    | exported h => exact absurd rfl hr
    | object =>
      cases ho : r.targets.replacement? (.global "Object") with
      | none => exact ho
      | some y => exact hy _ _ ho

/-- **Renaming is complete and captures nothing.**  The identifiers of a module
outside of its imports keep their order.  Each target with a replacement becomes
its replacement, in the same place; the outer name of an export may keep its name;
every other identifier stays as it is.  None gets lost and none is doubled, and
where no replacement is a target itself, no target with a replacement is left but as
the outer name of an export. -/
theorem module_renames {m : Module} (hm : m.wellShaped true = true)
    (ht : ∀ x y, r.targets.replacement? x = some y → r.targets.get? y = none) (s : Nat) :
    r.targets.IsRenaming m (r.module m s).1 := by
  exact ⟨(r.trace_module hm s).exists_image,
    fun b hb hr => r.replacement?_of_mem_outside hm ht hb hr,
    (r.keepsImports_module m s).imports⟩

/-- The module `css; ({ css }); (css) => css; export { css };`, where the parameter is
another `css`. -/
def shadowedCss : Module where
  head := Head.empty
  body :=
    let outer : Ident := ⟨⟨1, 4⟩, 2, "css", false⟩
    let inner : Ident := ⟨⟨5, 8⟩, 3, "css", false⟩
    [.node (.inner .expressionStatement Head.empty [.ident .reference outer]),
     .node (.inner .expressionStatement Head.empty
      [.object Head.empty [.ident .shorthand outer]]),
     .node (.inner .arrow Head.empty [.ident .binding inner, .ident .reference inner]),
     .node (.inner .exportNamed Head.empty
      [.run [.inner .exportSpecifier Head.empty [.ident .exportLocal outer, .absent]]])]

/-- The rewrite that puts `_css` in the place of the outer `css`. -/
def cssRewriter : Rewriter where
  info := FileInfo.ofOptions {} ⟨none, "", none⟩ false
  targets := [(⟨"css", 2⟩, ⟨some (.generated "_css"), .styles true⟩)]

/-- The outer `css` is renamed, and the parameter is not. -/
theorem renames_shadowedCss :
    cssRewriter.targets.IsRenaming shadowedCss (cssRewriter.module shadowedCss 0).1 := by
  refine cssRewriter.module_renames (m := shadowedCss) (by decide) (fun x y h => ?_) 0
  simp only [cssRewriter, Targets.replacement?_cons] at h
  split at h
  · cases h
    rfl
  · cases h

end Rewriter
end StyleLowering
