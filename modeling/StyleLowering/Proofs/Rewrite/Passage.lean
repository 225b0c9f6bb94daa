/-
# Readings pass through the rewriting pass

What can be read off a tree passes through the rewriting pass
(`Rewriter.letsPass_node`), as long as it does so at each node whose parts are
rewritten.  The counter for class names goes on with every generated option, and
the options are in the tree when it has.
-/

import StyleLowering.Proofs.Passage
import StyleLowering.Proofs.Rewrite.Outline

namespace StyleLowering

namespace Rewriter

open Rewrite Stateful Css

variable (r : Rewriter) (labels : LabelStack)

/-- Options have to be merged after the pass if and only if they had to be before. -/
theorem needsAssign_nodes {a first : Node} {rest g : List Node}
    (hr : ∀ n ∈ rest, n.isArgument = true) (s : Nat) :
    Styled.needsAssign (Styled.secondArgument (first :: (r.nodes labels rest s).1)) g =
      Styled.needsAssign (Styled.secondArgument (a :: rest)) g := by
  refine Bool.eq_iff_iff.2 ⟨r.needsAssign_of_nodes labels hr s, fun h => ?_⟩
  cases rest with
  | nil => exact absurd h (by simp [Styled.secondArgument])
  | cons b rest =>
    obtain ⟨e, s', he, hb⟩ := r.exists_argumentOf_node labels (hr b (List.mem_cons_self ..)) s
    rw [Styled.secondArgument, he, Styled.needsAssign_some] at h
    rw [nodes_cons, Styled.secondArgument, hb, Styled.needsAssign_some]
    refine ⟨h.1, ?_⟩
    rintro ⟨ho, ps, hobject⟩
    obtain ⟨ns, hns⟩ := r.isRenaming.exists_object ⟨labels, s', hobject.symm⟩
    exact h.2 ⟨ho, ns, hns⟩

/-! ### What is read -/

section Reading

variable {α : Type} {c : Reading α} (R : c.Rule r.info)

open Reading.Rule Styled

/-- Whether what is read off a node takes steps only when its parts are rewritten. -/
def Keeps : Prop := ∀ labels k h parts s, Kind.isFrame k = false →
  Multiset.Rel R.step (c.own k h parts) (c.own k h (r.nodes labels parts s).1)

/-- What is read off a tree passes, whatever the labels and the counter. -/
def LetsPass (n : Node) : Prop := ∀ labels s,
  R.Passes (n.read c) s ((r.node labels n s).1.read c) (r.node labels n s).2

variable {R}

/-- What is read off several trees passes if it does off each of them. -/
theorem passes_nodes {ns : List Node} (h : ∀ n ∈ ns, r.LetsPass R n) (s : Nat) :
    R.Passes (Node.readAll c ns) s (Node.readAll c (r.nodes labels ns s).1)
      (r.nodes labels ns s).2 := by
  induction ns generalizing s with
  | nil =>
    rw [nodes_nil]
    exact .refl _ s
  | cons n ns ih =>
    rw [List.forall_mem_cons] at h
    rw [nodes_cons, Node.readAll_cons, Node.readAll_cons]
    exact (h.1 labels s).add (ih h.2 _)

variable (R)

/-- Nothing is read off what a leaf becomes. -/
theorem passes_leaf (a : Leaf) (s : Nat) : R.Passes 0 s ((r.leaf a).read c) s := by
  have hzero : (r.leaf a).read c = 0 := by
    rcases r.leaf_cases a with ⟨x, y, -, -, he⟩ | ⟨role, x, -, -, he⟩ | ⟨-, he⟩
    · rw [he, Node.read_inner, c.own_shorthand]
      simp [Build.reference]
    · rw [he, Node.read_leaf]
    · rw [he, Node.read_leaf]
  rw [hzero]
  exact .refl 0 s

/-- The options of a tag call are those that have been generated. -/
theorem passes_tagCall (span : Span) (y : Ident) (name : String) (t : StyledTarget) (s : Nat) :
    R.Passes 0 s ((r.tagCall labels span y name t s).1.read c)
      (r.tagCall labels span y name t s).2 := by
  rw [tagCall_apply]
  have hgenerated := Passes.of_new (R.new_generated labels.current t.isWeb s)
  have hmerge := R.passes_merge Styled.objectAssign none labels.current t.isWeb s
    (generated r.info labels.current t.isWeb s).2 rfl
  generalize generated r.info labels.current t.isWeb s = g at *
  have hread : (Build.call span (Build.reference y) (Build.textArgument name ::
      ((merge Styled.objectAssign none g.1).map Build.argument).toList)).read c =
      Node.readAll c (merge Styled.objectAssign none g.1).toList := by
    rw [Build.call, Node.read_call, Build.reference, Node.read_leaf, Node.readAll_cons,
      Node.read_textArgument, zero_add, zero_add]
    cases merge Styled.objectAssign none g.1 <;> simp [Build.argument]
  rw [hread]
  refine hgenerated.trans ?_
  simpa [assignRead] using hmerge

/-- The merging function is visited if and only if something has to be merged. -/
theorem passes_mergeFunction (args g : List Node) (s : Nat) :
    R.Passes 0 s (assignRead c (r.mergeFunction labels args g s).1 (secondArgument args) g)
      (r.mergeFunction labels args g s).2 := by
  unfold mergeFunction assignRead
  split
  · rcases r.objectAssign_cases labels s with ⟨y, name, t, -, he⟩ | he
    · rw [he]
      exact r.passes_tagCall labels R _ _ _ _ s
    · rw [he, Build.member, Node.read_member, Build.word, Node.read_leaf, add_zero]
      exact r.passes_leaf R _ s
  · exact .refl 0 s

variable {R}

/-- **A call of a styled target.**  Its options are generated first, then its parts and the
merging function are visited, and the options are merged at last. -/
theorem passes_component (h : Head) {callee a : Node} {rest : List Node} (name : Option String)
    (isWeb : Bool) (hr : ∀ n ∈ rest, n.isArgument = true) (hcallee : r.LetsPass R callee)
    (ha : r.LetsPass R a) (hrest : ∀ n ∈ rest, r.LetsPass R n) (s : Nat) :
    let g := generated r.info name isWeb s
    let c' := r.node labels callee g.2
    let first := r.node labels a c'.2
    let assign := r.mergeFunction labels (a :: rest) g.1 first.2
    let others := r.nodes labels rest assign.2
    R.Passes ((Node.call h callee (a :: rest)).read c) s
      ((Node.call h c'.1 (addOptions assign.1 g.1 (first.1 :: others.1))).read c) others.2 := by
  intro g c' first assign others
  -- In the order of the counter: the options are generated before the parts are visited, and the
  -- function that merges them comes between the first argument and the others.
  have hparts : R.Passes (0 + callee.read c + a.read c + 0 + Node.readAll c rest) s
      (Node.readAll c g.1 + c'.1.read c + first.1.read c +
        assignRead c assign.1 (secondArgument (a :: rest)) g.1 + Node.readAll c others.1)
      others.2 :=
    ((((Passes.of_new (R.new_generated name isWeb s)).add (hcallee labels g.2)).add
      (ha labels c'.2)).add (r.passes_mergeFunction labels R (a :: rest) g.1 first.2)).add
      (r.passes_nodes labels hrest assign.2)
  have hargs : ∀ n ∈ others.1, n.isArgument = true := r.isArgument_nodes labels hr assign.2
  have hneeds : needsAssign (secondArgument (a :: rest)) g.1 =
      needsAssign (secondArgument (first.1 :: others.1)) g.1 :=
    (r.needsAssign_nodes labels hr assign.2).symm
  have hmerged : R.Passes (Node.readAll c (first.1 :: others.1) + Node.readAll c g.1 +
      assignRead c assign.1 (secondArgument (first.1 :: others.1)) g.1) others.2
      (Node.readAll c (addOptions assign.1 g.1 (first.1 :: others.1))) others.2 := by
    by_cases hnil : g.1 = []
    · rw [addOptions, hnil]
      simpa [assignRead] using Passes.refl (R := R) (Node.readAll c (first.1 :: others.1)) others.2
    · rw [addOptions, if_neg (by simpa using hnil)]
      exact R.passes_setSecond assign.1 first.1 hargs name isWeb s others.2 rfl
  have hresult := (Passes.refl (R := R) (c'.1.read c) others.2).add hmerged
  rw [Node.read_call, Node.read_call]
  refine Passes.trans ?_ hresult
  unfold assignRead at hparts ⊢
  rw [← hneeds]
  convert hparts using 1
  · rw [zero_add, add_zero, Node.readAll_cons, add_assoc]
  · rw [Node.readAll_cons]
    ac_rfl

/-- Nothing is read off an export specifier. -/
theorem read_exportSpecifier {parts : List Node}
    (h : Kind.allows true .exportSpecifier parts = true) (hd : Head) :
    (Node.inner .exportSpecifier hd parts).read c = 0 := by
  obtain ⟨a, b, rfl, -⟩ := Kind.allows_exportSpecifier.1 h
  rw [Node.read_inner_of_isFrame c rfl]
  simp

/-- A node passes if only its parts are rewritten. -/
theorem passes_inner (hk : r.Keeps R) (k : Kind) (h : Head) {parts : List Node}
    (hparts : ∀ n ∈ parts, r.LetsPass R n) (s : Nat) :
    R.Passes ((Node.inner k h parts).read c) s
      ((Node.inner k h (r.nodes labels parts s).1).read c) (r.nodes labels parts s).2 := by
  have hnodes := r.passes_nodes labels hparts s
  rw [Node.read_inner, Node.read_inner]
  cases hf : k.isFrame with
  | true =>
    rw [c.own_frame hf, c.own_frame hf, zero_add, zero_add]
    exact hnodes
  | false => exact (Passes.of_rel (hk labels k h parts s hf) s).add hnodes

/-- **Readings pass through the pass.** -/
theorem letsPass_node (hk : r.Keeps R) {n : Node} (hn : n.wellShaped true = true) :
    r.LetsPass R n := by
  induction n using Node.induct_through with
  | leaf a =>
    intro labels s
    rw [node_leaf, Node.read_leaf]
    exact r.passes_leaf R a s
  | run ns ih =>
    intro labels s
    rw [Node.wellShaped_run] at hn
    rw [node_run, Node.read_run, Node.read_run]
    exact r.passes_nodes labels (fun n h => ih n h (hn n h)) s
  | inner k h parts ih ihr =>
    intro labels s
    have hshaped := Node.wellShaped_inner.1 hn
    have hparts : ∀ n ∈ parts, r.LetsPass R n := fun n hm => ih n hm (hshaped.2 n hm)
    -- A specifier has nothing to read, a tag and a component get generated options, and a style
    -- loses none of its parts.
    refine r.node_cases (P := fun p => R.Passes _ s (p.1.read c) p.2) labels k h parts s
      ?_ ?_ ?_ ?_ ?_
    · rintro rfl
      have hspecifier : (Node.inner .exportSpecifier h (r.exportParts parts)).wellShaped true =
          true := r.wellShaped_exportParts hshaped.1
      rw [read_exportSpecifier hshaped.1,
        read_exportSpecifier (Node.wellShaped_inner.1 hspecifier).1]
      exact .refl 0 s
    · rintro x w t y rfl rfl - - -
      rw [Node.read_member, Node.read_leaf, Node.read_leaf, add_zero]
      exact r.passes_tagCall labels R _ _ _ _ s
    · rintro callee a rest t rfl rfl - -
      have hc := wellShaped_call.1 hn
      rw [List.forall_mem_cons] at hc
      have hitems := ihr (a :: rest) (by simp)
      exact r.passes_component labels h labels.current t.isWeb (fun n hm => (hc.2.2 n hm).1)
        (ih callee (List.mem_cons_self ..) hc.1)
        (hitems a (List.mem_cons_self ..) hc.2.1.2)
        (fun n hm => hitems n (List.mem_cons_of_mem _ hm) (hc.2.2 n hm).2) s
    · intro label hkind _
      have hne : k ≠ .exportSpecifier := by rcases hkind with rfl | rfl <;> decide
      have hwell := r.wellShaped_inner_nodes hne hn (labels.enter k parts) s
      dsimp only
      rw [styles, Node.read_annotate_callOfTemplate c _ _ hkind hwell]
      exact r.passes_inner _ hk k h hparts s
    · intro _ _
      exact r.passes_inner _ hk k h hparts s

/-- Readings of a module pass outside of its imports. -/
theorem passes_module (hk : r.Keeps R) {m : Module} (hm : m.wellShaped true = true) (s : Nat) :
    R.Passes ((Program.module m).readOutside c) s
      ((Program.module (r.module m s).1).readOutside c) (r.module m s).2 := by
  have hitems : ∀ (is : List Item), (∀ i ∈ is, i.wellShaped true = true) → ∀ s,
      R.Passes (is.map (Item.readOutside c)).sum s
        (((r.items is s).1.map (Item.readOutside c)).sum) (r.items is s).2 := by
    intro is
    induction is with
    | nil =>
      intro _ s
      exact .refl _ s
    | cons i is ih =>
      intro h s
      rw [List.forall_mem_cons] at h
      rw [items_cons, List.map_cons, List.map_cons, List.sum_cons, List.sum_cons]
      refine Passes.add ?_ (ih h.2 _)
      cases i with
      | importing d =>
        rw [item_importing]
        exact .refl _ s
      | node n =>
        rw [item_node]
        exact r.letsPass_node hk h.1 _ s
  exact hitems m.body (List.all_eq_true.1 hm) s

end Reading
end Rewriter
end StyleLowering
