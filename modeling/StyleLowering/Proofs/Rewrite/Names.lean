/-
# Names in a rewritten tree

A rewrite brings in few names of its own: the keys of generated options, and those of the
function that merges options.  All other names are those that the tree has, or those of the
replacements.  So if all of them are of some sort, the names of the rewritten tree are
(`Rewriter.spelled_node`).
-/

import StyleLowering.Proofs.Imports.Names
import StyleLowering.Proofs.Rewrite.Shape

namespace StyleLowering

variable {P : String → Prop}

namespace Css

/-- A label and a source-map comment are no names. -/
theorem spelled_annotate (f : FileInfo) (name : Option String) {n : Node} (hn : n.Spelled P) :
    (annotate f name n).Spelled P := by
  by_cases hcall : ∃ h callee args, n = .call h callee args
  · obtain ⟨h, callee, args, rfl⟩ := hcall
    obtain ⟨args', he, -, hargs⟩ := annotate_call f name h callee args
    rw [Node.spelled_call] at hn
    rw [he, Node.spelled_call]
    refine ⟨hn.1, fun a ha => ?_⟩
    rcases hargs a ha with ha | ⟨text, rfl⟩
    · exact hn.2 a ha
    · exact Node.spelled_textArgument text
  · unfold annotate
    split
    · next h callee args => exact absurd ⟨h, callee, args, rfl⟩ hcall
    · exact hn

/-- The call that a template becomes spells the same names. -/
theorem spelled_callOfTemplate {n : Node} (hn : n.Spelled P) : (callOfTemplate n).Spelled P := by
  unfold callOfTemplate
  split
  · next h tag ht es qs =>
    simp only [Node.spelled_inner, Node.spelled_run, List.forall_mem_cons] at hn
    refine Node.spelled_call.2 ⟨hn.1, fun a ha => ?_⟩
    rcases mem_templateArguments ha with ⟨e, he, rfl⟩ | ⟨text, rfl⟩
    · exact Node.spelled_argument.2 (hn.2.1.1 e he)
    · exact Node.spelled_textArgument text
  · exact hn

end Css

namespace Styled

/-- The generated options spell `target` and `label`, and no more. -/
theorem spelled_generated (hP : SpellsGenerated P) {f : FileInfo} {name : Option String}
    {isWeb : Bool} {s : Nat} : ∀ n ∈ (generated f name isWeb s).1, n.Spelled P := by
  intro n hn
  obtain ⟨key, value, rfl, rfl | rfl⟩ := mem_generated hn
  · exact Node.spelled_property.2 hP.target
  · exact Node.spelled_property.2 hP.label

/-- The callee of a merge spells `Object` and `assign`. -/
theorem spelled_objectAssign (hP : SpellsGenerated P) : objectAssign.Spelled P :=
  Node.spelled_member.2 ⟨Node.spelled_ident.2 hP.object, hP.assign⟩

/-- The expression of an argument is spelled as the argument is. -/
theorem spelled_argumentOf {a e : Node} (h : argumentOf a = some e) (ha : a.Spelled P) :
    e.Spelled P := by
  unfold argumentOf at h
  split at h <;> cases h
  all_goals exact Node.spelled_inner.1 ha e (List.mem_singleton_self e)

/-- The second argument is spelled as the arguments are. -/
theorem spelled_secondArgument {args : List Node} (h : ∀ a ∈ args, a.Spelled P) :
    ∀ e ∈ secondArgument args, e.Spelled P := by
  intro e he
  unfold secondArgument at he
  split at he
  · next a _ =>
    exact spelled_argumentOf he (h a (List.mem_cons_of_mem _ List.mem_cons_self))
  · cases he

/-- Merged options are spelled as what is merged. -/
theorem spelled_merge {assign : Node} {existing : Option Node} {g : List Node}
    (ha : assign.Spelled P) (he : ∀ e ∈ existing, e.Spelled P) (hg : ∀ n ∈ g, n.Spelled P) :
    ∀ e ∈ merge assign existing g, e.Spelled P := by
  intro e hmerge
  unfold merge at hmerge
  split at hmerge <;> cases hmerge
  · exact Node.spelled_object.2 hg
  · exact he _ rfl
  · next h ps _ _ =>
    rw [Node.spelled_object]
    intro n hn
    rcases List.mem_append.1 hn with hn | hn
    · exact Node.spelled_object.1 (he _ rfl) n hn
    · exact hg n hn
  · have hempty : (Build.object []).Spelled P := Node.spelled_object.2 nofun
    refine Node.spelled_call.2 ⟨ha, ?_⟩
    simp only [List.forall_mem_cons, Node.spelled_argument]
    exact ⟨hempty, Node.spelled_object.2 hg, he _ rfl, nofun⟩

/-- The options of a styled component are spelled as those it had and the generated ones. -/
theorem spelled_options (hP : SpellsGenerated P) {f : FileInfo} {existing : Option Node}
    {name : Option String} {isWeb : Bool} {s : Nat} (he : ∀ e ∈ existing, e.Spelled P) :
    ∀ e ∈ (options f existing name isWeb s).1, e.Spelled P :=
  spelled_merge (spelled_objectAssign hP) he (spelled_generated hP)

/-- Arguments stay as they are spelled when options are put second. -/
theorem spelled_setSecond {args : List Node} {options : Option Node}
    (h : ∀ a ∈ args, a.Spelled P) (ho : ∀ e ∈ options, e.Spelled P) :
    ∀ a ∈ setSecond args options, a.Spelled P := by
  unfold setSecond
  split
  · exact h
  · next e =>
    have he := Node.spelled_argument.2 (ho e rfl)
    split
    · simp_all
    · simp_all
    · exact nofun

/-- Arguments stay as they are spelled when options are added. -/
theorem spelled_addOptions {assign : Node} {g args : List Node} (ha : assign.Spelled P)
    (hg : ∀ n ∈ g, n.Spelled P) (h : ∀ a ∈ args, a.Spelled P) :
    ∀ a ∈ addOptions assign g args, a.Spelled P := by
  unfold addOptions
  split
  · exact h
  · exact spelled_setSecond h (spelled_merge ha (spelled_secondArgument h) hg)

end Styled

namespace Rewriter

open Rewrite Stateful

/-- A rewrite whose replacements are spelled as all names are to be. -/
structure Spells (P : String → Prop) (r : Rewriter) : Prop where
  generated : SpellsGenerated P
  replacement : ∀ x y, r.targets.replacement? x = some y → P y.name

variable {r : Rewriter} (hr : r.Spells P)
include hr

/-- An identifier is spelled as it was or as a target is. -/
theorem spelled_replacement (x : Ident) (hx : P x.name) :
    P ((r.targets.replacement? x).getD x).name := by
  cases h : r.targets.replacement? x with
  | none => exact hx
  | some y => exact hr.replacement x y h

/-- What a leaf becomes is spelled as the pass demands. -/
theorem spelled_leafNode {a : Leaf} (ha : (Node.leaf a).Spelled P) : (r.leaf a).Spelled P := by
  unfold leaf
  split
  · next x =>
    rw [Node.spelled_ident] at ha
    split
    · next y hy => simpa [Build.reference] using ⟨ha, hr.replacement x y hy⟩
    · exact Node.spelled_ident.2 ha
  · next x _ => exact Node.spelled_ident.2 (spelled_replacement hr x (Node.spelled_ident.1 ha))
  · exact ha

/-- The parts of a specifier keep to the spelling. -/
theorem spelled_exportParts {parts : List Node} (h : ∀ n ∈ parts, n.Spelled P) :
    ∀ n ∈ r.exportParts parts, n.Spelled P := by
  unfold exportParts
  split
  · next x outer =>
    rw [List.forall_mem_cons, List.forall_mem_singleton, Node.spelled_ident] at h
    split
    · rw [List.forall_mem_cons, List.forall_mem_singleton, Node.spelled_ident]
      exact h
    · next y hy =>
      rw [List.forall_mem_cons, List.forall_mem_singleton, Node.spelled_ident]
      refine ⟨hr.replacement x y hy, ?_⟩
      split
      · exact Node.spelled_ident.2 h.1
      · exact h.2
  · exact h

/-- The call that the name behind a dot becomes keeps to the spelling. -/
theorem spelled_tagCall (labels : LabelStack) (span : Span) {y : Ident} (hy : P y.name)
    (name : String) (t : StyledTarget) (s : Nat) :
    (r.tagCall labels span y name t s).1.Spelled P := by
  have hnone : ∀ e ∈ (none : Option Node), e.Spelled P := fun _ he => nomatch he
  refine Node.spelled_call.2 ⟨Node.spelled_ident.2 hy, ?_⟩
  rw [List.forall_mem_cons]
  refine ⟨Node.spelled_textArgument name, fun a ha => ?_⟩
  obtain ⟨e, he, rfl⟩ := Option.map_eq_some_iff.1 (Option.mem_toList.1 ha)
  exact Node.spelled_argument.2 (Styled.spelled_options hr.generated hnone e he)

/-- The call that merges options keeps to the spelling. -/
theorem spelled_mergeFunction (labels : LabelStack) (args options : List Node) (s : Nat) :
    (r.mergeFunction labels args options s).1.Spelled P := by
  unfold mergeFunction
  split
  · rcases r.objectAssign_cases labels s with ⟨y, name, t, hy, he⟩ | he
    · rw [he]
      exact spelled_tagCall hr labels _ (hr.replacement _ y hy) name t s
    · rw [he, Node.spelled_member]
      exact ⟨spelled_leafNode hr (Node.spelled_ident.2 hr.generated.object), hr.generated.assign⟩
  · exact Styled.spelled_objectAssign hr.generated

/-- **One node.**  The names of a rewritten tree are of some sort if those of the tree are, and
those that the rewrite brings in. -/
theorem spelled_node (n : Node) (hn : n.Spelled P) (labels : LabelStack) (s : Nat) :
    (r.node labels n s).1.Spelled P := by
  have hnodes : ∀ {ns : List Node} (labels : LabelStack) (s : Nat),
      (∀ n ∈ ns, ∀ labels s, (r.node labels n s).1.Spelled P) →
        ∀ m ∈ (r.nodes labels ns s).1, m.Spelled P := by
    intro ns labels s h m hm
    obtain ⟨n, hn, s', rfl⟩ := r.mem_nodes labels hm
    exact h n hn labels s'
  induction n using Node.induct_through generalizing labels s with
  | leaf a =>
    rw [node_leaf]
    exact spelled_leafNode hr hn
  | run ns ih =>
    rw [node_run, Node.spelled_run]
    rw [Node.spelled_run] at hn
    exact hnodes labels s fun n hmem => ih n hmem (hn n hmem)
  | inner k h parts ih ihrun =>
    rw [Node.spelled_inner] at hn
    refine r.node_cases labels k h parts s (P := fun p => p.1.Spelled P) ?_ ?_ ?_ ?_ ?_
    · exact fun _ => Node.spelled_inner.2 (spelled_exportParts hr hn)
    · exact fun x w t y _ _ _ _ hy => spelled_tagCall hr labels _ (hr.replacement x y hy) _ t s
    · rintro callee a rest t rfl rfl - -
      have hargs : ∀ b ∈ a :: rest, b.Spelled P := Node.spelled_run.1 (hn _ (by simp))
      have hrun := ihrun (a :: rest) (by simp)
      refine Node.spelled_call.2 ⟨ih callee (by simp) (hn callee (by simp)) _ _, ?_⟩
      refine Styled.spelled_addOptions (spelled_mergeFunction hr _ _ _ _)
        (Styled.spelled_generated hr.generated) ?_
      rw [List.forall_mem_cons]
      refine ⟨hrun a (by simp) (hargs a (by simp)) _ _, hnodes _ _ fun b hb => ?_⟩
      exact hrun b (List.mem_cons_of_mem a hb) (hargs b (List.mem_cons_of_mem a hb))
    · intro label _ _
      refine Css.spelled_annotate _ _ (Css.spelled_callOfTemplate (Node.spelled_inner.2 ?_))
      exact hnodes _ _ fun n hmem => ih n hmem (hn n hmem)
    · intro _ _
      exact Node.spelled_inner.2 (hnodes _ _ fun n hmem => ih n hmem (hn n hmem))

/-- The names of a rewritten module. -/
theorem spelled_module {m : Module} (hm : (Program.module m).Spelled P) (s : Nat) :
    (Program.module (r.module m s).1).Spelled P := by
  rw [Program.spelled_module] at hm ⊢
  have hall : List.Forall₂ (fun i j : Item => i.Spelled P → j.Spelled P) m.body
      (r.module m s).1.body := by
    rw [body_module]
    refine r.forall₂_items (fun i _ s => ?_) s
    cases i with
    | importing d => exact id
    | node n =>
      rw [item_node]
      exact fun hn => spelled_node hr n hn _ _
  intro j hj
  obtain ⟨i, hi, himp⟩ := exists_of_mem_forall₂ hall hj
  exact himp (hm i hi)

end Rewriter
end StyleLowering
