/-
# What the rewriting pass leaves alone

A tree that mentions no target is the same after the pass, and the counter for
class names has not moved (`Rewriter.node_of_avoids`).
-/

import StyleLowering.Proofs.Rewrite.Cases
import StyleLowering.Proofs.Syntax.Imports

namespace StyleLowering
namespace Rewrite
namespace Targets

/-- Whether identifiers are none of the targets. -/
def Avoids (ts : Targets) (as : List Mention) : Prop := ∀ a ∈ as, ts.get? a.ident = none

variable {ts : Targets} {as bs : List Mention} {n : Node}

/-- Identifiers in two lists are no targets if those in each of them are none. -/
theorem avoids_append : ts.Avoids (as ++ bs) ↔ ts.Avoids as ∧ ts.Avoids bs := by
  simp only [Avoids, List.mem_append, or_imp, forall_and]

/-- An empty table has no targets. -/
theorem avoids_nil (as : List Mention) : Avoids [] as := fun _ _ => rfl

/-- Several trees have no targets if each of them has none. -/
theorem avoids_mentionsAll {ns : List Node} :
    ts.Avoids (Node.mentionsAll ns) ↔ ∀ n ∈ ns, ts.Avoids n.mentions := by
  induction ns with
  | nil => simp [Avoids]
  | cons n ns ih => rw [Node.mentionsAll_cons, avoids_append, ih, List.forall_mem_cons]

/-- What is no target is not replaced. -/
theorem replacement?_of_avoids {role : Role} {x : Ident} (h : ts.Avoids [⟨role, x⟩]) :
    ts.replacement? x = none := by
  rw [replacement?, h _ (List.mem_singleton_self _)]
  rfl

/-- A tree without targets is none. -/
theorem ofNode?_of_avoids (h : ts.Avoids n.mentions) : ts.ofNode? n = none := by
  unfold ofNode?
  split
  · exact h _ (List.mem_singleton_self _)
  · rfl

/-- A tree without targets uses no styled target. -/
theorem styled?_of_avoids (h : ts.Avoids n.mentions) : ts.styled? n = none := by
  rw [styled?, ofNode?_of_avoids h]

/-- A tree without targets is no base of a styled component, with a name behind it or called. -/
theorem isStyledBase_of_avoids (h : ts.Avoids n.mentions) : ts.isStyledBase n = false := by
  unfold isStyledBase
  split
  · next object w =>
    rw [Node.mentions_inner, Node.mentionsAll_cons, avoids_append] at h
    rw [styled?_of_avoids h.1, Option.isSome_none]
  · next callee args =>
    rw [Node.mentions_inner, Node.mentionsAll_cons, avoids_append] at h
    rw [styled?_of_avoids h.1, Option.isSome_none]
  · rfl

/-- A callee without targets is used for nothing. -/
theorem ofCallee_of_avoids (h : ts.Avoids n.mentions) : Usage.ofCallee ts n = .unrelated := by
  rw [Usage.ofCallee, ofNode?_of_avoids h, isStyledBase_of_avoids h]
  rfl

/-- A node that mentions no target uses none. -/
theorem usage_of_avoids (k : Kind) {parts : List Node} (h : ts.Avoids (Node.mentionsAll parts)) :
    Usage.of ts k parts = .unrelated := by
  rw [avoids_mentionsAll] at h
  unfold Usage.of
  split
  · exact ofCallee_of_avoids (h _ (List.mem_cons_self ..))
  · rw [styled?_of_avoids (h _ (List.mem_cons_self ..))]
    exact ofCallee_of_avoids (h _ (List.mem_cons_self ..))
  · unfold Usage.ofMember
    split
    · rw [styled?_of_avoids (h _ (List.mem_cons_self ..))]
    · rfl
  · rfl

end Targets
end Rewrite

namespace Rewriter

open Rewrite Stateful

variable (r : Rewriter)

/-- A leaf without a target is left alone. -/
theorem leaf_of_avoids {a : Leaf} (h : r.targets.Avoids a.mentions) : r.leaf a = .leaf a := by
  unfold leaf
  split
  · rw [Targets.replacement?_of_avoids h]
  · rw [Targets.replacement?_of_avoids h, Option.getD_none]
  · rfl

/-- A specifier without a target is left alone. -/
theorem exportParts_of_avoids {parts : List Node}
    (h : r.targets.Avoids (Node.mentionsAll parts)) : r.exportParts parts = parts := by
  unfold exportParts
  split
  · next role x exported =>
    rw [Node.mentionsAll_cons, Targets.avoids_append] at h
    rw [Targets.replacement?_of_avoids h.1]
  · rfl

/-- **A tree that mentions no target stays,** and so does the counter. -/
theorem node_of_avoids {n : Node} (h : r.targets.Avoids n.mentions) (labels : LabelStack)
    (s : Nat) : r.node labels n s = (n, s) := by
  have hnodes : ∀ {ns : List Node} (labels : LabelStack) (s : Nat),
      (∀ n ∈ ns, r.node labels n s = (n, s)) → r.nodes labels ns s = (ns, s) := by
    intro ns labels s hns
    induction ns with
    | nil => rw [nodes_nil]
    | cons n ns ih =>
      rw [List.forall_mem_cons] at hns
      rw [nodes_cons, hns.1, ih hns.2]
  induction n generalizing labels s with
  | leaf a => rw [node_leaf, r.leaf_of_avoids h]
  | run ns ih =>
    rw [Node.mentions_run, Targets.avoids_mentionsAll] at h
    rw [node_run, hnodes labels s fun n hn => ih n hn (h n hn) labels s]
  | inner k hd parts ih =>
    rw [Node.mentions_inner] at h
    have heach := Targets.avoids_mentionsAll.1 h
    have hparts : ∀ labels, r.nodes labels parts s = (parts, s) := fun labels =>
      hnodes labels s fun n hn => ih n hn (heach n hn) labels s
    have husage := Targets.usage_of_avoids k h
    -- Every case but the last one needs a target among the identifiers.
    refine r.node_cases (P := (· = (.inner k hd parts, s))) labels k hd parts s ?_ ?_ ?_ ?_ ?_
    · intro _
      rw [r.exportParts_of_avoids h]
    · rintro x w t y rfl rfl ht - -
      rw [Targets.styled?_of_avoids (heach _ (List.mem_cons_self ..))] at ht
      cases ht
    · rintro callee a rest t rfl rfl ht -
      rw [Targets.styled?_of_avoids (heach _ (List.mem_cons_self ..))] at ht
      cases ht
    · intro label _ hu
      rw [husage] at hu
      cases hu
    · intro _ _
      dsimp only
      rw [hparts]

/-- A module that mentions no target outside of its imports stays. -/
theorem module_of_avoids {m : Module} (h : r.targets.Avoids m.outside) (s : Nat) :
    r.module m s = (m, s) := by
  have hitems : ∀ is : List Item, r.targets.Avoids (is.flatMap Item.outside) →
      r.items is s = (is, s) := by
    intro is
    induction is with
    | nil =>
      intro _
      rw [items, pure_apply]
    | cons i is ih =>
      intro h
      rw [List.flatMap_cons, Targets.avoids_append] at h
      rw [items_cons]
      cases i with
      | importing d => rw [item_importing, ih h.2]
      | node n => rw [item_node, r.node_of_avoids h.1, ih h.2]
  simp only [module, bind_apply, pure_apply]
  rw [hitems m.body h]

end Rewriter
end StyleLowering
