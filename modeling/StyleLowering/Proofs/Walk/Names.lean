/-
# Names in a tree after the last pass

Compiled css props call an injected import, and normalised calls get generated options.  So if
the names of a tree are of some sort, and so are those that the passes come up with, the names of
what the tree may become are (`Node.LowersTo.spelled`).  All that the pass injects is a default
export (`Walk.preserves_within`).
-/

import StyleLowering.Proofs.Rewrite.Names
import StyleLowering.Proofs.Walk.Lowering

namespace StyleLowering

open Stateful

variable {P Q : String → Prop} {f : FileInfo} {css : Ident}

/-! ### Trees -/

section Tree

variable (hP : SpellsGenerated P) (hcss : P css.name)
include hP

/-- A call that gets options keeps to the spelling. -/
theorem GetsOptions.spelled {name : Option String} {s : Nat} {h : Head} {ps : List Node} {m : Node}
    (hm : GetsOptions f name s h ps m) (hps : ∀ p ∈ ps, p.Spelled P) : m.Spelled P := by
  cases hm with
  | @intro callee first o rest _ ho =>
    rw [List.forall_mem_cons, List.forall_mem_singleton, Node.spelled_run] at hps
    have hoptions : o.Spelled P :=
      Styled.spelled_options hP (Styled.spelled_secondArgument hps.2) o ho
    rw [Node.spelled_call, List.forall_mem_cons, List.forall_mem_singleton, Node.spelled_argument]
    exact ⟨hps.1, hps.2 first List.mem_cons_self, hoptions⟩

include hcss

/-- One node, once its parts are spelled well. -/
theorem Lowered.spelled {name : Option String} {h : Head} {k : Kind} {ps qs : List Node} {m : Node}
    (hm : Lowered f css name h k ps qs m) (hqs : ∀ q ∈ qs, q.Spelled P) : m.Spelled P := by
  cases hm with
  | @cssProp _ attr v hc _ _ _ =>
    rw [List.forall_mem_cons, List.forall_mem_singleton, Node.spelled_inner,
      List.forall_mem_singleton] at hqs
    have hcall : ∀ (h : Head) (extra : List Node), (∀ a ∈ extra, a.Spelled P) →
        (Node.call h (Build.reference css) (Build.argument v :: extra)).Spelled P := by
      intro h extra hextra
      rw [Node.spelled_call, List.forall_mem_cons, Node.spelled_argument]
      exact ⟨Node.spelled_ident.2 hcss, hqs.2, hextra⟩
    rw [Node.spelled_inner, List.forall_mem_cons, List.forall_mem_singleton, Node.spelled_inner,
      List.forall_mem_singleton]
    refine ⟨hqs.1, hcall _ _ fun a ha => ?_⟩
    obtain ⟨text, rfl⟩ := CssProp.exists_of_mem_extra ha
    exact Node.spelled_textArgument text
  | withComponent _ hgets => exact hgets.spelled hP hqs
  | plain => exact Node.spelled_inner.2 hqs

/-- **One tree.** -/
theorem Node.LowersTo.spelled {n m : Node} {name : Option String} (h : n.LowersTo f css name m)
    (hn : n.Spelled P) : m.Spelled P := by
  induction n generalizing name m with
  | leaf a =>
    rw [lowersTo_leaf.1 h]
    exact hn
  | run ns ih =>
    rw [spelled_run] at hn
    obtain ⟨ms, rfl, hms⟩ := lowersTo_run.1 h
    rw [spelled_run]
    intro m hm
    obtain ⟨n, hmem, hnm⟩ := exists_of_mem_forall₂ hms hm
    exact ih n hmem hnm (hn n hmem)
  | inner k hd ps ih =>
    rw [spelled_inner] at hn
    obtain ⟨qs, hqs, hm⟩ := lowersTo_inner.1 h
    refine hm.spelled hP hcss fun q hq => ?_
    obtain ⟨p, hmem, hpq⟩ := exists_of_mem_forall₂ hqs hq
    exact ih p hmem hpq (hn p hmem)

/-- A lowered item keeps to the spelling. -/
theorem Item.LowersTo.spelled {i j : Item} (h : i.LowersTo f css j) (hi : i.Spelled P) :
    j.Spelled P := by
  cases h with
  | importing h =>
    rw [spelled_importing] at hi ⊢
    exact ⟨hi.1, h.spelled hP hcss hi.2⟩
  | node h => exact h.spelled hP hcss hi

/-- **A whole program.** -/
theorem Program.LowersTo.spelled {p q : Program} (h : p.LowersTo f css q) (hp : p.Spelled P) :
    q.Spelled P := by
  cases h with
  | module h =>
    rw [spelled_module] at hp ⊢
    intro j hj
    obtain ⟨i, hi, hij⟩ := exists_of_mem_forall₂ h hj
    exact hij.spelled hP hcss (hp i hi)
  | script h =>
    rw [spelled_script] at hp ⊢
    intro m hm
    obtain ⟨n, hn, hnm⟩ := exists_of_mem_forall₂ h hm
    exact hnm.spelled hP hcss (hp n hn)

end Tree

/-! ### The injected imports -/

namespace Walk

variable {j : Injector}

/-- The function that names classes keeps to the sorts of names. -/
theorem within_cssIdentifier (hP : SpellsGenerated P) {s : FileState} (hs : s.Within P Q j) :
    (FileState.cssIdentifier s).2.Within P Q j := by
  refine cssIdentifier_cases s (P := fun p => p.2.Within P Q j) (fun _ _ => hs) fun _ => ?_
  have hgives := hs.imports.add hP s.scope "@emotion/css" "css" (.inl rfl)
  refine ⟨hgives.within, List.Subset.trans hs.subset hgives.subset, ?_⟩
  rintro x ⟨⟩
  exact hgives.name

/-- The pass injects nothing but a default export. -/
theorem preserves_within (hP : SpellsGenerated P) : Preserves (FileState.Within P Q j) where
  enter k parts s hs := by
    rw [enter_apply]
    split
    · have hcss := within_cssIdentifier hP hs
      exact ⟨hcss.imports, hcss.subset, hcss.cssBinding⟩
    · exact hs
  normalize name n s hs := by
    rw [snd_normalize]
    exact ⟨hs.imports, hs.subset, hs.cssBinding⟩

end Walk
end StyleLowering
