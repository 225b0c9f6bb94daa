/-
# Options keep the identifiers of a call

The generated options of a styled component are texts.  Where they are merged
into a call, the call keeps its arguments in their order, and the only
identifiers that come in are those of the function that merges them, between
the first argument and the options of the user.
-/

import StyleLowering.Proofs.Css.Call
import StyleLowering.Stateful
import StyleLowering.Styled

namespace StyleLowering
namespace Styled

open Css

variable {fit : Bool} {g : List Node}

/-- Generated options are targets and labels, with texts as their values. -/
theorem mem_generated {f : FileInfo} {name : Option String} {isWeb : Bool} {s : Nat} {n : Node}
    (h : n ∈ (generated f name isWeb s).1) :
    ∃ key value, n = Build.property key value ∧ (key = "target" ∨ key = "label") := by
  have hl : ∀ n ∈ (if f.autoLabel then (label? name).toList.map (Build.property "label") else []),
      ∃ key value, n = Build.property key value ∧ (key = "target" ∨ key = "label") := by
    intro n hn
    split at hn
    · obtain ⟨label, -, rfl⟩ := List.mem_map.1 hn
      exact ⟨_, _, rfl, .inr rfl⟩
    · exact absurd hn List.not_mem_nil
  cases isWeb with
  | true =>
    rcases List.mem_cons.1 h with rfl | h
    · exact ⟨_, _, rfl, .inl rfl⟩
    · exact hl n h
  | false => exact hl n h

/-- Properties with texts as their values. -/
def AreTexts (g : List Node) : Prop := ∀ n ∈ g, ∃ key value, n = Build.property key value

/-- Generated properties are texts. -/
theorem areTexts_generated (f : FileInfo) (name : Option String) (isWeb : Bool) (s : Nat) :
    AreTexts (generated f name isWeb s).1 := by
  intro n h
  obtain ⟨key, value, hn, -⟩ := mem_generated h
  exact ⟨key, value, hn⟩

/-- Generated texts mention no identifiers. -/
theorem AreTexts.mentionsAll_eq_nil (h : AreTexts g) : Node.mentionsAll g = [] := by
  rw [Node.mentionsAll_eq_flatMap, List.flatMap_eq_nil_iff]
  intro n hn
  obtain ⟨key, value, rfl⟩ := h n hn
  simp [Build.property, Build.word, Build.text, Leaf.mentions]

/-- Generated texts are well-shaped. -/
theorem AreTexts.wellShaped (h : AreTexts g) : ∀ n ∈ g, n.wellShaped fit = true := by
  intro n hn
  obtain ⟨key, value, rfl⟩ := h n hn
  rw [Build.property, Node.wellShaped_inner]
  exact ⟨rfl, by simp [Build.word, Build.text]⟩

/-- An object literal is well-shaped if its properties are. -/
theorem wellShaped_object {h : Head} {ps : List Node} :
    (Node.object h ps).wellShaped fit = true ↔ ∀ p ∈ ps, p.wellShaped fit = true := by
  rw [Node.wellShaped_inner, List.forall_mem_singleton, Node.wellShaped_run]
  exact and_iff_right rfl

/-- The merging function mentions the global `Object`. -/
theorem mentions_objectAssign : objectAssign.mentions = [⟨.reference, .global "Object"⟩] := by
  simp [objectAssign, Build.member, Build.reference, Build.word, Leaf.mentions]

/-- Without options of the user there is nothing to merge. -/
@[simp] theorem needsAssign_none : needsAssign none g = false := rfl

/-- Without generated options there is nothing to merge. -/
@[simp] theorem needsAssign_nil (existing : Option Node) : needsAssign existing [] = false := by
  unfold needsAssign
  split <;> simp_all

/-- Options of the user are merged when the program runs unless they are an object
literal or there is nothing to add. -/
theorem needsAssign_some {e : Node} :
    needsAssign (some e) g = true ↔ g ≠ [] ∧ ¬∃ h ps, e = .object h ps := by
  unfold needsAssign
  split
  · next h ps he => simp_all
  · next he => cases he
  · simp
  · next hg he => cases he; simp_all

/-- Generated properties are written behind those of an object literal. -/
theorem merge_object {assign : Node} (hg : g ≠ []) (h : Head) (ps : List Node) :
    merge assign (some (.object h ps)) g = some (.object h (ps ++ g)) := by
  cases g with
  | nil => exact absurd rfl hg
  | cons p g => rfl

/-- Other options are merged when the program runs: the generated ones first, then those of the
user. -/
theorem merge_of_needsAssign {assign e : Node} (h : needsAssign (some e) g = true) :
    merge assign (some e) g = some (Build.call Span.dummy assign
      [Build.argument (Build.object []), Build.argument (Build.object g), Build.argument e]) := by
  rw [needsAssign_some] at h
  unfold merge
  split <;> simp_all

/-- Options of the user never get lost. -/
theorem exists_merge (assign e : Node) (g : List Node) : ∃ o, merge assign (some e) g = some o := by
  unfold merge
  split <;> simp_all

/-- What merged options mention. -/
theorem mentions_merge (assign : Node) (existing : Option Node) (hg : AreTexts g) :
    Node.mentionsAll (merge assign existing g).toList =
      (if needsAssign existing g then assign.mentions else []) ++
        Node.mentionsAll existing.toList := by
  have hm : Node.mentionsAll g = [] := hg.mentionsAll_eq_nil
  cases existing with
  | none => cases g <;> simp_all [merge, Build.object]
  | some e =>
    cases g with
    | nil => simp [merge]
    | cons p g =>
      by_cases he : ∃ h ps, e = .object h ps
      · obtain ⟨h, ps, rfl⟩ := he
        simp_all [merge, needsAssign]
      · have hn : needsAssign (some e) (p :: g) = true :=
          needsAssign_some.2 ⟨List.cons_ne_nil p g, he⟩
        rw [hn, merge_of_needsAssign hn]
        simp_all [Build.call, Build.object]

/-- Merged options are well-shaped. -/
theorem wellShaped_merge {assign e : Node} {existing : Option Node} (hg : AreTexts g)
    (ha : assign.wellShaped fit = true) (he : ∀ e ∈ existing, e.wellShaped fit = true)
    (h : merge assign existing g = some e) : e.wellShaped fit = true := by
  unfold merge at h
  split at h
  · cases h
  · cases h
    rw [Build.object, wellShaped_object]
    exact hg.wellShaped
  · cases h
    exact he _ rfl
  · next hd ps _ _ =>
    cases h
    have hp := wellShaped_object.1 (he _ rfl)
    rw [wellShaped_object]
    intro p h
    rcases List.mem_append.1 h with h | h
    · exact hp p h
    · exact hg.wellShaped p h
  · cases h
    rw [Build.call, wellShaped_call]
    refine ⟨ha, ?_⟩
    simp only [List.forall_mem_cons, List.not_mem_nil, false_imp_iff, implies_true, and_true]
    refine ⟨isGoodArgument_argument ?_, isGoodArgument_argument ?_, isGoodArgument_argument ?_⟩
    · rw [Build.object, wellShaped_object]
      exact fun _ h => absurd h List.not_mem_nil
    · rw [Build.object, wellShaped_object]
      exact hg.wellShaped
    · exact he _ rfl

/-- An argument has an expression, with the same identifiers and a good shape. -/
theorem argumentOf_of_isArgument {a : Node} (h : a.isArgument = true) :
    ∃ e, argumentOf a = some e ∧ a.mentions = e.mentions ∧
      ∀ fit, a.wellShaped fit = true → e.wellShaped fit = true := by
  obtain ⟨k, hd, e, rfl | rfl, rfl⟩ := Node.isArgument_iff.1 h
  · exact ⟨e, rfl, by simp, fun _ h => (Node.wellShaped_inner.1 h).2 e (List.mem_singleton_self e)⟩
  · exact ⟨e, rfl, by simp, fun _ h => (Node.wellShaped_inner.1 h).2 e (List.mem_singleton_self e)⟩

/-- **Identifiers of a call that gets options.**  They are those of its arguments,
and behind the first one those of the merging function, where it is needed. -/
theorem mentionsAll_setSecond {assign first : Node} {rest : List Node} (hg : AreTexts g)
    (hr : ∀ a ∈ rest, a.isArgument = true) :
    Node.mentionsAll
        (setSecond (first :: rest) (merge assign (secondArgument (first :: rest)) g)) =
      first.mentions ++
        ((if needsAssign (secondArgument (first :: rest)) g then assign.mentions else []) ++
          Node.mentionsAll rest) := by
  cases rest with
  | nil =>
    have hm := mentions_merge assign none hg
    have hs : secondArgument [first] = none := rfl
    rw [hs]
    cases he : merge assign none g with
    | none => simp_all [setSecond]
    | some e => simp_all [setSecond]
  | cons a rest =>
    obtain ⟨e, he, hme, -⟩ := argumentOf_of_isArgument (hr a (List.mem_cons_self ..))
    have hm := mentions_merge assign (some e) hg
    rw [secondArgument, he]
    cases ho : merge assign (some e) g with
    | none => simp_all [setSecond]
    | some o => simp_all [setSecond]

/-- A call that gets options has good arguments if it had before. -/
theorem isGoodArgument_setSecond {assign : Node} {args : List Node} (hg : AreTexts g)
    (ha : assign.wellShaped fit = true) (h : ∀ a ∈ args, IsGoodArgument fit a) :
    ∀ a ∈ setSecond args (merge assign (secondArgument args) g), IsGoodArgument fit a := by
  cases hm : merge assign (secondArgument args) g with
  | none => exact h
  | some o =>
    have ho : o.wellShaped fit = true := by
      refine wellShaped_merge hg ha (fun e he => ?_) hm
      match args, h, he with
      | _ :: a :: _, h, he =>
        have hga := h a (List.mem_cons_of_mem _ (List.mem_cons_self ..))
        obtain ⟨e', he', -, hw⟩ := argumentOf_of_isArgument hga.1
        rw [secondArgument, he', Option.mem_some] at he
        exact he ▸ hw fit hga.2
    match args, h with
    | [], h => exact h
    | [a], h =>
      rw [List.forall_mem_singleton] at h
      simpa [setSecond] using ⟨h, isGoodArgument_argument ho⟩
    | a :: b :: rest, h =>
      rw [List.forall_mem_cons, List.forall_mem_cons] at h
      rw [setSecond, List.forall_mem_cons, List.forall_mem_cons]
      exact ⟨h.1, isGoodArgument_argument ho, h.2.2⟩

/-- Options that are empty change nothing, as if there were none to add. -/
theorem mentionsAll_addOptions {assign first : Node} {rest : List Node} (hg : AreTexts g)
    (hr : ∀ a ∈ rest, a.isArgument = true) :
    Node.mentionsAll (addOptions assign g (first :: rest)) =
      first.mentions ++
        ((if needsAssign (secondArgument (first :: rest)) g then assign.mentions else []) ++
          Node.mentionsAll rest) := by
  cases g with
  | nil => simp [addOptions]
  | cons p g => exact mentionsAll_setSecond hg hr

/-- Arguments stay good ones when options are added. -/
theorem isGoodArgument_addOptions {assign : Node} {args : List Node} (hg : AreTexts g)
    (ha : assign.wellShaped fit = true) (h : ∀ a ∈ args, IsGoodArgument fit a) :
    ∀ a ∈ addOptions assign g args, IsGoodArgument fit a := by
  unfold addOptions
  split
  · exact h
  · exact isGoodArgument_setSecond hg ha h

end Styled
end StyleLowering
