/-
# Names for injected imports are free

The candidates for a name are all different, so there are no more of them in front
of the first free one than there are occupied names, and the search finds it
(`Imports.IsFirstFree.firstFree_eq`).  All candidates start with an underscore, so
none is the name of one of the globals that generated code uses.
-/

import StyleLowering.Imports.Naming
import Mathlib.Data.List.Dedup
import Mathlib.Data.List.Nodup
import Mathlib.Data.List.Perm.Subperm
import Mathlib.Data.Nat.Find
import Std.Data.String.ToNat

namespace StyleLowering
namespace Imports

/-- Candidates with different numbers are different. -/
theorem candidate_injective (base : String) : Function.Injective (candidate base) := by
  have hne : ∀ n, candidate base (n + 1) ≠ base := by
    intro n h
    have hl := congrArg (fun s : String => s.toList.length) h
    simp only [candidate, String.toList_append, List.length_append] at hl
    have hd : 0 < (Nat.repr (n + 2)).toList.length := by
      rw [Nat.repr, String.toList_ofList]
      exact Nat.length_toDigits_pos
    omega
  intro m n h
  match m, n with
  | 0, 0 => rfl
  | 0, n + 1 => exact absurd h.symm (hne n)
  | m + 1, 0 => exact absurd h (hne m)
  | m + 1, n + 1 =>
    have hr : Nat.repr (m + 2) = Nat.repr (n + 2) := (String.append_right_inj base).1 h
    have := Nat.repr_inj.1 hr
    omega

/-- There are at least as many occupied names as candidates in front of a free one. -/
theorem le_length_dedup {base : String} {occupied : List String} {n : Nat}
    (h : ∀ i < n, candidate base i ∈ occupied) : n ≤ occupied.dedup.length := by
  have hn : ((List.range n).map (candidate base)).Nodup :=
    List.Nodup.map (candidate_injective base) List.nodup_range
  have hsub : (List.range n).map (candidate base) ⊆ occupied.dedup := by
    intro c hc
    obtain ⟨i, hi, rfl⟩ := List.mem_map.1 hc
    exact List.mem_dedup.2 (h i (List.mem_range.1 hi))
  have hl := (List.subperm_of_subset hn hsub).length_le
  rwa [List.length_map, List.length_range] at hl

/-- The candidate with the number `n` is free, and all those in front of it are occupied. -/
structure IsFirstFree (base : String) (occupied : String → Prop) (n : Nat) : Prop where
  free : ¬occupied (candidate base n)
  before : ∀ i < n, occupied (candidate base i)

/-- Some candidate is the first free one. -/
theorem exists_isFirstFree (base : String) (occupied : List String) :
    ∃ n, IsFirstFree base (· ∈ occupied) n := by
  have hfree : ∃ n, candidate base n ∉ occupied := by
    by_contra h
    push Not at h
    have hle : occupied.dedup.length + 1 ≤ occupied.dedup.length :=
      le_length_dedup fun i _ => h i
    omega
  exact ⟨Nat.find hfree, Nat.find_spec hfree, fun i hi => not_not.1 (Nat.find_min hfree hi)⟩

/-- The first free candidate is among those that are tried, so it is the name that is found. -/
theorem IsFirstFree.firstFree_eq {base : String} {occupied : List String} {n : Nat}
    (h : IsFirstFree base (· ∈ occupied) n) : firstFree base occupied = candidate base n := by
  have hle : n ≤ occupied.length :=
    Nat.le_trans (le_length_dedup h.before) (List.dedup_sublist occupied).length_le
  have hfind : (List.range (occupied.length + 1)).find?
      ((!occupied.contains ·) ∘ candidate base) = some n := by
    rw [List.find?_range_eq_some]
    refine ⟨by simpa using h.free, List.mem_range.2 (by omega), fun i hi => ?_⟩
    simpa using h.before i hi
  rw [firstFree, List.find?_map, hfind, Option.map_some, Option.getD_some]

/-- **The name that is found is a candidate, and free.** -/
theorem firstFree_spec (base : String) (occupied : List String) :
    firstFree base occupied ∉ occupied ∧ ∃ n, firstFree base occupied = candidate base n := by
  obtain ⟨n, hn⟩ := exists_isFirstFree base occupied
  rw [hn.firstFree_eq]
  exact ⟨hn.free, n, rfl⟩

/-- A name of the kind that is made up for imports. -/
def IsMadeUp (name : String) : Prop := name.toList.head? = some '_'

/-- Every candidate for a fresh name looks made up. -/
theorem isMadeUp_candidate (hint : String) (n : Nat) :
    IsMadeUp (candidate (baseName hint) n) := by
  have hb : ∃ cs, (baseName hint).toList = '_' :: cs := ⟨_, by rw [baseName, String.toList_ofList]⟩
  obtain ⟨cs, hb⟩ := hb
  unfold IsMadeUp
  cases n with
  | zero => rw [candidate, hb, List.head?_cons]
  | succ n => rw [candidate, String.toList_append, hb, List.cons_append, List.head?_cons]

/-- A fresh name looks made up. -/
theorem isMadeUp_firstFree (hint : String) (occupied : List String) :
    IsMadeUp (firstFree (baseName hint) occupied) := by
  obtain ⟨-, n, hn⟩ := firstFree_spec (baseName hint) occupied
  rw [hn]
  exact isMadeUp_candidate hint n

/-- `Object` does not look made up. -/
theorem not_isMadeUp_object : ¬IsMadeUp "Object" := by
  unfold IsMadeUp
  decide

/-- `require` does not look made up. -/
theorem not_isMadeUp_require : ¬IsMadeUp "require" := by
  unfold IsMadeUp
  decide

end Imports
end StyleLowering
