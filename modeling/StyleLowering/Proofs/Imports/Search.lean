/-
# The search for a free name

`Imports.firstFree` takes the first free one of as many candidates as may be needed.
`Imports.Searches` is the search as a loop without a bound: it looks at one name after the other
and counts on, until a name is free.  Started at a candidate, it passes by the occupied ones and
stops at the first one that is free (`Imports.IsFirstFree.searches`), and it cannot go another way
(`Imports.Searches.unique`).  One is free for any index and any names that have been handed out,
since the candidates are all different and the names are finitely many.  So the loop ends, at the
name that the injector hands out and takes down (`Injector.freshName_endsSearch`).
-/

import StyleLowering.Proofs.Imports.Injector

namespace StyleLowering
namespace Imports

/-- Where a search stands: the name that it looks at, and how far it has counted. -/
structure Search where
  name : String
  number : Nat

/-- **The loop.**  From one place it goes to the one where it ends, and passes by some names.  It
ends at a name that is not occupied.  At an occupied one it counts on, and next looks at the base
with the number behind it. -/
inductive Searches (base : String) (occupied : String → Prop) :
    Search → List String → Search → Prop where
  | done {s : Search} (h : ¬occupied s.name) : Searches base occupied s [] s
  | next {s t : Search} {names : List String} (h : occupied s.name)
      (rest : Searches base occupied ⟨base ++ Nat.repr (s.number + 1), s.number + 1⟩ names t) :
      Searches base occupied s (s.name :: names) t

variable {base : String} {occupied : String → Prop} {s t t' : Search} {names names' : List String}

/-- There is only one way for the loop to go. -/
theorem Searches.unique (h : Searches base occupied s names t)
    (h' : Searches base occupied s names' t') : names' = names ∧ t' = t := by
  induction h generalizing names' t' with
  | done hfree =>
    cases h' with
    | done => exact ⟨rfl, rfl⟩
    | next hocc => exact absurd hocc hfree
  | next hocc _ ih =>
    cases h' with
    | done hfree => exact absurd hocc hfree
    | next _ rest =>
      obtain ⟨rfl, rfl⟩ := ih rest
      exact ⟨rfl, rfl⟩

/-- From an occupied candidate the loop goes to the next one. -/
theorem Searches.step {m : Nat} (h : occupied (candidate base m))
    (rest : Searches base occupied ⟨candidate base (m + 1), m + 2⟩ names t) :
    Searches base occupied ⟨candidate base m, m + 1⟩ (candidate base m :: names) t :=
  .next h rest

/-- Behind `d` occupied candidates there is a free one: the loop gets there. -/
theorem searches_candidate {m d : Nat} (hocc : ∀ i, m ≤ i → i < m + d → occupied (candidate base i))
    (hfree : ¬occupied (candidate base (m + d))) :
    Searches base occupied ⟨candidate base m, m + 1⟩ ((List.range' m d).map (candidate base))
      ⟨candidate base (m + d), m + d + 1⟩ := by
  induction d generalizing m with
  | zero => exact .done hfree
  | succ d ih =>
    have hnext : m + 1 + d = m + (d + 1) := by omega
    have hrest := ih (m := m + 1) (fun i hm hi => hocc i (by omega) (by omega)) (hnext ▸ hfree)
    rw [hnext] at hrest
    rw [List.range'_succ, List.map_cons]
    exact .step (hocc m (Nat.le_refl m) (by omega)) hrest

/-- **The loop ends at the first free candidate,** and passes by those in front of it. -/
theorem IsFirstFree.searches {n : Nat} (h : IsFirstFree base occupied n) :
    Searches base occupied ⟨base, 1⟩ ((List.range n).map (candidate base))
      ⟨candidate base n, n + 1⟩ := by
  have hend : 0 + n = n := Nat.zero_add n
  have hloop := searches_candidate (fun i _ hi => h.before i (hend ▸ hi)) (hend.symm ▸ h.free)
  rw [hend, ← List.range_eq_range'] at hloop
  exact hloop

end Imports

namespace Injector

open Imports

/-- A name that is not to be handed out: the index knows it, or it has been handed out. -/
def Occupied (j : Injector) (scope : Scope.Index) (name : String) : Prop :=
  scope.isTaken name = true ∨ name ∈ j.taken

variable {j : Injector} {scope : Scope.Index} {name : String}

/-- A name is occupied if it is in the program or has been taken. -/
theorem occupied_iff_mem : j.Occupied scope name ↔ name ∈ scope.names ++ j.taken := by
  rw [Occupied, Scope.Index.isTaken, List.contains_iff_mem, List.mem_append]

/-- A name is occupied if it is declared, used or taken. -/
theorem occupied_iff : j.Occupied scope name ↔
    (∃ x ∈ scope.declared, x.name = name) ∨ (∃ u ∈ scope.uses, u.1.name = name) ∨
      name ∈ j.taken := by
  rw [occupied_iff_mem, List.mem_append, Scope.Index.names, List.mem_append, List.mem_map,
    List.mem_map, or_assoc]

/-- The name for a hint is found behind `n` occupied ones. -/
structure EndsSearch (j : Injector) (scope : Scope.Index) (hint name : String) (n : Nat) :
    Prop where
  /-- The loop ends, and it could not have gone another way. -/
  searches : Searches (baseName hint) (j.Occupied scope) ⟨baseName hint, 1⟩
    ((List.range n).map (candidate (baseName hint))) ⟨name, n + 1⟩
  unique : ∀ names t, Searches (baseName hint) (j.Occupied scope) ⟨baseName hint, 1⟩ names t →
    names = (List.range n).map (candidate (baseName hint)) ∧ t = ⟨name, n + 1⟩
  /-- The name is the first candidate that is not occupied. -/
  name_eq : name = candidate (baseName hint) n
  first : IsFirstFree (baseName hint) (j.Occupied scope) n
  /-- It is different from all names that are known. -/
  declared : ∀ x ∈ scope.declared, x.name ≠ name
  used : ∀ u ∈ scope.uses, u.1.name ≠ name
  taken : name ∉ j.taken
  /-- The loop passes by no more names than there are different ones, so a counter that can count
  these and one more does not overflow. -/
  number_le : n ≤ (scope.names ++ j.taken).dedup.length
  /-- An import that is injected gets the name, and the name is taken down. -/
  handed : ∀ source exported, j.find? source exported = none →
    (add scope source exported hint j).1 = .generated name ∧
      (add scope source exported hint j).2.taken = j.taken ++ [name]

/-- **The search for a name ends at the first free one,** for every index, all names that have
been handed out and every hint. -/
theorem freshName_endsSearch (j : Injector) (scope : Scope.Index) (hint : String) :
    ∃ n, EndsSearch j scope hint (j.freshName scope hint) n := by
  obtain ⟨n, hn⟩ := exists_isFirstFree (baseName hint) (scope.names ++ j.taken)
  have hname : j.freshName scope hint = candidate (baseName hint) n := hn.firstFree_eq
  have hfirst : IsFirstFree (baseName hint) (j.Occupied scope) n :=
    ⟨fun h => hn.free (occupied_iff_mem.1 h), fun i hi => occupied_iff_mem.2 (hn.before i hi)⟩
  have hfree := hfirst.free
  rw [← hname, occupied_iff, not_or, not_or] at hfree
  -- A first free candidate is where the loop ends, and it ends at one name only.
  have hloop := hfirst.searches
  rw [← hname] at hloop
  refine ⟨n, hloop, fun names t h => hloop.unique h, hname, hfirst,
    fun x hx he => hfree.1 ⟨x, hx, he⟩, fun u hu he => hfree.2.1 ⟨u, hu, he⟩, hfree.2.2,
    le_length_dedup hn.before, fun source exported hnew => ?_⟩
  refine add_cases scope source exported hint j (P := fun p =>
    p.1 = .generated (j.freshName scope hint) ∧ p.2.taken = j.taken ++ [j.freshName scope hint])
    (fun i hfound => ?_) fun _ => ⟨rfl, rfl⟩
  rw [hnew] at hfound
  cases hfound

/-- A program that declares `_css` and uses `_css2` in some other context. -/
def cssAndCss2 : Scope.Index where
  declared := [⟨"_css", 2⟩]
  uses := [(⟨"_css2", 1⟩, ⟨20, 25⟩)]
  stale := false
  generation := 1

/-- An injector that has handed out `_css3`, as the name of an export of that name. -/
def withCss3 : Injector where
  injected := [⟨"emotion", .named "css3", .generated "_css3"⟩]
  pending := [⟨"emotion", .named "css3", .generated "_css3"⟩]
  taken := ["_css3"]

/-- The search for a name passes by all three of them, and the default export gets `_css4`. -/
theorem endsSearch_css4 :
    withCss3.find? "@emotion/css" .default = none ∧
      EndsSearch withCss3 cssAndCss2 "__css" "_css4" 3 ∧
      (add cssAndCss2 "@emotion/css" .default "__css" withCss3).1 = .generated "_css4" ∧
      (add cssAndCss2 "@emotion/css" .default "__css" withCss3).2.taken = ["_css3", "_css4"] := by
  have hnew : withCss3.find? "@emotion/css" .default = none := by decide
  have hname : withCss3.freshName cssAndCss2 "__css" = candidate (baseName "__css") 3 := by
    decide +kernel
  have hcss4 : candidate (baseName "__css") 3 = "_css4" := by decide +kernel
  obtain ⟨n, hn⟩ := freshName_endsSearch withCss3 cssAndCss2 "__css"
  have hthree : n = 3 := candidate_injective _ (hn.name_eq.symm.trans hname)
  rw [hthree, hname, hcss4] at hn
  exact ⟨hnew, hn, hn.handed "@emotion/css" .default hnew⟩

end Injector
end StyleLowering
