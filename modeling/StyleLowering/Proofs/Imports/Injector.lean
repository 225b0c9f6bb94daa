/-
# What the injector hands out

The imports that have been injected are all different: no two have one name, and
no two import the same export of the same source.  Asking for an export gives
the import that there is, or adds one whose name is neither in the index nor in
use (`Injector.add_spec`); nothing else ever changes.
-/

import StyleLowering.Imports.Injector
import StyleLowering.Proofs.Imports.Naming
import StyleLowering.Stateful

namespace StyleLowering

/-- The export with a name. -/
def Export.ofName (name : String) : Export :=
  if name = "default" then .default else .named name

/-- An export is named as it is asked for. -/
theorem Export.name_ofName (name : String) : (Export.ofName name).name = name := by
  unfold ofName
  split
  · next h => exact h.symm
  · rfl

/-- What an injected import is an import of. -/
def Injection.key (i : Injection) : String × Export := (i.source, i.exported)

namespace Injector

/-- The names of the injected imports. -/
def names (j : Injector) : List String := j.injected.map (·.binding.name)

/-- An injector whose imports are all different and still wait. -/
structure Valid (j : Injector) : Prop where
  pending : j.pending = j.injected
  taken : j.taken = j.names
  nodup_names : j.names.Nodup
  nodup_keys : (j.injected.map Injection.key).Nodup
  generated : ∀ i ∈ j.injected, i.binding = .generated i.binding.name
  madeUp : ∀ i ∈ j.injected, Imports.IsMadeUp i.binding.name
  exported : ∀ i ∈ j.injected, i.exported = .ofName i.exported.name

/-- An injector that has kept its imports and may have got more, with names that are
not among the occupied ones. -/
structure Grows (occupied : List String) (j j' : Injector) : Prop where
  valid : j'.Valid
  subset : j.injected ⊆ j'.injected
  fresh : ∀ i ∈ j'.injected, i ∈ j.injected ∨ i.binding.name ∉ occupied

variable {occupied : List String} {j j' j'' : Injector}

/-- An injector that holds nothing is a valid one. -/
theorem valid_empty : empty.Valid where
  pending := rfl
  taken := rfl
  nodup_names := List.nodup_nil
  nodup_keys := List.nodup_nil
  generated _ h := absurd h List.not_mem_nil
  madeUp _ h := absurd h List.not_mem_nil
  exported _ h := absurd h List.not_mem_nil

/-- The names in use are those of the injected imports. -/
theorem mem_names {name : String} : name ∈ j.names ↔ ∃ i ∈ j.injected, i.binding.name = name :=
  List.mem_map

/-- The name of an injected import tells which one it is. -/
theorem Valid.eq_of_name_eq (h : j.Valid) {i k : Injection} (hi : i ∈ j.injected)
    (hk : k ∈ j.injected) (he : i.binding.name = k.binding.name) : i = k :=
  List.inj_on_of_nodup_map h.nodup_names hi hk he

/-- What an injected import imports tells which one it is. -/
theorem Valid.eq_of_key_eq (h : j.Valid) {i k : Injection} (hi : i ∈ j.injected)
    (hk : k ∈ j.injected) (he : i.key = k.key) : i = k :=
  List.inj_on_of_nodup_map h.nodup_keys hi hk he

/-- To add nothing is a way to grow. -/
theorem Grows.refl (h : j.Valid) : Grows occupied j j where
  valid := h
  subset := List.Subset.refl _
  fresh _ hi := .inl hi

/-- What grows twice has grown. -/
theorem Grows.trans (h : Grows occupied j j') (h' : Grows occupied j' j'') :
    Grows occupied j j'' where
  valid := h'.valid
  subset := List.Subset.trans h.subset h'.subset
  fresh i hi := by
    rcases h'.fresh i hi with hi | hi
    · exact h.fresh i hi
    · exact .inr hi

/-- The new names are different from the old ones, and none is that of a global. -/
theorem Grows.extend (h : Grows occupied j j') :
    Grows (occupied ++ (j.names ++ ["Object"])) j j' where
  valid := h.valid
  subset := h.subset
  fresh i hi := by
    rcases h.fresh i hi with hold | hnew
    · exact .inl hold
    by_cases hold : i ∈ j.injected
    · exact .inl hold
    refine .inr fun hm => ?_
    rw [List.mem_append, List.mem_append, List.mem_singleton] at hm
    rcases hm with hm | hm | hm
    · exact hnew hm
    · obtain ⟨k, hk, hn⟩ := mem_names.1 hm
      exact hold (h.valid.eq_of_name_eq hi (h.subset hk) hn.symm ▸ hk)
    · exact Imports.not_isMadeUp_object (hm ▸ h.valid.madeUp i hi)

/-- A name that is occupied is not one of the new ones. -/
theorem Grows.not_mem_names (h : Grows occupied j j') {name : String} (ho : name ∈ occupied)
    (hn : name ∉ j.names) : name ∉ j'.names := by
  intro hm
  obtain ⟨i, hi, rfl⟩ := mem_names.1 hm
  rcases h.fresh i hi with hi | hi
  · exact hn (mem_names.2 ⟨i, hi, rfl⟩)
  · exact hi ho

/-- An import that is found is one of the export that was looked for. -/
theorem mem_of_find? {source : String} {exported : Export} {i : Injection}
    (h : j.find? source exported = some i) :
    i ∈ j.injected ∧ i.source = source ∧ i.exported = exported := by
  have hp := List.find?_some h
  rw [Bool.and_eq_true, beq_iff_eq, beq_iff_eq] at hp
  exact ⟨List.mem_of_find?_eq_some h, hp⟩

/-- What is not found has not been injected. -/
theorem not_mem_of_find?_eq_none {source : String} {exported : Export}
    (h : j.find? source exported = none) :
    (source, exported) ∉ j.injected.map Injection.key := by
  intro hm
  obtain ⟨i, hi, he⟩ := List.mem_map.1 hm
  rw [find?, List.find?_eq_none] at h
  cases he
  exact h i hi (by simp)

/-- An injector with one more import. -/
theorem Valid.push (h : j.Valid) {source name : String} {exported : Export}
    (hn : name ∉ j.names) (hk : (source, exported) ∉ j.injected.map Injection.key)
    (hm : Imports.IsMadeUp name) (he : exported = .ofName exported.name) :
    Valid ⟨j.injected ++ [⟨source, exported, .generated name⟩],
      j.pending ++ [⟨source, exported, .generated name⟩], j.taken ++ [name]⟩ where
  pending := by rw [h.pending]
  taken := by rw [h.taken, names, names, List.map_append]; rfl
  nodup_names := by
    rw [names, List.map_append]
    exact h.nodup_names.append (List.nodup_singleton _) (by simpa [Ident.generated] using hn)
  nodup_keys := by
    rw [List.map_append]
    exact h.nodup_keys.append (List.nodup_singleton _) (by simpa [Injection.key] using hk)
  generated i hi := by
    rcases List.mem_append.1 hi with hi | hi
    · exact h.generated i hi
    · rw [List.mem_singleton.1 hi]; rfl
  madeUp i hi := by
    rcases List.mem_append.1 hi with hi | hi
    · exact h.madeUp i hi
    · rw [List.mem_singleton.1 hi]; exact hm
  exported i hi := by
    rcases List.mem_append.1 hi with hi | hi
    · exact h.exported i hi
    · rw [List.mem_singleton.1 hi]; exact he

/-- What comes of asking for an export: an import of it, which is an old one or the
only new one. -/
structure Answers (occupied : List String) (j : Injector) (source : String) (exported : Export)
    (x : Ident) (j' : Injector) : Prop where
  grows : Grows occupied j j'
  import_mem : ∃ i ∈ j'.injected, i.binding = x ∧ i.key = (source, exported) ∧
    ∀ k ∈ j'.injected, k ∈ j.injected ∨ k = i

/-- **The two ways of answering.**  The import that there is is found again, or a new one is
injected under the name that is handed out. -/
theorem add_cases (scope : Scope.Index) (source : String) (exported : Export) (hint : String)
    (j : Injector) {P : Ident × Injector → Prop}
    (found : ∀ i, j.find? source exported = some i → P (i.binding, j))
    (injected : j.find? source exported = none →
      let name := j.freshName scope hint
      let i : Injection := ⟨source, exported, .generated name⟩
      P (i.binding, ⟨j.injected ++ [i], j.pending ++ [i], j.taken ++ [name]⟩)) :
    P (add scope source exported hint j) := by
  simp only [add, Stateful.bind_apply, Stateful.get_apply]
  cases hf : j.find? source exported with
  | some i => exact found i hf
  | none => exact injected hf

/-- **To ask for an export gives an import of it**, and at most one new one. -/
theorem add_spec (h : j.Valid) (scope : Scope.Index) (source : String) {exported : Export}
    (hint : String) (he : exported = .ofName exported.name) :
    Answers scope.names j source exported (add scope source exported hint j).1
      (add scope source exported hint j).2 := by
  refine add_cases scope source exported hint j
    (P := fun p => Answers scope.names j source exported p.1 p.2) (fun i hf => ?_) fun hnew => ?_
  · obtain ⟨hi, rfl, rfl⟩ := mem_of_find? hf
    exact ⟨.refl h, i, hi, rfl, rfl, fun k hk => .inl hk⟩
  · have hfree := (Imports.firstFree_spec (Imports.baseName hint) (scope.names ++ j.taken)).1
    rw [List.mem_append, not_or, h.taken] at hfree
    have hfresh : j.freshName scope hint =
        Imports.firstFree (Imports.baseName hint) (scope.names ++ j.names) := by
      rw [freshName, h.taken]
    dsimp only
    rw [hfresh]
    refine ⟨⟨h.push hfree.2 (not_mem_of_find?_eq_none hnew) (Imports.isMadeUp_firstFree ..) he,
      List.subset_append_left _ _, fun i hi => ?_⟩,
      ⟨source, exported, _⟩, List.mem_append_right _ (List.mem_singleton_self _), rfl, rfl,
      fun k hk => ?_⟩
    · rcases List.mem_append.1 hi with hi | hi
      · exact .inl hi
      · rw [List.mem_singleton.1 hi]
        exact .inr hfree.1
    · rcases List.mem_append.1 hk with hk | hk
      · exact .inl hk
      · exact .inr (List.mem_singleton.1 hk)

/-- To ask for the default export gives an import of it. -/
theorem addDefault_spec (h : j.Valid) (scope : Scope.Index) (source hint : String) :
    Answers scope.names j source .default (addDefault scope source hint j).1
      (addDefault scope source hint j).2 :=
  add_spec h scope source hint rfl

/-- An export given by its name is asked for like any other one, with a hint that depends on the
name. -/
theorem exists_addExport_eq (scope : Scope.Index) (source name : String) :
    ∃ hint, addExport scope source name = add scope source (.ofName name) hint := by
  unfold addExport Export.ofName
  split
  · exact ⟨_, rfl⟩
  · exact ⟨_, rfl⟩

/-- To ask for an export by its name gives an import of it. -/
theorem addExport_spec (h : j.Valid) (scope : Scope.Index) (source name : String) :
    Answers scope.names j source (.ofName name) (addExport scope source name j).1
      (addExport scope source name j).2 := by
  obtain ⟨hint, hadd⟩ := exists_addExport_eq scope source name
  rw [hadd]
  exact add_spec h scope source hint (by rw [Export.name_ofName])

end Injector
end StyleLowering
