/-
# The entries of a table of targets

Each target that a recipe makes belongs to one imported name, which decides how it is
treated and which runtime import takes its place (`Recipe.isEntry_targets`).  How a target is
treated can nearly always be told by that import (`Recipe.treatment_eq_or`): two recipes of a
file import the same export only for the same purpose, unless an instance is imported from where
the styled runtime is.
-/

import StyleLowering.Proofs.ImportPass.Steps

namespace StyleLowering

open Stateful

/-- What the targets are for that a runtime export takes the place of. -/
def runtimeTreatment : String × Export → Rewrite.Treatment
  | (source, .default) =>
    if source = "@emotion/css" then .styles true
    else
      match [StyledTarget.web, .native, .primitives].find? (·.importPath = source) with
      | some t => .styled t
      | none => .plain
  | (_, .named name) => Recipe.treatmentOf name

/-- The default export of a library for styled components is one of these. -/
theorem runtimeTreatment_importPath (t : StyledTarget) :
    runtimeTreatment (t.importPath, .default) = .styled t := by
  cases t <;> decide

namespace Recipe

/-- Whether a recipe makes targets of the bindings of an imported name. -/
def DealsWith : Recipe → String → Prop
  | .css, name | .styled _, name => name = "default"
  | .core, name => name = "css"
  | .emotion _, _ => True

/-- What happens to the calls and templates of an imported name. -/
def treatment : Recipe → String → Rewrite.Treatment
  | .css, _ | .core, _ => .styles true
  | .styled target, _ => .styled target
  | .emotion _, name => treatmentOf name

/-- What a table has for the binding of an imported name. -/
structure IsEntryOf (r : Recipe) (j : Injector) (name : String) (rf : References)
    (e : Id × Rewrite.Target) : Prop where
  deals : r.DealsWith name
  binding : e.1 = rf.binding
  treatment : e.2.treatment = r.treatment name
  /-- The runtime import takes its place. -/
  replaced : ∀ key, r.runtime? name = some key →
    ∃ i ∈ j.injected, i.key = key ∧ e.2.replacement = some i.binding
  kept : r.runtime? name = none → e.2.replacement = none

/-- What a table has for the binding of one of some imported names that are used. -/
def IsEntry (r : Recipe) (refs : ReferenceMap) (j : Injector) (e : Id × Rewrite.Target) : Prop :=
  ∃ name rf, (name, rf) ∈ refs.used ∧ r.IsEntryOf j name rf e

variable {r : Recipe} {refs : ReferenceMap} {s : FileState} {j j' : Injector}
  {e : Id × Rewrite.Target}

/-- An entry still is one when more is injected. -/
theorem IsEntry.mono (h : r.IsEntry refs j e) (hsub : j.injected ⊆ j'.injected) :
    r.IsEntry refs j' e := by
  obtain ⟨name, rf, hmem, he⟩ := h
  refine ⟨name, rf, hmem, he.deals, he.binding, he.treatment, fun key hkey => ?_, he.kept⟩
  obtain ⟨i, hi, h⟩ := he.replaced key hkey
  exact ⟨i, hsub hi, h⟩

/-- An entry with the import that the injector has been asked for. -/
theorem isEntryOf_answers {occupied : List String} {source name : String} {exported : Export}
    {x : Ident} (rf : References) (hd : r.DealsWith name)
    (hr : r.runtime? name = some (source, exported))
    (ha : Injector.Answers occupied j source exported x j') :
    r.IsEntryOf j' name rf (rf.binding, ⟨some x, r.treatment name⟩) where
  deals := hd
  binding := rfl
  treatment := rfl
  replaced key hkey := by
    obtain ⟨i, hi, rfl, hi', -⟩ := ha.import_mem
    rw [hr] at hkey
    cases hkey
    exact ⟨i, hi, hi', rfl⟩
  kept hnone := by
    rw [hr] at hnone
    cases hnone

/-- References that are used are among the used ones. -/
theorem mem_used_of_used? {name : String} {rf : References} (h : refs.used? name = some rf) :
    (name, rf) ∈ refs.used := by
  obtain ⟨hl, hu⟩ := used?_eq_some.1 h
  obtain ⟨before, after, rfl, -⟩ := List.lookup_eq_some_iff.1 hl
  exact List.mem_filter.2 ⟨by simp, hu⟩

/-- The entries for the whole runtime, from one name to the next. -/
theorem isEntry_runtimeTargets {path : String} {ts : Rewrite.Targets} {es : ReferenceMap}
    (hv : s.imports.Valid) (hts : ∀ e ∈ ts, IsEntry (.emotion path) refs s.imports e)
    (hes : es ⊆ refs.used) :
    ∀ e ∈ (runtimeTargets path ts es s).1,
      IsEntry (.emotion path) refs (runtimeTargets path ts es s).2.imports e := by
  induction es generalizing ts s with
  | nil => exact hts
  | cons e es ih =>
    obtain ⟨name, rf⟩ := e
    rw [List.cons_subset] at hes
    have ha := Injector.addExport_spec hv s.scope path name
    simp only [runtimeTargets, bind_apply, FileState.inject_apply]
    refine ih ha.grows.valid ?_ hes.2
    rw [List.forall_mem_cons]
    exact ⟨⟨name, rf, hes.1, isEntryOf_answers (r := .emotion path) rf trivial rfl ha⟩,
      fun e he => (hts e he).mono ha.grows.subset⟩

/-- A recipe for the default export has one entry, if it is used. -/
theorem isEntry_default (source hint : String) (hv : s.imports.Valid)
    (hd : r.DealsWith "default") (hr : r.runtime? "default" = some (source, .default))
    (ht : r.targets refs = match refs.used? "default" with
      | some rf => do
        let x ← FileState.inject (Injector.addDefault · source hint)
        return [(rf.binding, ⟨some x, r.treatment "default"⟩)]
      | none => pure []) :
    ∀ e ∈ (r.targets refs s).1, r.IsEntry refs (r.targets refs s).2.imports e := by
  rw [ht]
  cases hu : refs.used? "default" with
  | none => exact fun e he => absurd he List.not_mem_nil
  | some rf =>
    have ha := Injector.addDefault_spec hv s.scope source hint
    intro e he
    rw [List.mem_singleton.1 he]
    exact ⟨"default", rf, mem_used_of_used? hu, isEntryOf_answers rf hd hr ha⟩

/-- **The entries of a table.** -/
theorem isEntry_targets (r : Recipe) (hv : s.imports.Valid) :
    ∀ e ∈ (r.targets refs s).1, r.IsEntry refs (r.targets refs s).2.imports e := by
  cases r with
  | css => exact isEntry_default "@emotion/css" "css" hv rfl rfl rfl
  | styled t => exact isEntry_default t.importPath "styled" hv rfl rfl rfl
  | core =>
    intro e he
    rw [targets] at he
    cases hu : refs.used? "css" with
    | none =>
      rw [hu] at he
      exact absurd he List.not_mem_nil
    | some rf =>
      rw [hu] at he
      rw [List.mem_singleton.1 he]
      refine ⟨"css", rf, mem_used_of_used? hu, rfl, rfl, rfl, fun key hkey => ?_, fun _ => rfl⟩
      cases hkey
  | emotion path =>
    exact isEntry_runtimeTargets hv (fun e he => absurd he List.not_mem_nil) (List.Subset.refl _)

/-! ### Styles -/

/-- The names whose styles take no label. -/
theorem treatment_eq_styles {name : String} {label : Bool} (hd : r.DealsWith name)
    (h : r.treatment name = .styles label) :
    label = false ↔ name = "keyframes" ∨ name = "injectGlobal" := by
  cases r with
  | css | core =>
    cases hd
    cases h
    decide
  | styled t => cases h
  | emotion path =>
    simp only [treatment, treatmentOf] at h
    split at h
    · next hn =>
      cases h
      simp [hn]
    · split at h
      · next hn =>
        cases h
        simp [hn]
      · cases h

/-- Whatever is imported from a whole runtime is imported from there again. -/
theorem eq_of_recipe? {f : FileInfo} {source path : String}
    (h : f.recipe? source = some (.emotion path)) : path = source := by
  unfold FileInfo.recipe? at h
  split at h
  · next r hb =>
    cases h
    have hentries : ∀ e ∈ Registry.builtin.entries, ∀ path, e.2 = .emotion path → path = e.1 := by
      simp [Registry.builtin]
    obtain ⟨before, after, he, -⟩ := List.lookup_eq_some_iff.1 hb
    exact hentries (source, .emotion path) (by rw [he]; simp) path rfl
  · split at h
    · cases h
      rfl
    · cases h

/-- **How a target is treated** can be told by what takes its place, or the styled runtime is an
instance. -/
theorem treatment_eq_or {f : FileInfo} {source name : String} {key : String × Export}
    (hf : f.recipe? source = some r) (hd : r.DealsWith name) (hr : r.runtime? name = some key) :
    r.treatment name = runtimeTreatment key ∨
      ∃ t : StyledTarget, r = .emotion t.importPath ∧ key = (t.importPath, .default) ∧
        r.treatment name = .plain := by
  cases r with
  | css =>
    cases hd
    cases hr
    exact .inl rfl
  | styled t =>
    cases hd
    cases hr
    exact .inl (runtimeTreatment_importPath t).symm
  | core => cases hr
  | emotion path =>
    cases hr
    rw [Export.ofName]
    split
    · next hn =>
      subst hn
      -- the css package has a recipe of its own
      have hpath : path ≠ "@emotion/css" := by
        rintro rfl
        cases eq_of_recipe? hf
        cases hf
      rw [runtimeTreatment, if_neg hpath]
      cases ht : [StyledTarget.web, .native, .primitives].find? (·.importPath = path) with
      | none => exact .inl rfl
      | some t =>
        obtain rfl : t.importPath = path := by simpa using List.find?_some ht
        exact .inr ⟨t, rfl, rfl, rfl⟩
    · exact .inl rfl

end Recipe

/-- Whether the targets that an export takes the place of are all treated as it says. -/
def FileInfo.Tells (f : FileInfo) (key : String × Export) : Prop :=
  ∀ source r name, f.recipe? source = some r → r.DealsWith name → r.runtime? name = some key →
    r.treatment name = runtimeTreatment key

/-- An export tells how it is used, unless it is the styled runtime, and that is an instance. -/
theorem FileInfo.tells {f : FileInfo} {key : String × Export}
    (h : ∀ t, runtimeTreatment key = .styled t →
      f.recipe? t.importPath ≠ some (.emotion t.importPath)) : f.Tells key := by
  intro source r name hf hd hr
  rcases Recipe.treatment_eq_or hf hd hr with he | ⟨t, rfl, rfl, -⟩
  · exact he
  · refine absurd ?_ (h t (runtimeTreatment_importPath t))
    rw [Recipe.eq_of_recipe? hf]
    rwa [Recipe.eq_of_recipe? hf] at hf

end StyleLowering
