/-
# The targets of a recipe

A recipe has a runtime export for some of the imported names
(`Recipe.runtime?`).  It injects an import of it for each of these names whose
binding is used, and the targets send these bindings, and no others, to the
injected names (`Recipe.targets_spec`).
-/

import StyleLowering.Proofs.Imports.Injector
import StyleLowering.Proofs.Recipe.References
import StyleLowering.Proofs.Rewrite.Renaming
import StyleLowering.Recipe.Expand

namespace StyleLowering

namespace FileState

/-- What the injector does changes the injected imports alone. -/
theorem inject_apply {α : Type} (f : Scope.Index → StateM Injector α) (s : FileState) :
    inject f s = ((f s.scope s.imports).1, { s with imports := (f s.scope s.imports).2 }) := rfl

end FileState

namespace Recipe

open Stateful

/-- The export that takes the place of an imported name, together with its source. -/
def runtime? : Recipe → String → Option (String × Export)
  | .css, name => if name = "default" then some ("@emotion/css", .default) else none
  | .styled target, name => if name = "default" then some (target.importPath, .default) else none
  | .core, _ => none
  | .emotion path, name => some (path, .ofName name)

/-- Targets that send the bindings of some entries to the imports that their recipe
has for them, which are injected where there was none. -/
structure Assigned (r : Recipe) (es : ReferenceMap) (s s' : FileState) (ts : Rewrite.Targets) :
    Prop where
  state : s' = { s with imports := s'.imports }
  grows : Injector.Grows s.scope.names s.imports s'.imports
  sound : ∀ a y, ts.replacement? a = some y → ∃ e ∈ es, e.2.binding = a.id ∧
    ∃ i ∈ s'.imports.injected, r.runtime? e.1 = some i.key ∧ y = i.binding.moveTo a.span
  complete : ∀ e ∈ es, ∀ a : Ident, a.id = e.2.binding → (ts.replacement? a).isSome = true
  added : ∀ i ∈ s'.imports.injected,
    i ∈ s.imports.injected ∨ ∃ e ∈ es, r.runtime? e.1 = some i.key

variable {r : Recipe} {es refs : ReferenceMap} {s s' : FileState} {ts : Rewrite.Targets}

/-- Targets without replacements assign nothing. -/
theorem assigned_nil (r : Recipe) (hv : s.imports.Valid)
    (h : ∀ a, ts.replacement? a = none) : Assigned r [] s s ts where
  state := rfl
  grows := .refl hv
  sound a y hy := by rw [h a] at hy; cases hy
  complete e he := absurd he List.not_mem_nil
  added i hi := .inl hi

/-- One more target, whose import the injector has been asked for. -/
theorem Assigned.push (h : Assigned r es s s' ts) {e : String × References} {x : Ident}
    {source : String} {exported : Export} {j : Injector} (t : Rewrite.Treatment)
    (hr : r.runtime? e.1 = some (source, exported))
    (ha : Injector.Answers s'.scope.names s'.imports source exported x j) :
    Assigned r (es ++ [e]) s { s' with imports := j } ((e.2.binding, ⟨some x, t⟩) :: ts) := by
  obtain ⟨i, hi, rfl, hkey, honly⟩ := ha.import_mem
  have hscope : s'.scope = s.scope := by rw [h.state]
  have hgrows := ha.grows
  rw [hscope] at hgrows
  refine ⟨?_, h.grows.trans hgrows, ?_, ?_, ?_⟩
  · dsimp only
    rw [h.state]
  · intro a y hy
    rw [Rewrite.Targets.replacement?_cons] at hy
    split at hy
    · next hx =>
      cases hy
      exact ⟨e, by simp, hx.symm, i, hi, by rw [hr, hkey], rfl⟩
    · obtain ⟨e', he', hid, i', hi', hkey', rfl⟩ := h.sound a y hy
      exact ⟨e', List.mem_append_left _ he', hid, i', hgrows.subset hi', hkey', rfl⟩
  · intro e' he' a hid
    rw [Rewrite.Targets.replacement?_cons]
    split
    · rfl
    · next hx =>
      rcases List.mem_append.1 he' with he' | he'
      · exact h.complete e' he' a hid
      · rw [List.mem_singleton.1 he'] at hid
        exact absurd hid hx
  · intro k hk
    rcases honly k hk with hk | rfl
    · exact (h.added k hk).imp_right fun ⟨e', he', hkey'⟩ =>
        ⟨e', List.mem_append_left _ he', hkey'⟩
    · exact .inr ⟨e, by simp, by rw [hr, hkey]⟩

/-- The targets of a recipe for the whole runtime, from one entry to the next. -/
theorem assigned_runtimeTargets {path : String} {done : ReferenceMap}
    (h : Assigned (.emotion path) done s s' ts) (es : ReferenceMap) :
    Assigned (.emotion path) (done ++ es) s (runtimeTargets path ts es s').2
      (runtimeTargets path ts es s').1 := by
  induction es generalizing done s' ts with
  | nil =>
    rw [List.append_nil]
    exact h
  | cons e es ih =>
    simp only [runtimeTargets, bind_apply, FileState.inject_apply]
    rw [List.append_cons]
    exact ih (h.push (treatmentOf e.1) rfl
      (Injector.addExport_spec (by exact h.grows.valid) s'.scope path e.1))

/-- References are found if they are there and used. -/
theorem used?_eq_some {name : String} {rf : References} :
    refs.used? name = some rf ↔ refs.lookup name = some rf ∧ rf.isUsed = true := by
  rw [ReferenceMap.used?, Option.filter_eq_some_iff]

/-- The entries that a recipe deals with. -/
def Covers (r : Recipe) (refs es : ReferenceMap) : Prop :=
  ∀ e, e ∈ es ↔ refs.lookup e.1 = some e.2 ∧ e.2.isUsed = true ∧ (r.runtime? e.1).isSome = true

/-- A recipe for the default export deals with it if it is used. -/
theorem covers_default (r : Recipe) (refs : ReferenceMap) (source : String)
    (hr : ∀ name, r.runtime? name = if name = "default" then some (source, .default) else none) :
    (∀ rf, refs.used? "default" = some rf → r.Covers refs [("default", rf)]) ∧
      (refs.used? "default" = none → r.Covers refs []) := by
  have hs : ∀ e : String × References, (r.runtime? e.1).isSome = true ↔ e.1 = "default" := by
    intro e
    rw [hr]
    split <;> simp_all
  refine ⟨fun rf h e => ?_, fun h e => ?_⟩
  · rw [used?_eq_some] at h
    rw [List.mem_singleton, hs]
    constructor
    · rintro rfl
      exact ⟨h.1, h.2, rfl⟩
    · rintro ⟨hl, -, he⟩
      obtain ⟨name, rf'⟩ := e
      cases he
      rw [h.1] at hl
      cases hl
      rfl
  · rw [hs]
    refine ⟨fun he => absurd he List.not_mem_nil, ?_⟩
    rintro ⟨hl, hu, he⟩
    have hd : refs.used? "default" = some e.2 := used?_eq_some.2 ⟨he ▸ hl, hu⟩
    rw [h] at hd
    cases hd

/-- The targets of a recipe for the default export. -/
theorem targets_default (r : Recipe) (refs : ReferenceMap) (source hint : String)
    (treatment : Rewrite.Treatment) (hv : s.imports.Valid)
    (hr : ∀ name, r.runtime? name = if name = "default" then some (source, .default) else none)
    (ht : r.targets refs = match refs.used? "default" with
      | some rf => do
        let x ← FileState.inject (Injector.addDefault · source hint)
        return [(rf.binding, ⟨some x, treatment⟩)]
      | none => pure []) :
    ∃ es, r.Covers refs es ∧ Assigned r es s (r.targets refs s).2 (r.targets refs s).1 := by
  have hc := covers_default r refs source hr
  have hnil : Assigned r [] s s [] := assigned_nil r hv fun _ => rfl
  rw [ht]
  cases h : refs.used? "default" with
  | none => exact ⟨[], hc.2 h, hnil⟩
  | some rf =>
    have ha := Injector.addDefault_spec hv s.scope source hint
    exact ⟨[("default", rf)], hc.1 rf h, hnil.push (e := ("default", rf)) treatment (hr _) ha⟩

/-- **The targets of a recipe.**  They send the bindings of the entries that the
recipe deals with to runtime imports. -/
theorem targets_spec (r : Recipe) (hv : s.imports.Valid) (hn : (refs.map Prod.fst).Nodup) :
    ∃ es, r.Covers refs es ∧ Assigned r es s (r.targets refs s).2 (r.targets refs s).1 := by
  cases r with
  | css => exact targets_default .css refs "@emotion/css" _ _ hv (fun _ => rfl) rfl
  | styled t => exact targets_default (.styled t) refs t.importPath _ _ hv (fun _ => rfl) rfl
  | core =>
    refine ⟨[], fun e => by simp [runtime?], ?_⟩
    rw [targets]
    cases h : refs.used? "css" with
    | none => exact assigned_nil .core hv fun _ => rfl
    | some rf =>
      refine assigned_nil .core hv fun a => ?_
      simp only [pure_apply, Rewrite.Targets.replacement?_cons]
      split <;> rfl
  | emotion path =>
    refine ⟨refs.used, fun e => ?_, ?_⟩
    · rw [ReferenceMap.used, List.mem_filter, ← ReferenceMap.mem_iff_lookup hn]
      simp [runtime?]
    · rw [← List.nil_append refs.used]
      exact assigned_runtimeTargets (assigned_nil _ hv fun _ => rfl) refs.used

end Recipe
end StyleLowering
