/-
# Names that the import pass brings in

A recipe for all exports of a path imports each of them again that a declaration has a used
binding for, under the name that it has there (`Visit.Reimports`).  The pass asks for no other
named exports.  So if the names of a module are of some sort, and those that the passes come up
with, the names of the module are so at the end, and so are those of the injected imports, but for
the names of what they import (`Loops.spells`).
-/

import StyleLowering.Proofs.ImportPass.Guard
import StyleLowering.Proofs.Rewrite.Names

namespace StyleLowering

open Stateful

variable {P Q : String → Prop} {j : Injector}

/-! ### Targets -/

namespace Recipe

open Rewrite (Targets)

/-- The targets of a recipe, made in a state of a file: the replacements have names of some sort,
and so have the injected imports. -/
structure Takes (P Q : String → Prop) (j : Injector) (ts : Targets) (s : FileState) : Prop where
  state : s.Within P Q j
  replacement : ∀ x y, ts.replacement? x = some y → P y.name

variable {ts : Targets} {s : FileState}

/-- No targets, no replacements. -/
theorem Takes.nil (hs : s.Within P Q j) : Takes P Q j [] s :=
  ⟨hs, fun _ _ h => nomatch h⟩

/-- What has been taken on top of more imports has been taken on top of fewer. -/
theorem Takes.mono {j' : Injector} (h : Takes P Q j' ts s) (hj : j.injected ⊆ j'.injected) :
    Takes P Q j ts s :=
  ⟨h.state.mono hj, h.replacement⟩

/-- One more target, whose import the injector has been asked for. -/
theorem Takes.push (h : Takes P Q j ts s) {exported : Export} {y : Ident} {j' : Injector}
    (hgives : Injector.Gives P Q s.imports exported y j') (x : Id) (t : Rewrite.Treatment) :
    Takes P Q j' ((x, ⟨some y, t⟩) :: ts) { s with imports := j' } where
  state := ⟨hgives.within, List.Subset.refl _, h.state.cssBinding⟩
  replacement a b hab := by
    rw [Targets.replacement?_cons] at hab
    split at hab
    · cases hab
      exact hgives.name
    · exact h.replacement a b hab

/-- The targets of a recipe for all exports of a path; there is an import of each. -/
theorem takes_runtimeTargets (hP : SpellsGenerated P) (path : String) {refs : ReferenceMap}
    (hrefs : ∀ e ∈ refs, Q e.1) (h : Takes P Q j ts s) :
    Takes P Q j (runtimeTargets path ts refs s).1 (runtimeTargets path ts refs s).2 ∧
      ∀ e ∈ refs, ∃ i ∈ (runtimeTargets path ts refs s).2.imports.injected,
        i.exported = .ofName e.1 := by
  induction refs generalizing ts s j with
  | nil => exact ⟨h, nofun⟩
  | cons e refs ih =>
    rw [List.forall_mem_cons] at hrefs
    have hgives := h.state.imports.addExport hP s.scope path hrefs.1
    obtain ⟨htakes, hall⟩ := ih hrefs.2 (h.push hgives e.2.binding (treatmentOf e.1))
    obtain ⟨i, hi, hexported⟩ := hgives.exists_mem
    rw [runtimeTargets, bind_apply, List.forall_mem_cons]
    exact ⟨htakes.mono (List.Subset.trans h.state.subset hgives.subset),
      ⟨i, htakes.state.subset hi, hexported⟩, hall⟩

/-- The only target of a recipe for a default export. -/
theorem takes_default (hP : SpellsGenerated P) (hs : s.Within P Q j) (refs : References)
    (source hint : String) (t : Rewrite.Treatment) :
    Takes P Q j [(refs.binding, ⟨some (Injector.addDefault s.scope source hint s.imports).1, t⟩)]
      { s with imports := (Injector.addDefault s.scope source hint s.imports).2 } := by
  have hgives := hs.imports.add hP s.scope source hint (.inl rfl)
  exact ((Takes.nil hs).push hgives refs.binding t).mono
    (List.Subset.trans hs.subset hgives.subset)

/-- **The targets of a recipe.**  If it is one for all exports of a path, there is an import of
each that is used. -/
theorem takes_targets (hP : SpellsGenerated P) (r : Recipe) {refs : ReferenceMap}
    (hs : s.Within P Q j) (hrefs : ∀ path, r = .emotion path → ∀ e ∈ refs.used, Q e.1) :
    Takes P Q j (r.targets refs s).1 (r.targets refs s).2 ∧
      ∀ path, r = .emotion path → ∀ e ∈ refs.used,
        ∃ i ∈ (r.targets refs s).2.imports.injected, i.exported = .ofName e.1 := by
  cases r with
  | css =>
    refine ⟨?_, fun path h => by cases h⟩
    rw [targets]
    cases refs.used? "default" with
    | none => exact .nil hs
    | some rf => exact takes_default hP hs rf ..
  | styled t =>
    refine ⟨?_, fun path h => by cases h⟩
    rw [targets]
    cases refs.used? "default" with
    | none => exact .nil hs
    | some rf => exact takes_default hP hs rf ..
  | core =>
    refine ⟨?_, fun path h => by cases h⟩
    rw [targets]
    cases refs.used? "css" with
    | none => exact .nil hs
    | some rf =>
      have hnone : ∀ x y, Targets.replacement? [(rf.binding, ⟨none, .styles true⟩)] x = some y →
          P y.name := by
        intro x y hxy
        rw [Targets.replacement?_cons] at hxy
        split at hxy <;> cases hxy
      exact ⟨hs, hnone⟩
  | emotion path =>
    obtain ⟨htakes, hall⟩ := takes_runtimeTargets hP path (hrefs path rfl) (.nil hs)
    exact ⟨htakes, fun _ _ => hall⟩

/-- **Following a recipe.** -/
theorem spelled_expand (hP : SpellsGenerated P) (r : Recipe) {refs : ReferenceMap} {m : Module}
    (hs : s.Within P Q j) (hm : (Program.module m).Spelled P)
    (hrefs : ∀ path, r = .emotion path → ∀ e ∈ refs.used, Q e.1) :
    (Program.module (r.expand refs true m s).1).Spelled P ∧
      (r.expand refs true m s).2.Within P Q j ∧ ∀ path, r = .emotion path → ∀ e ∈ refs.used,
        ∃ i ∈ (r.expand refs true m s).2.imports.injected, i.exported = .ofName e.1 := by
  obtain ⟨htakes, hall⟩ := takes_targets hP r hs hrefs
  have hrewriter : (Rewriter.mk s.info (r.targets refs s).1).Spells P := ⟨hP, htakes.replacement⟩
  have hmodule := (ImportPass.rewritten_expand r refs m s).module
  obtain ⟨m', targets, he, -⟩ := r.expand_apply refs m s
  rw [hmodule]
  refine ⟨Rewriter.spelled_module hrewriter hm _, ?_⟩
  rw [he]
  exact ⟨⟨htakes.state.imports, htakes.state.subset, htakes.state.cssBinding⟩, hall⟩

end Recipe

namespace ImportPass

/-! ### One declaration -/

variable {f : FileInfo} {v : Visit}

/-- Whether a declaration has a name imported again: the recipe of its source imports all exports
of a path, the declaration does not import everything at once, and its binding for the name is
used in the module. -/
structure Visit.Reimports (f : FileInfo) (v : Visit) (name : String) : Prop where
  recipe : ∃ path, f.recipe? v.decl.source.value = some (.emotion path)
  named : v.decl.specifiers.any (·.isStar) = false
  used : ∃ x, v.decl.binding? name = some x ∧ Scope.IsUsed x v.module.mentions

/-- What is imported again is told by the references of the declaration. -/
theorem Visit.reimports_iff (hf : KnowsFile f v.state)
    (hc : v.state.scope.IsCurrent (.module v.module)) {recipe : Recipe} {refs : ReferenceMap}
    (hr : recipeOf? v.decl v.state = some recipe)
    (hstar : v.decl.specifiers.any (·.isStar) = false)
    (hrefs : references? v.decl v.module v.state = some refs) (name : String) :
    v.Reimports f name ↔ (∃ path, recipe = .emotion path) ∧ ∃ rf, (name, rf) ∈ refs.used := by
  have huses : (refreshed v.decl v.module v.state).scope.uses =
      Scope.Index.usesOf v.module.mentions := by
    rw [refreshed, scope_registered]
    exact (Scope.Index.declared_refresh hc).2
  have hof := ReferenceMap.isOf_collect (p := .module v.module) huses hrefs
  have hrecipe : (∃ path, f.recipe? v.decl.source.value = some (.emotion path)) ↔
      ∃ path, recipe = .emotion path := by
    rw [← hf.recipeOf?_eq, hr]
    simp only [Option.some.injEq]
  have hused : (∃ rf, (name, rf) ∈ refs.used) ↔
      ∃ x, v.decl.binding? name = some x ∧ Scope.IsUsed x v.module.mentions := by
    simp only [ReferenceMap.used, List.mem_filter, ReferenceMap.mem_iff_lookup hof.nodup,
      ← hof.lookup, Option.map_eq_some_iff]
    constructor
    · rintro ⟨rf, hl, hu⟩
      exact ⟨_, ⟨rf, hl, rfl⟩, (hof.isUsed name rf hl).1 hu⟩
    · rintro ⟨_, ⟨rf, hl, rfl⟩, hu⟩
      exact ⟨rf, hl, (hof.isUsed name rf hl).2 hu⟩
  rw [hused, ← hrecipe]
  exact ⟨fun h => ⟨h.recipe, h.used⟩, fun h => ⟨h.1, hstar, h.2⟩⟩

/-- The names of a module are of some sort, those of the injected imports are so, and the scope
index knows the module. -/
structure Spells (P Q : String → Prop) (f : FileInfo) (j : Injector) (m : Module) (s : FileState) :
    Prop where
  file : KnowsFile f s
  index : s.scope.IsCurrent (.module m)
  module : (Program.module m).Spelled P
  state : s.Within P Q j

/-- What is spelled on top of more imports is spelled on top of fewer. -/
theorem Spells.mono {m : Module} {s : FileState} {j' : Injector} (h : Spells P Q f j' m s)
    (hj : j.injected ⊆ j'.injected) : Spells P Q f j m s :=
  ⟨h.file, h.index, h.module, h.state.mono hj⟩

/-- A declaration may leave the module. -/
theorem Spells.removed (h : Spells P Q f j v.rewritten v.after) (i : Nat) :
    Spells P Q f j (v.removed i) (FileState.invalidate v.after).2 where
  file := ⟨h.file.info_eq, h.file.registry⟩
  index := .inl rfl
  module := by
    rw [Program.spelled_module]
    exact fun a ha => Program.spelled_module.1 h.module a (List.mem_of_mem_eraseIdx ha)
  state := ⟨h.state.imports, h.state.subset, h.state.cssBinding⟩

/-- What dealing with a declaration leaves behind: names of the same sort, and an import of
everything that the declaration has imported again. -/
structure Visit.Leaves (P Q : String → Prop) (f : FileInfo) (v : Visit) (m : Module)
    (s : FileState) : Prop where
  module : (Program.module m).Spelled P
  state : s.Within P Q v.state.imports
  exists_mem : ∀ name, v.Reimports f name → ∃ i ∈ s.imports.injected, i.exported = .ofName name

/-- **One declaration.** -/
theorem Spells.leaves (hP : SpellsGenerated P) (h : Spells P Q f j v.module v.state)
    (hd : v.decl ∈ v.module.imports) (hq : ∀ name, v.Reimports f name → Q name) :
    v.Leaves P Q f v.rewritten v.after := by
  have hregistered : (registered v.decl v.state).Within P Q v.state.imports := by
    rw [registered_eq]
    exact ⟨h.state.imports, List.Subset.refl _, h.state.cssBinding⟩
  have hrefreshed : (refreshed v.decl v.module v.state).Within P Q v.state.imports :=
    ⟨hregistered.imports, hregistered.subset, hregistered.cssBinding⟩
  have hleft : ∀ {s : FileState}, s.Within P Q v.state.imports →
      (∀ name, ¬v.Reimports f name) → v.Leaves P Q f v.module s := fun hs hnone =>
    ⟨h.module, hs, fun name hname => absurd hname (hnone name)⟩
  have hrecipe := h.file.recipeOf?_eq v.decl
  refine importDecl_cases v.decl v.module v.state (P := fun p => v.Leaves P Q f p.1.2 p.2)
    ?_ ?_ ?_ ?_ ?_
  · intro hnone
    refine hleft hregistered fun name hname => ?_
    obtain ⟨path, hpath⟩ := hname.recipe
    cases hpath.symm.trans (hrecipe.symm.trans hnone)
  · intro recipe _ hstar
    exact hleft hregistered fun name hname => Bool.false_ne_true (hname.named.symm.trans hstar)
  -- the index knows all imports, so this never happens
  · intro recipe _ _ hnone
    obtain ⟨refs, hrefs⟩ := (Visit.knowsImports_of_isCurrent h.index).exists_references hd
    cases hrefs.symm.trans hnone
  · intro recipe refs hr hstar hrefs hunused
    refine hleft hrefreshed fun name hname => ?_
    obtain ⟨-, rf, hrf⟩ := (Visit.reimports_iff h.file h.index hr hstar hrefs name).1 hname
    obtain ⟨hmem, hused⟩ := List.mem_filter.1 hrf
    have hnot := List.all_eq_true.1 hunused _ hmem
    rw [hused] at hnot
    cases hnot
  · intro recipe refs hr hstar hrefs _
    have hiff := Visit.reimports_iff h.file h.index hr hstar hrefs
    have hrebuilt : (rebuilt v.decl v.module v.state).Within P Q v.state.imports :=
      ⟨hregistered.imports, hregistered.subset, hregistered.cssBinding⟩
    obtain ⟨hmodule, hstate, hall⟩ := recipe.spelled_expand hP hrebuilt h.module
      fun path hpath e he => hq e.1 ((hiff e.1).2 ⟨⟨path, hpath⟩, e.2, he⟩)
    refine ⟨hmodule, ⟨hstate.imports, hstate.subset, hstate.cssBinding⟩, fun name hname => ?_⟩
    obtain ⟨⟨path, hpath⟩, rf, hrf⟩ := (hiff name).1 hname
    exact hall path hpath (name, rf) hrf

/-- There is an import of everything that some declarations have imported again. -/
def Reimported (f : FileInfo) (vs : List Visit) (j : Injector) : Prop :=
  ∀ v ∈ vs, ∀ name, v.Reimports f name → ∃ i ∈ j.injected, i.exported = .ofName name

/-- With no visits nothing is imported again. -/
theorem reimported_nil (f : FileInfo) (j : Injector) : Reimported f [] j :=
  fun _ h => absurd h List.not_mem_nil

/-- From one declaration to the next. -/
theorem Spells.next (hP : SpellsGenerated P) (h : Spells P Q f j v.module v.state)
    (hd : v.decl ∈ v.module.imports) (hq : ∀ name, v.Reimports f name → Q name) :
    Spells P Q f v.after.imports v.rewritten v.after ∧ ∀ {m' : Module} {s' : FileState}
      {vs : List Visit}, Spells P Q f v.after.imports m' s' → Reimported f vs s'.imports →
        Spells P Q f j m' s' ∧ Reimported f (v :: vs) s'.imports := by
  have hleaves := h.leaves hP hd hq
  refine ⟨⟨h.file.importDecl v.decl v.module, isCurrent_importDecl v.decl h.index, hleaves.module,
    hleaves.state.self⟩, ?_⟩
  intro m' s' vs hend hall
  refine ⟨hend.mono (List.Subset.trans h.state.subset hleaves.state.subset), ?_⟩
  rw [Reimported, List.forall_mem_cons]
  refine ⟨fun name hname => ?_, hall⟩
  obtain ⟨i, hi, hexported⟩ := hleaves.exists_mem name hname
  exact ⟨i, hend.state.subset hi, hexported⟩

/-- **The loop.**  All names stay of the sort that they are, if those are that are imported again;
and there is an import of each of these in the end. -/
theorem Loops.spells (hP : SpellsGenerated P) {i : Nat} {m m' : Module} {s s' : FileState}
    {vs : List Visit} (h : Loops i m s vs m' s') (hs : Spells P Q f j m s)
    (hq : ∀ v ∈ vs, ∀ name, v.Reimports f name → Q name) :
    Spells P Q f j m' s' ∧ Reimported f vs s'.imports := by
  induction h generalizing j with
  | done _ => exact ⟨hs, reimported_nil f _⟩
  | pass _ _ ih => exact ih hs hq
  | @remove i m m' s s' d vs hi _ _ ih =>
    rw [List.forall_mem_cons] at hq
    have hd : d ∈ m.imports := Module.mem_imports.2 (List.mem_of_getElem? hi)
    obtain ⟨hnext, hbehind⟩ := Spells.next (v := ⟨d, m, s⟩) hP hs hd hq.1
    obtain ⟨hend, hall⟩ := ih (hnext.removed i) hq.2
    exact hbehind hend hall
  | @stay i m m' s s' d vs hi _ _ ih =>
    rw [List.forall_mem_cons] at hq
    have hd : d ∈ m.imports := Module.mem_imports.2 (List.mem_of_getElem? hi)
    obtain ⟨hnext, hbehind⟩ := Spells.next (v := ⟨d, m, s⟩) hP hs hd hq.1
    obtain ⟨hend, hall⟩ := ih hnext hq.2
    exact hbehind hend hall

end ImportPass
end StyleLowering
