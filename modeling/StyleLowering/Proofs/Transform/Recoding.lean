/-
# Runs over recoded programs

A run over a recoded program gives what a run over the program itself gives, recoded
(`Transform.runsRecoded`).  Syntax contexts are opaque to a run for that reason: other numbers
for them give the same output under these numbers, with the same reports, outcomes, class names
and injected imports (`Transform.run_renumbered`).
-/

import StyleLowering.Proofs.ImportPass.Recoding
import StyleLowering.Proofs.Transform.Frame
import StyleLowering.Proofs.Transform.Phases
import StyleLowering.Proofs.Walk.Recoding

namespace StyleLowering

open Stateful

/-! ### Injected imports in the program -/

namespace Injection

variable (c : Recoding) (i : Injection)

/-- The declaration of a recoded injection is the recoded declaration. -/
theorem toImport_recode : (i.recode c).toImport = i.toImport.recode c := by
  have hspecifier : (i.recode c).specifier = i.specifier.renumber c := by
    obtain ⟨source, e, x⟩ := i
    cases e with
    | default => rfl
    | named name => simp [recode, specifier, ImportSpecifier.renumber, ExportName.renumber]
  rw [toImport, hspecifier]
  simp [recode, toImport, ImportDecl.recode, ImportDecl.mapSource, ImportDecl.renumber,
    sourceLiteral]

/-- The statement for a script is renumbered with the injection, if the sources stay. -/
theorem toRequire_recode (h : ∀ a, c.source a = a) :
    (i.recode c).toRequire = i.toRequire.renumber c := by
  simp [recode, toRequire, sourceLiteral, h]

end Injection

/-- What is put into a recoded program is recoded.  In a script, a source is a text like others,
and has to stay. -/
theorem Injector.flush_recode (c : Recoding) (j : Injector) {p : Program}
    (hscript : ∀ s, p = .script s → ∀ a, c.source a = a) :
    (j.recode c).flush (p.recode c) = (j.flush p).recode c := by
  cases p with
  | module m =>
    have himport : ∀ i : Injection, (Item.importing i.toImport).recode c =
        .importing (i.recode c).toImport := by
      intro i
      rw [i.toImport_recode]
      rfl
    simp [flush, flushModule, recode, Program.recode, Module.recode_eq, himport,
      Function.comp_def]
  | script s =>
    have hrequire := fun i : Injection => i.toRequire_recode c (hscript s rfl)
    simp [flush, flushScript, recode, Program.recode, Script.renumber, hrequire,
      List.takeWhile_map, List.dropWhile_map, Function.comp_def]

/-! ### The state in which a program is entered -/

variable {c : Recoding}

/-- A recipe that is found is one of the entries. -/
theorem Registry.mem_of_get? {r : Registry} {source : String} {recipe : Recipe}
    (h : r.get? source = some recipe) : (source, recipe) ∈ r.entries := by
  obtain ⟨before, after, he, -⟩ := List.lookup_eq_some_iff.1 h
  rw [he]
  exact List.mem_append_right _ (List.mem_cons_self ..)

/-- Among the sources that have a recipe from the start, only the core package has its recipe. -/
theorem Registry.get?_builtin_eq_core {source : String} :
    builtin.get? source = some .core ↔ source = "@emotion/core" := by
  constructor
  · intro h
    simpa [builtin] using mem_of_get? h
  · rintro rfl
    rfl

/-- Only `@emotion/core` itself has the recipe of the core library. -/
theorem FileInfo.recipe?_eq_core {f : FileInfo} {source : String} :
    f.recipe? source = some .core ↔ source = "@emotion/core" := by
  rw [← Registry.get?_builtin_eq_core, recipe?]
  split
  · next hr => rw [hr]
  · next hr =>
    rw [hr]
    split <;> simp

/-- A recoded module imports the `jsx` of the core library if the module does. -/
theorem Module.importsCoreJsx_recode {f : FileInfo} {m : Module}
    (h : ∀ d ∈ m.imports, c.Suits f d) : (m.recode c).importsCoreJsx = m.importsCoreJsx := by
  rw [importsCoreJsx, importsCoreJsx, body_recode, List.any_map, Bool.eq_iff_iff, List.any_eq_true,
    List.any_eq_true]
  refine exists_congr fun i => and_congr_right fun hi => ?_
  cases i with
  | node n => rfl
  | importing d =>
    have hd := h d (Module.mem_imports.2 hi)
    have hcore : c.source d.source.value = "@emotion/core" ↔ d.source.value = "@emotion/core" := by
      rw [← f.recipe?_eq_core, ← f.recipe?_eq_core, hd.recipe]
      cases f.recipe? d.source.value with
      | none => rfl
      | some r => cases r <;> simp [Recipe.recode]
    simp only [Function.comp_apply, Item.recode, Item.mapSource, Item.renumber,
      ImportDecl.renumber, ImportDecl.mapSource, List.any_map, Bool.and_eq_true, beq_iff_eq, hcore,
      List.any_eq_true]
    refine and_congr_right fun _ => exists_congr fun s => and_congr_right fun _ => ?_
    cases s with
    | named span x imported typeOnly =>
      exact Bool.eq_iff_iff.1 (congrArg (· == some "jsx")
        (ImportSpecifier.importedName?_renumber c (.named span x imported typeOnly)))
    | _ => rfl

/-- **Both runs start alike.** -/
theorem FileState.recodes_ofProgram {o : Options} {env : FileEnv} {p : Program}
    (h : ∀ d ∈ p.imports, c.Suits (ofProgram o env p).info d) :
    (ofProgram o env p).Recodes c (ofProgram o env p).info (ofProgram o env (p.recode c)) := by
  have hstart : ∀ css : Bool, (start o env css p).Recodes c (start o env css p).info
      (start o env css (p.recode c)) := fun css =>
    { info_eq := rfl
      info_eq' := rfl
      registry := Registry.isOf_builtin _
      registry' := Registry.isOf_builtin _
      scope := Scope.Index.ofProgram_recode p
      imports := Injector.recodes_empty
      cssBinding := rfl
      targets := rfl }
  cases p with
  | module m =>
    have hjsx := m.importsCoreJsx_recode h
    rw [Program.recode, ofProgram, ofProgram, hjsx]
    exact hstart _
  | script s => exact hstart _

namespace Transform

variable {o : Options} {env : FileEnv} {p : Program}

/-- The import pass follows its counterpart. -/
theorem follows_importPass {info : FileInfo} (h : ∀ d ∈ p.imports, c.Suits info d) :
    Follows (FileState.Recodes c info) (Program.recode c) (importPass p)
      (importPass (p.recode c)) := by
  cases p with
  | module m => exact (ImportPass.follows_module h).bind fun s => follows_pure rfl
  | script s => exact follows_pure rfl

/-- The two runs up to the point at which the injected imports are put in. -/
theorem rewrite_recode (h : ∀ d ∈ p.imports, c.Suits (FileState.ofProgram o env p).info d) :
    (rewrite o env (p.recode c)).1 = (rewrite o env p).1.recode c ∧
      Walk.Recodes c (FileState.ofProgram o env p).info (rewrite o env p).2
        (rewrite o env (p.recode c)).2 := by
  obtain ⟨himports, hpassed⟩ := follows_importPass h (FileState.recodes_ofProgram h)
  have hentered : Walk.Recodes c (FileState.ofProgram o env p).info
      ⟨(importPass p (FileState.ofProgram o env p)).2, []⟩
      ⟨(importPass (p.recode c) (FileState.ofProgram o env (p.recode c))).2, []⟩ :=
    ⟨hpassed, rfl⟩
  have hwalked := Walk.follows_program (importPass p (FileState.ofProgram o env p)).1 hentered
  rw [← himports] at hwalked
  exact hwalked

/-- A script stays a script, and a module a module. -/
theorem rewrite_eq_script {s : Script} (h : (rewrite o env p).1 = .script s) :
    ∃ t, p = .script t := by
  cases p with
  | module m => cases h
  | script t => exact ⟨t, rfl⟩

/-- Each import has the same outcome. -/
theorem outcomes_recode (h : ∀ d ∈ p.imports, c.Suits (FileState.ofProgram o env p).info d) :
    outcomes o env (p.recode c) = outcomes o env p := by
  cases p with
  | module m =>
    have hmodule := (ImportPass.follows_module h (FileState.recodes_ofProgram h)).1
    have houtcomes := congrArg Prod.fst hmodule
    exact houtcomes
  | script s => rfl

/-- A run over a recoded program, beside the run over the program itself. -/
structure RunsRecoded (c : Recoding) (o : Options) (env : FileEnv) (p : Program) : Prop where
  program : (run o env (p.recode c)).1 = (run o env p).1.recode c
  diagnostics : (run o env (p.recode c)).2.diagnostics = (run o env p).2.diagnostics
  outcomes : outcomes o env (p.recode c) = outcomes o env p
  targets : (run o env (p.recode c)).2.file.targets = (run o env p).2.file.targets
  injected : (rewrite o env p).2.file.imports.Recodes c (rewrite o env (p.recode c)).2.file.imports

/-- **A run over a recoded program.**  If the recoding suits each import declaration, the run does
what it does over the program itself. -/
theorem runsRecoded (h : ∀ d ∈ p.imports, c.Suits (FileState.ofProgram o env p).info d)
    (hscript : ∀ s, p = .script s → ∀ a, c.source a = a) : RunsRecoded c o env p := by
  obtain ⟨hprogram, hwalked⟩ := rewrite_recode h
  refine ⟨?_, hwalked.diagnostics, outcomes_recode h, hwalked.file.targets, hwalked.file.imports⟩
  rw [run_eq_flush, run_eq_flush]
  dsimp only
  rw [hwalked.file.imports.eq, hprogram]
  refine Injector.flush_recode c _ fun s hs => ?_
  obtain ⟨t, rfl⟩ := rewrite_eq_script hs
  exact hscript t rfl

/-! ### Other numbers -/

/-- Other numbers alone suit every declaration. -/
theorem suits_recoding (c : Renumbering) (f : FileInfo) (d : ImportDecl) :
    c.recoding.Suits f d where
  recipe := by
    have hsame : Recipe.recode c.recoding = id := by
      funext r
      cases r <;> rfl
    rw [hsame, Option.map_id]
    rfl
  asks _ _ _ _ _ _ := trivial

/-- To recode nothing but numbers is to renumber. -/
theorem recode_recoding (c : Renumbering) (p : Program) : p.recode c.recoding = p.renumber c := by
  cases p with
  | module m =>
    have hitem : Item.mapSource id = id := by
      funext i
      cases i <;> rfl
    have hsources : m.mapSources id = m := by rw [Module.mapSources, hitem, List.map_id]
    exact congrArg (fun m : Module => Program.module (m.renumber c)) hsources
  | script s => rfl

/-- What stays in a run when the contexts of the program get other numbers. -/
structure RunsRenumbered (c : Renumbering) (o : Options) (env : FileEnv) (p : Program) : Prop where
  program : (run o env (p.renumber c)).1 = (run o env p).1.renumber c
  diagnostics : (run o env (p.renumber c)).2.diagnostics = (run o env p).2.diagnostics
  outcomes : outcomes o env (p.renumber c) = outcomes o env p
  /-- The counter for class names. -/
  targets : (run o env (p.renumber c)).2.file.targets = (run o env p).2.file.targets
  injected : (run o env (p.renumber c)).2.file.imports.injected =
    (run o env p).2.file.imports.injected

/-- **Syntax contexts are opaque.**  Whatever numbers the contexts of a program have, as long as
different ones stay different and the two of generated identifiers are theirs, a run does the
same: it gives the same program under these numbers, and all else that it gives is the same. -/
theorem run_renumbered (c : Renumbering) (o : Options) (env : FileEnv) (p : Program) :
    RunsRenumbered c o env p := by
  have hruns : RunsRecoded c.recoding o env p :=
    runsRecoded (fun d _ => suits_recoding c _ d) fun _ _ _ => rfl
  obtain ⟨hprogram, hdiagnostics, houtcomes, htargets, hinjected⟩ := hruns
  simp only [recode_recoding] at hprogram hdiagnostics houtcomes htargets hinjected
  refine ⟨hprogram, hdiagnostics, houtcomes, htargets, ?_⟩
  have heq := congrArg Injector.injected hinjected.eq
  have hsame : ∀ i ∈ (rewrite o env p).2.file.imports.injected,
      i.recode c.recoding = id i := by
    rintro ⟨source, e, x⟩ hi
    exact congrArg (Injection.mk source e) (hinjected.generated _ hi)
  exact heq.trans ((List.map_congr_left hsame).trans (List.map_id _))

/-- The module `import css from "@emotion/css"; css; (css) => css;`, where the scope of the module
has the number 2, and that of the function the number 3. -/
def parameterCss : Module where
  head := Head.empty
  body :=
    let css (start : Nat) (context : Context) : Ident :=
      ⟨⟨start, start + 3⟩, context, "css", false⟩
    [.importing ⟨Span.dummy, [.default Span.dummy (css 8 2)], ⟨Span.dummy, "@emotion/css", none⟩,
      .absent, false, "evaluation"⟩,
     .node (.inner .expressionStatement Head.empty [.ident .reference (css 32 2)]),
     .node (.inner .expressionStatement Head.empty
      [.inner .arrow Head.empty [.ident .binding (css 38 3), .ident .reference (css 46 3)]])]

/-- With the two numbers exchanged, the import is still the one that is replaced, and the parameter,
which has the number 2 now, is still left alone. -/
theorem renumbered_parameterCss :
    let c := Renumbering.exchange 2 3 (by decide) (by decide)
    let p := Program.module parameterCss
    RunsRenumbered c {} ⟨none, "", none⟩ p ∧
      (p.renumber c).mentions.map (·.ident.id) =
        [⟨"css", 3⟩, ⟨"css", 3⟩, ⟨"css", 2⟩, ⟨"css", 2⟩] ∧
      (run {} ⟨none, "", none⟩ (p.renumber c)).1.mentions.map (·.ident.id) =
        [⟨"_css", 0⟩, ⟨"_css", 0⟩, ⟨"css", 2⟩, ⟨"css", 2⟩] := by
  intro c p
  have hruns := run_renumbered c {} ⟨none, "", none⟩ p
  refine ⟨hruns, by decide +kernel, ?_⟩
  rw [hruns.program]
  decide +kernel

end Transform
end StyleLowering
