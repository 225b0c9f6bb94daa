/-
# Configured instances behave like the package

A source that resolves to a configured instance gets the recipe of the package `emotion`, with
itself as the path to import from.  So a run does the same for both sources, up to the source
itself in the imports that stay and in those that are put in (`Transform.run_instance`).  The
default export is an exception, because its name in the file is made of its source.
-/

import StyleLowering.Proofs.Transform.Recoding

namespace StyleLowering

/-- A program whose imports have other sources; a script has no imports. -/
def Program.mapSources (f : String → String) : Program → Program
  | .module m => .module (m.mapSources f)
  | .script s => .script s

/-- A source, with `new` in place of `old`. -/
def replaceSource (old new source : String) : String :=
  if source = old then new else source

/-- A program that imports from `new` instead of `old`. -/
def Program.renameSource (old new : String) (p : Program) : Program :=
  p.mapSources (replaceSource old new)

/-! ### The package for an instance -/

/-- The exports that a run may ask for where the package is imported in place of an instance: not
the default export of the package, whose name would be made of another source, and of the source
of the instance nothing but the default export. -/
def asksForInstance (s a : String) : Export → Prop
  | .default => a ≠ "emotion"
  | .named _ => a ≠ s

/-- The recoding that puts an instance in place of the package. -/
def Recoding.toInstance (s : String) : Recoding where
  toRenumbering := .refl
  source := replaceSource "emotion" s
  Asks := asksForInstance s
  source_injective := by
    intro a b e ha hb h
    unfold replaceSource at h
    cases e with
    | default => rwa [if_neg ha, if_neg hb] at h
    | named name =>
      split at h <;> split at h
      · simp_all
      · exact absurd h.symm hb
      · exact absurd h ha
      · exact h
  source_default h := if_neg h
  asks_css h := absurd h (by decide)
  asks_styled t := by cases t <;> exact fun h => absurd h (by decide)

/-- To put an instance in place of the package is to rename the sources of the imports. -/
theorem Program.recode_toInstance (p : Program) (s : String) :
    p.recode (.toInstance s) = p.renameSource "emotion" s := by
  cases p with
  | module m => exact congrArg Program.module (Module.renumber_refl _)
  | script t => exact congrArg Program.script (Script.renumber_refl t)

/-- A source that is not `old` is what it was when `new` has been taken for `old` and `old` for
`new` again. -/
theorem replaceSource_replaceSource {old new source : String} (h : source ≠ old) :
    replaceSource old new (replaceSource new old source) = source := by
  unfold replaceSource
  by_cases hn : source = new
  · rw [if_pos hn, if_pos rfl, hn]
  · rw [if_neg hn, if_neg h]

/-- Where the package was not imported before, it is put in place of an instance and the other
way round. -/
theorem Program.renameSource_renameSource {m : Module} {s : String}
    (h : ∀ d ∈ m.imports, d.source.value ≠ "emotion") :
    ((Program.module m).renameSource s "emotion").renameSource "emotion" s = .module m := by
  let toPackage := Item.mapSource (replaceSource s "emotion")
  let toInstance := Item.mapSource (replaceSource "emotion" s)
  have hitem : ∀ i ∈ m.body, toInstance (toPackage i) = i := by
    intro i hi
    cases i with
    | node n => rfl
    | importing d =>
      have hd := h d (Module.mem_imports.2 hi)
      simp [toInstance, toPackage, Item.mapSource, ImportDecl.mapSource,
        replaceSource_replaceSource hd]
  have hbody : (m.body.map toPackage).map toInstance = m.body := calc
    _ = m.body.map (toInstance ∘ toPackage) := List.map_map
    _ = m.body.map id := List.map_congr_left hitem
    _ = m.body := List.map_id m.body
  exact congrArg (fun body => Program.module ⟨m.head, body⟩) hbody

/-- A recipe that imports from a path does so under the source that it belongs to. -/
theorem FileInfo.path_of_recipe? {f : FileInfo} {source path : String}
    (h : f.recipe? source = some (.emotion path)) : path = source := by
  unfold recipe? at h
  split at h
  · next r hr =>
    have hmem := Registry.mem_of_get? (hr.trans h)
    simp only [Registry.builtin, List.mem_cons, Prod.mk.injEq, reduceCtorEq, and_false,
      List.not_mem_nil, Recipe.emotion.injEq, or_false, false_or] at hmem
    rw [hmem.1, hmem.2]
  · split at h
    · cases h
      rfl
    · cases h

/-- A declaration that imports from the instance, with the package in its place. -/
theorem suits_toInstance_of_eq {f : FileInfo} {s : String} {d : ImportDecl}
    (hbuiltin : Registry.builtin.get? s = none) (hinstance : f.resolve s ∈ f.instancePaths)
    (hs : d.source.value = s) (hdefault : "default" ∉ d.importedNames) :
    (Recoding.toInstance s).Suits f (d.mapSource (replaceSource s "emotion")) := by
  have hsource : (d.mapSource (replaceSource s "emotion")).source.value = "emotion" := by
    rw [ImportDecl.mapSource, replaceSource, if_pos hs]
  have hemotion : f.recipe? "emotion" = some (.emotion "emotion") := rfl
  refine ⟨?_, ?_⟩
  · rw [hsource, hemotion]
    exact f.recipe?_of_mem hbuiltin hinstance
  · rintro r hr path rfl name hn
    rw [hsource, hemotion] at hr
    cases hr
    have hname : name ≠ "default" := fun h => hdefault (h ▸ hn)
    rw [Export.ofName, if_neg hname]
    -- an instance with the name of the package would have a recipe from the start
    rintro rfl
    cases hbuiltin

/-- A declaration that imports from neither of the two. -/
theorem suits_toInstance_of_ne {f : FileInfo} {s : String} {d : ImportDecl}
    (hs : d.source.value ≠ s) (hpackage : d.source.value ≠ "emotion") :
    (Recoding.toInstance s).Suits f (d.mapSource (replaceSource s "emotion")) := by
  have hsource : (d.mapSource (replaceSource s "emotion")).source.value = d.source.value := by
    rw [ImportDecl.mapSource, replaceSource, if_neg hs]
  have hsame : (Recoding.toInstance s).source d.source.value = d.source.value := if_neg hpackage
  refine ⟨?_, ?_⟩
  · rw [hsource, hsame]
    cases hr : f.recipe? d.source.value with
    | none => rfl
    | some r =>
      cases r with
      | emotion path =>
        obtain rfl := f.path_of_recipe? hr
        rw [Option.map_some, Recipe.recode, hsame]
      | _ => rfl
  · rintro r hr path rfl name -
    rw [hsource] at hr
    obtain rfl := f.path_of_recipe? hr
    unfold Export.ofName
    split
    · exact hpackage
    · exact hs

namespace Transform

/-- **Configured instances.**  A source that resolves to a configured instance, and that has no
recipe from the start, is dealt with as the package is: the run gives the program that it gives
for the module that imports from the package instead, with the source put back in the imports
that stay and in those that are put in.  The module must not import from the package itself, and
it must not import the default export of the instance. -/
theorem run_instance (o : Options) (env : FileEnv) {m : Module} {s : String}
    (hbuiltin : Registry.builtin.get? s = none)
    (hinstance : (FileState.ofProgram o env (.module m)).info.resolve s ∈
      (FileState.ofProgram o env (.module m)).info.instancePaths)
    (hdefault : ∀ d ∈ m.imports, d.source.value = s → "default" ∉ d.importedNames)
    (hpackage : ∀ d ∈ m.imports, d.source.value ≠ "emotion") :
    (run o env (.module m)).1 =
      (run o env ((Program.module m).renameSource s "emotion")).1.renameSource "emotion" s := by
  let p := (Program.module m).renameSource s "emotion"
  have hsuits : ∀ d ∈ p.imports,
      (Recoding.toInstance s).Suits (FileState.ofProgram o env p).info d := by
    have himports : p.imports = m.imports.map (ImportDecl.mapSource (replaceSource s "emotion")) :=
      Module.imports_mapSources _ m
    rw [himports, List.forall_mem_map]
    intro d hd
    by_cases hs : d.source.value = s
    · exact suits_toInstance_of_eq hbuiltin hinstance hs (hdefault d hd hs)
    · exact suits_toInstance_of_ne hs (hpackage d hd)
  have hruns := (runsRecoded hsuits fun _ h => nomatch h).program
  rw [Program.recode_toInstance, Program.recode_toInstance,
    Program.renameSource_renameSource hpackage] at hruns
  exact hruns

/-- The module `import { css } from "./emo"; css;`. -/
def cssOfInstance : Module where
  head := Head.empty
  body :=
    [.importing ⟨Span.dummy, [.named Span.dummy ⟨Span.dummy, 2, "css", false⟩ none false],
      ⟨Span.dummy, "./emo", some "'./emo'"⟩, .absent, false, "evaluation"⟩,
     .node (.inner .expressionStatement Head.empty
      [.ident .reference ⟨Span.dummy, 2, "css", false⟩])]

/-- The import of `css` from `./emo` is expanded as that from the package is. -/
theorem run_cssOfInstance :
    let o : Options := { instances := ["./emo"] }
    let env : FileEnv := ⟨some "a.js", "/", none⟩
    outcomes o env (.module cssOfInstance) = [.expanded false] ∧
      (run o env (.module cssOfInstance)).1 =
        (run o env ((Program.module cssOfInstance).renameSource "./emo" "emotion")).1.renameSource
          "emotion" "./emo" := by
  intro o env
  exact ⟨by decide +kernel, run_instance o env (by decide +kernel) (by decide +kernel)
    (by decide +kernel) (by decide +kernel)⟩

end Transform
end StyleLowering
