/-
# What the registry knows on the way through a module

Every file starts with the same few recipes, and they stay what they are.  Any other source gets
its recipe when an import of it is met for the first time, if it leads to a configured instance:
the key it has as seen from the directory that the file is in is that of an instance as seen from
the directory of the run.  So between any two declarations the registry knows the instances among
the sources met so far, and no others (`ImportPass.module_registers`).

The recipe of an instance goes by the source as it is written in the import, and so do the
imports that are injected when it is followed.
-/

import StyleLowering.Proofs.File.Directory
import StyleLowering.Proofs.ImportPass.Loop
import Mathlib.Data.List.Infix

namespace StyleLowering

open Stateful

/-- Whether an import source leads to a configured instance.  The source is seen from the
directory that its file is in, and the instances from the directory of the run. -/
def Options.LeadsToInstance (o : Options) (env : FileEnv) (source : String) : Prop :=
  ∃ configured ∈ o.instances,
    Path.key env.directory source = Path.key (Path.steps env.cwd.toList) configured

instance (o : Options) (env : FileEnv) (source : String) :
    Decidable (o.LeadsToInstance env source) :=
  inferInstanceAs (Decidable (∃ configured ∈ o.instances, _))

/-- A registry that knows the configured instances among some sources. -/
structure Registry.Knows (r : Registry) (o : Options) (env : FileEnv)
    (sources : List String) : Prop where
  /-- The recipes that a file starts with stay. -/
  builtin : ∀ source recipe, Registry.builtin.get? source = some recipe →
    r.get? source = some recipe
  /-- Any other source has a recipe exactly if it is among the given ones and leads to an
  instance, and then everything is imported again from the source itself. -/
  instances : ∀ source, Registry.builtin.get? source = none → ∀ recipe,
    r.get? source = some recipe ↔
      recipe = .emotion source ∧ source ∈ sources ∧ o.LeadsToInstance env source

/-- A source leads to an instance if its key is one of those that the file keeps. -/
theorem FileInfo.resolve_mem_instancePaths_iff (o : Options) (env : FileEnv) (b : Bool)
    (source : String) :
    (ofOptions o env b).resolve source ∈ (ofOptions o env b).instancePaths ↔
      o.LeadsToInstance env source := by
  have hpaths : (ofOptions o env b).instancePaths =
      o.instances.map (Path.key (Path.steps env.cwd.toList)) :=
    List.map_congr_left fun configured _ => Path.resolve_eq_key configured env.cwd
  rw [hpaths, resolve, Path.resolve_eq_key, steps_importBaseDir, List.mem_map]
  exact exists_congr fun _ => and_congr_right fun _ => eq_comm

namespace Registry

variable {r : Registry} {o : Options} {env : FileEnv} {sources : List String}

/-- Before anything is met, the registry knows what is built in. -/
theorem knows_builtin (o : Options) (env : FileEnv) : builtin.Knows o env [] where
  builtin _ _ h := h
  instances source hn recipe := by simp [hn]

/-- Nothing is learnt from a source that has a recipe already, nor from one that does not lead
to an instance. -/
theorem Knows.skip (h : r.Knows o env sources) {source : String}
    (hs : r.contains source = true ∨ ¬o.LeadsToInstance env source) :
    r.Knows o env (sources ++ [source]) where
  builtin := h.builtin
  instances other hn recipe := by
    rw [h.instances other hn, List.mem_append, List.mem_singleton]
    refine and_congr_right fun _ => and_congr_left fun hleads => ?_
    refine ⟨.inl, fun hmem => hmem.elim id ?_⟩
    rintro rfl
    rcases hs with hs | hs
    · obtain ⟨recipe', hr⟩ := Option.isSome_iff_exists.1 hs
      exact ((h.instances other hn recipe').1 hr).2.1
    · exact absurd hleads hs

/-- An instance that is met for the first time gets its recipe. -/
theorem Knows.register (h : r.Knows o env sources) {source : String}
    (hs : r.get? source = none) (hleads : o.LeadsToInstance env source) :
    (r.register source (.emotion source)).Knows o env (sources ++ [source]) := by
  constructor
  · intro other recipe hr
    have hne : other ≠ source := by
      rintro rfl
      rw [h.builtin other recipe hr] at hs
      cases hs
    rw [get?_register_of_ne _ _ hne]
    exact h.builtin other recipe hr
  · intro other hn recipe
    by_cases hne : other = source
    · subst hne
      rw [get?_register_self, Option.some.injEq]
      constructor
      · rintro rfl
        exact ⟨rfl, List.mem_append_right _ (List.mem_singleton_self _), hleads⟩
      · exact fun hr => hr.1.symm
    · rw [get?_register_of_ne _ _ hne, h.instances other hn, List.mem_append,
        List.mem_singleton, or_iff_left hne]

end Registry

namespace Injector

/-- Whatever is added to the imports comes from the source that was asked for. -/
theorem source_of_mem_add {scope : Scope.Index} {source hint : String} {exported : Export}
    {j : Injector} {i : Injection} (hi : i ∈ (add scope source exported hint j).2.injected) :
    i ∈ j.injected ∨ i.source = source := by
  refine add_cases scope source exported hint j
    (P := fun p => i ∈ p.2.injected → i ∈ j.injected ∨ i.source = source)
    (fun _ _ hi => .inl hi) (fun _ hi => ?_) hi
  exact (List.mem_append.1 hi).imp_right fun hnew => by rw [List.mem_singleton.1 hnew]

/-- To ask for an export of a library injects imports of that library alone. -/
theorem source_of_mem_addExport {scope : Scope.Index} {source name : String} {j : Injector}
    {i : Injection} (hi : i ∈ (addExport scope source name j).2.injected) :
    i ∈ j.injected ∨ i.source = source := by
  obtain ⟨hint, hadd⟩ := exists_addExport_eq scope source name
  rw [hadd] at hi
  exact source_of_mem_add hi

end Injector

namespace Recipe

/-- The recipe of an instance injects imports from the source of the instance only. -/
theorem source_of_mem_runtimeTargets {path : String} {ts : Rewrite.Targets} {refs : ReferenceMap}
    {s : FileState} {i : Injection} (hi : i ∈ (runtimeTargets path ts refs s).2.imports.injected) :
    i ∈ s.imports.injected ∨ i.source = path := by
  induction refs generalizing ts s with
  | nil => exact .inl hi
  | cons e refs ih =>
    rw [runtimeTargets, bind_apply] at hi
    exact (ih hi).elim (fun hi => Injector.source_of_mem_addExport hi) .inr

end Recipe

namespace ImportPass

variable {o : Options} {env : FileEnv} {d : ImportDecl} {m m' : Module} {s s' : FileState}

/-- A file whose registry knows the instances among the sources met so far. -/
structure Met (o : Options) (env : FileEnv) (sources : List String) (s : FileState) : Prop where
  registry : s.registry.Knows o env sources
  info : ∃ b, s.info = FileInfo.ofOptions o env b

/-- A pass starts with nothing met. -/
theorem met_ofProgram (o : Options) (env : FileEnv) (p : Program) :
    Met o env [] (FileState.ofProgram o env p) := by
  cases p with
  | module m => exact ⟨Registry.knows_builtin .., _, rfl⟩
  | script t => exact ⟨Registry.knows_builtin .., _, rfl⟩

/-- The source of a declaration is met when the declaration is dealt with. -/
theorem Met.meet {sources : List String} (h : Met o env sources s)
    (d : ImportDecl) : Met o env (sources ++ [d.source.value]) (registered d s) := by
  obtain ⟨hknows, b, hinfo⟩ := h
  refine ⟨?_, b, by rw [info_registered, hinfo]⟩
  have hmem := FileInfo.resolve_mem_instancePaths_iff o env b d.source.value
  rw [← hinfo] at hmem
  simp only [registered, registerInstance, modify_apply]
  split
  · next hc => exact hknows.skip (.inl hc)
  · next hc =>
    split
    · next hp =>
      exact hknows.register (Option.not_isSome_iff_eq_none.1 hc)
        (hmem.1 (List.contains_iff_mem.1 hp))
    · next hp => exact hknows.skip (.inr (mt hmem.2 (mt List.contains_iff_mem.2 hp)))

/-- **One declaration.**  Only its own source is met when it is dealt with. -/
theorem Met.dealt {sources : List String} (h : Met o env sources s)
    (d : ImportDecl) (m : Module) :
    Met o env (sources ++ [d.source.value]) (importDecl d m s).2 := by
  have hregistered := h.meet d
  have hrefreshed : Met o env (sources ++ [d.source.value]) (refreshed d m s) :=
    ⟨hregistered.registry, hregistered.info⟩
  refine importDecl_cases d m s (P := fun p => Met o env (sources ++ [d.source.value]) p.2)
    (fun _ => hregistered) (fun _ _ _ => hregistered) (fun _ _ _ _ => hrefreshed)
    (fun _ _ _ _ _ _ => hrefreshed) fun recipe refs _ _ _ _ => ?_
  obtain ⟨m', targets, he, -⟩ := recipe.expand_apply refs m (rebuilt d m s)
  dsimp only
  rw [he, recipe.snd_targets]
  exact ⟨hregistered.registry, hregistered.info⟩

/-- What an import of a configured instance injects comes from the source as it is written. -/
theorem Met.source_of_mem_injected {sources : List String}
    (h : Met o env sources s) (hb : Registry.builtin.get? d.source.value = none)
    {i : Injection} (hi : i ∈ (importDecl d m s).2.imports.injected) :
    i ∈ s.imports.injected ∨ i.source = d.source.value := by
  have himports : (registered d s).imports = s.imports := imports_registered d s
  revert hi
  refine importDecl_cases d m s
    (P := fun p => i ∈ p.2.imports.injected → i ∈ s.imports.injected ∨ i.source = d.source.value)
    ?_ ?_ ?_ ?_ ?_
  · exact fun _ hi => .inl (himports ▸ hi)
  · exact fun _ _ _ hi => .inl (himports ▸ hi)
  · exact fun _ _ _ _ hi => .inl (himports ▸ hi)
  · exact fun _ _ _ _ _ _ hi => .inl (himports ▸ hi)
  · intro recipe refs hr _ _ _ q hi
    obtain ⟨m', targets, he, -⟩ := recipe.expand_apply refs m (rebuilt d m s)
    obtain ⟨rfl, -⟩ := ((h.meet d).registry.instances _ hb recipe).1 hr
    rw [show q = _ from he] at hi
    rw [← himports]
    exact Recipe.source_of_mem_runtimeTargets (s := rebuilt d m s) hi

/-- The beginnings of a list with one more element in front. -/
theorem forall₂_inits_cons {α β : Type} {R : List α → β → Prop} {a : α} {as : List α} {b : β}
    {bs : List β} (h : R [] b) (hs : List.Forall₂ (fun l => R (a :: l)) as.inits bs) :
    List.Forall₂ R (a :: as).inits (b :: bs) := by
  rw [List.inits_cons]
  exact .cons h (List.forall₂_map_left_iff.2 hs)

/-- What holds of the beginnings of a list, one after the other, holds of the whole list at the
end. -/
theorem of_forall₂_inits {α β : Type} {R : List α → β → Prop} {as : List α} {bs : List β} {b : β}
    (h : List.Forall₂ R as.inits (bs ++ [b])) : R as b := by
  induction as generalizing R bs with
  | nil =>
    cases bs with
    | nil => exact (List.forall₂_cons.1 h).1
    | cons c bs => simp at h
  | cons a as ih =>
    rw [List.inits_cons] at h
    cases bs with
    | nil =>
      have hlength := h.length_eq
      simp at hlength
    | cons c bs => exact ih (List.forall₂_map_left_iff.1 (List.forall₂_cons.1 h).2)

/-- **A whole run.**  Between any two declarations, and at the end, the sources of the
declarations in front have been met. -/
theorem Loops.met {i : Nat} {vs : List Visit} {sources : List String}
    (h : Loops i m s vs m' s') (hs : Met o env sources s) :
    List.Forall₂ (fun ds t => Met o env (sources ++ ds.map (·.source.value)) t)
      (vs.map Visit.decl).inits (vs.map Visit.state ++ [s']) := by
  have hfront : ∀ {s : FileState} {sources : List String}, Met o env sources s →
      Met o env (sources ++ ([] : List ImportDecl).map (·.source.value)) s := fun hs => by
    rwa [List.map_nil, List.append_nil]
  have hbehind : ∀ (d : ImportDecl) (sources : List String) (ds : List ImportDecl) (t : FileState),
      Met o env (sources ++ [d.source.value] ++ ds.map (·.source.value)) t →
      Met o env (sources ++ (d :: ds).map (·.source.value)) t := fun d sources ds t ht => by
    rwa [List.map_cons, List.append_cons]
  induction h generalizing sources with
  | done _ => exact .cons (hfront hs) .nil
  | pass _ _ ih => exact ih hs
  | @remove i m m' s s' d vs _ _ _ ih =>
    have hafter := hs.dealt d m
    exact forall₂_inits_cons (hfront hs)
      ((ih ⟨hafter.registry, hafter.info⟩).imp fun ds t => hbehind d sources ds t)
  | @stay i m m' s s' d vs _ _ _ ih =>
    exact forall₂_inits_cons (hfront hs)
      ((ih (hs.dealt d m)).imp fun ds t => hbehind d sources ds t)

/-- **The registry grows by instances only.**  On the way through a module, the state in front
of each declaration and the state at the end are paired with the declarations that have been
dealt with until then: the registry knows the instances among their sources.  What is injected
for an import whose source has no recipe from the start comes from that same source. -/
theorem module_registers (o : Options) (env : FileEnv) (m : Module) :
    let s := FileState.ofProgram o env (.module m)
    ∃ vs, Loops 0 m s vs (module m s).1.2 (module m s).2 ∧
      List.Forall₂ (fun ds t =>
          t.registry.Knows o env (ds.map (·.source.value)))
        m.imports.inits (vs.map Visit.state ++ [(module m s).2]) ∧
      ∀ v ∈ vs, Registry.builtin.get? v.decl.source.value = none →
        ∀ i ∈ v.after.imports.injected,
          i ∈ v.state.imports.injected ∨ i.source = v.decl.source.value := by
  intro s
  obtain ⟨vs, -, hloop⟩ := loops_remaining (s := s) m.body.length (Nat.le_refl _)
  rw [Nat.sub_self] at hloop
  have hmet := hloop.met (met_ofProgram o env (.module m))
  have hdecls : vs.map Visit.decl = m.imports := hloop.map_decl
  rw [hdecls] at hmet
  refine ⟨vs, hloop, hmet.imp fun ds t ht => ht.registry, fun v hv hb i hi => ?_⟩
  obtain ⟨ds, -, ht⟩ := exists_of_mem_forall₂ hmet (List.mem_append_left _ (List.mem_map_of_mem hv))
  exact ht.source_of_mem_injected hb hi

/-- The module `import { css } from "../emotion"; import { css as other } from "./emotion";`. -/
def relativeImports : Module where
  head := Head.empty
  body :=
    let css (start : Nat) (name : String) : ImportSpecifier :=
      .named Span.dummy ⟨⟨start, start + name.length⟩, 2, name, false⟩
        (some (.ident (.global "css"))) false
    [.importing ⟨Span.dummy, [css 10 "css"], ⟨Span.dummy, "../emotion", none⟩, .absent, false,
      "evaluation"⟩,
     .importing ⟨Span.dummy, [css 54 "other"], ⟨Span.dummy, "./emotion", none⟩, .absent, false,
      "evaluation"⟩]

/-- The instance `./emotion` of a project is `../emotion` for the file `src/App.js`.  What this
file calls `./emotion` is another one, and has no recipe. -/
theorem registers_relativeImports :
    let o : Options := { instances := ["./emotion"] }
    let env : FileEnv := ⟨some "src/App.js", "/project", none⟩
    let r :=
      (module relativeImports (FileState.ofProgram o env (.module relativeImports))).2.registry
    r.get? "../emotion" = some (.emotion "../emotion") ∧ r.get? "./emotion" = none := by
  intro o env r
  obtain ⟨vs, -, hknows, -⟩ := module_registers o env relativeImports
  have hend : r.Knows o env (relativeImports.imports.map (·.source.value)) :=
    of_forall₂_inits hknows
  refine ⟨(hend.instances "../emotion" (by decide) _).2 ⟨rfl, by decide, by decide +kernel⟩, ?_⟩
  rw [Option.eq_none_iff_forall_ne_some]
  intro recipe hrecipe
  have hleads := ((hend.instances "./emotion" (by decide) recipe).1 hrecipe).2.2
  revert hleads
  decide +kernel

end ImportPass
end StyleLowering
