/-
# Readings pass through a whole run

What can be read off a program passes through all phases of a run
(`Transform.run_passes`), if it takes steps only in the rewrites of the import pass
and in the last pass.  The attributes of imports are no business of the import
pass; the last pass goes over those of the declarations that are left.
-/

import StyleLowering.Proofs.ImportPass.Stages
import StyleLowering.Proofs.Rewrite.Passage
import StyleLowering.Proofs.Walk.Passage
import StyleLowering.Transform

namespace StyleLowering

variable {α : Type} {c : Reading α} {f : FileInfo} {R : c.Rule f}

open Reading.Rule

/-- To drop an import changes nothing that is read outside of imports. -/
theorem Module.Drops.readOutside {d : ImportDecl} {m m' : Module} (h : m.Drops d m') :
    (Program.module m').readOutside c = (Program.module m).readOutside c := by
  obtain ⟨before, after, hm, hm'⟩ := h
  rw [Program.readOutside, Program.readOutside, hm, hm', List.map_append, List.map_append,
    List.map_cons, List.sum_append, List.sum_append, List.sum_cons, Item.readOutside, zero_add]

/-- To drop an import leaves the others in their order. -/
theorem Module.Drops.imports_sublist {d : ImportDecl} {m m' : Module} (h : m.Drops d m') :
    m'.imports.Sublist m.imports := by
  obtain ⟨before, after, hm, hm'⟩ := h
  rw [Module.imports, Module.imports, hm, hm']
  exact ((List.sublist_cons_self _ _).append_left before).filterMap _

namespace ImportPass

/-- What the import pass does to a module, as far as readings are concerned. -/
structure StagesPass (R : c.Rule f) (m : Module) (s : FileState) (m' : Module) (s' : FileState) :
    Prop where
  shaped : m'.wellShaped true = true
  info : s'.info = f
  imports : m'.imports.Sublist m.imports
  passes : R.Passes ((Program.module m).readOutside c) s.targets
    ((Program.module m').readOutside c) s'.targets

/-- **Readings pass through the import pass,** one rewrite after the other. -/
theorem Stages.passes {tss : List Rewrite.Targets} {m m' : Module} {s s' : FileState}
    (h : Stages tss m s m' s') (hm : m.wellShaped true = true) (hs : s.info = f)
    (hk : ∀ ts ∈ tss, (Rewriter.mk f ts).Keeps R) : StagesPass R m s m' s' := by
  induction h with
  | done => exact ⟨hm, hs, .refl _, .refl _ _⟩
  | @rewrite d ts tss m m₁ m' s s₁ s' hd hts hr _ ih =>
    obtain ⟨hmodule, htargets, hinfo⟩ := hr
    rw [hs] at hmodule htargets
    rw [List.forall_mem_cons] at hk
    have hpasses := Rewriter.passes_module (Rewriter.mk f ts) hk.1 hm s.targets
    rw [← hmodule, ← htargets] at hpasses
    have hshaped : m₁.wellShaped true = true := by
      rw [hmodule]
      exact Rewriter.wellShaped_module _ hm _
    have himports : m₁.imports = m.imports := by
      rw [hmodule]
      exact (Rewriter.keepsImports_module _ m s.targets).imports
    have hrest := ih hshaped (hinfo.trans hs) hk.2
    exact ⟨hrest.shaped, hrest.info, himports ▸ hrest.imports, hpasses.trans hrest.passes⟩
  | drop hd ha _ ih =>
    have hshaped := List.all_eq_true.2 fun i hi => List.all_eq_true.1 hm i (hd.body_subset hi)
    have hrest := ih hshaped (ha.info.trans hs) hk
    have hpasses := hrest.passes
    rw [hd.readOutside, ha.targets] at hpasses
    exact ⟨hrest.shaped, hrest.info, hrest.imports.trans hd.imports_sublist, hpasses⟩

end ImportPass

namespace Transform

open Stateful

/-- The tables of targets with which the import pass rewrites a program. -/
def tables (o : Options) (env : FileEnv) : Program → List Rewrite.Targets
  | .module m => ImportPass.tables m.body.length m (FileState.ofProgram o env (.module m))
  | .script _ => []

/-- The import declarations that the import pass leaves in a program. -/
def keptImports (o : Options) (env : FileEnv) (p : Program) : List ImportDecl :=
  (importPass p (FileState.ofProgram o env p)).1.imports

/-- What is read off declarations of injected imports comes in. -/
theorem new_declarations (is : List Injection) (s : Nat) :
    R.new s s (Node.readAll c (is.map Injection.toRequire)) := by
  induction is with
  | nil =>
    rw [List.map_nil, Node.readAll_nil]
    exact R.new_zero s
  | cons i is ih =>
    rw [List.map_cons, Node.readAll_cons]
    exact R.new_add (R.new_declaration s i) ih

/-- Injected imports come in, and what is read otherwise is passed on. -/
theorem passes_flush (j : Injector) (p : Program) (s : Nat) :
    R.Passes (p.read c) s ((j.flush p).read c) s := by
  cases p with
  | module m =>
    have hzero : ∀ is : List Injection,
        (is.map (Item.read c ∘ (Item.importing ·.toImport))).sum = 0 := by
      intro is
      induction is with
      | nil => rfl
      | cons i is ih =>
        have hi : (Item.importing i.toImport).read c = 0 := Node.read_leaf c .absent
        rw [List.map_cons, List.sum_cons, ih, Function.comp_apply, hi, add_zero]
    have hread : (j.flush (.module m)).read c = (Program.module m).read c := by
      rw [Injector.flush, Injector.flushModule, Program.read, Program.read, List.map_append,
        List.map_map, List.sum_append, hzero, zero_add]
    rw [hread]
    exact .refl _ s
  | script t =>
    have hbody : (Program.script t).read c =
        Node.readAll c (t.body.takeWhile Node.isDirective) + 0 +
          Node.readAll c (t.body.dropWhile Node.isDirective) := by
      rw [add_zero, ← Node.readAll_append, List.takeWhile_append_dropWhile]
      rfl
    have hflush : (j.flush (.script t)).read c =
        Node.readAll c (t.body.takeWhile Node.isDirective) +
          Node.readAll c (j.pending.map Injection.toRequire) +
          Node.readAll c (t.body.dropWhile Node.isDirective) := by
      rw [← Node.readAll_append, ← Node.readAll_append]
      rfl
    rw [hbody, hflush]
    have hfront : R.Passes (Node.readAll c (t.body.takeWhile Node.isDirective)) s
        (Node.readAll c (t.body.takeWhile Node.isDirective)) s := .refl _ s
    exact (hfront.add (.of_new (new_declarations j.pending s))).add (.refl _ s)

variable {p : Program} {o : Options} {env : FileEnv}

/-- **The import pass passes on what is read**, if its rewrites do. -/
theorem importPass_passes {R : c.Rule (FileState.ofProgram o env p).info}
    (hp : p.wellShaped true = true)
    (hk : ∀ ts ∈ tables o env p, (Rewriter.mk (FileState.ofProgram o env p).info ts).Keeps R) :
    let q := importPass p (FileState.ofProgram o env p)
    q.1.wellShaped true = true ∧ q.2.info = (FileState.ofProgram o env p).info ∧
      q.1.imports.Sublist p.imports ∧
      R.Passes (p.readOutside c) 0 (q.1.readOutside c) q.2.targets := by
  cases p with
  | module m =>
    have h := (ImportPass.stages_module m (FileState.ofProgram o env (.module m))).passes hp rfl hk
    exact ⟨h.shaped, h.info, h.imports, h.passes⟩
  | script t => exact ⟨hp, rfl, .refl _, .refl _ 0⟩

/-- **Readings pass through a run.**  What is read off the program, outside of its imports and
in the attributes of those that are kept, passes while the counter goes from zero to its
final number. -/
theorem run_passes {R : c.Rule (FileState.ofProgram o env p).info}
    (hp : p.wellShaped true = true)
    (hk : ∀ ts ∈ tables o env p, (Rewriter.mk (FileState.ofProgram o env p).info ts).Keeps R)
    (hw : Walk.Keeps R) :
    (keptImports o env p).Sublist p.imports ∧
      R.Passes (p.readOutside c + readAttributes c (keptImports o env p)) 0
        ((run o env p).1.read c) (run o env p).2.file.targets := by
  obtain ⟨hshaped, hinfo, himports, hpasses⟩ := importPass_passes hp hk
  refine ⟨himports, ?_⟩
  have hentered := hpasses.add (.refl (readAttributes c (keptImports o env p)) _)
  rw [keptImports, ← Program.read_eq] at hentered
  have hwalk := Walk.lets_program hw hshaped ⟨(importPass p (FileState.ofProgram o env p)).2, []⟩
    hinfo
  exact (hentered.trans hwalk.passes).trans (passes_flush _ _ _)

end Transform
end StyleLowering
