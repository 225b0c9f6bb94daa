/-
# Names after a run

Whatever occurs in sources, in configured instances and in hints, a run makes up names of the
language only.  But what an injected import imports has the name that a declaration of the program
imports it under, and that may be a string literal.  Such a name goes into the output as an
identifier.  So the names of the output are names of the language exactly if all of these are that
are imported again (`Transform.run_spells`).
-/

import StyleLowering.Proofs.ImportPass.Expansion
import StyleLowering.Proofs.ImportPass.Names
import StyleLowering.Proofs.Transform.Lowering
import StyleLowering.Proofs.Walk.Names

namespace StyleLowering
namespace Transform

open ImportPass

variable {P Q : String → Prop} (o : Options) (env : FileEnv)

/-- The import declarations that a run deals with; there is none in a script. -/
def Visits (p : Program) (vs : List Visit) : Prop :=
  match p with
  | .module m =>
    let s := FileState.ofProgram o env (.module m)
    Loops 0 m s vs (ImportPass.module m s).1.2 (ImportPass.module m s).2
  | .script _ => vs = []

/-- Every program has its visits. -/
theorem exists_visits (p : Program) : ∃ vs, Visits o env p vs := by
  cases p with
  | module m =>
    obtain ⟨vs, -, hloop⟩ := loops_module m (FileState.ofProgram o env (.module m))
    exact ⟨vs, hloop⟩
  | script t => exact ⟨[], rfl⟩

variable {o env} {p : Program} {vs : List Visit}

/-- A run deals with declarations of the program. -/
theorem Visits.decl_mem (h : Visits o env p vs) : ∀ v ∈ vs, v.decl ∈ p.imports := by
  intro v hv
  cases p with
  | module m =>
    have hdecls := Loops.map_decl h
    rw [List.drop_zero] at hdecls
    rw [Program.imports, Module.imports, ← hdecls]
    exact List.mem_map_of_mem hv
  | script t =>
    rw [h] at hv
    exact absurd hv List.not_mem_nil

/-- What the last pass is given is spelled as the program is, and there is an import of everything
that is imported again. -/
theorem Visits.spells (h : Visits o env p vs) (hP : SpellsGenerated P) (hp : p.Spelled P) :
    let f := (FileState.ofProgram o env p).info
    let s := (importPass p (FileState.ofProgram o env p)).2
    (dispatched o env p).Spelled P ∧
      s.Within P (fun name => ∃ v ∈ vs, v.Reimports f name) s.imports ∧
      Reimported f vs s.imports := by
  intro f s
  have hentered : (FileState.ofProgram o env p).Within P
      (fun name => ∃ v ∈ vs, v.Reimports f name) Injector.empty := by
    cases p <;> exact ⟨Injector.within_empty, List.Subset.refl _, nofun⟩
  cases p with
  | module m =>
    have hspells : Spells P (fun name => ∃ v ∈ vs, v.Reimports f name) f Injector.empty m
        (FileState.ofProgram o env (.module m)) :=
      ⟨⟨rfl, Registry.isOf_builtin f⟩, .inr ⟨rfl, rfl⟩, hp, hentered⟩
    obtain ⟨hend, hall⟩ := Loops.spells hP h hspells fun v hv name hname => ⟨v, hv, hname⟩
    exact ⟨hend.module, hend.state.self, hall⟩
  | script t =>
    rw [Visits] at h
    subst h
    exact ⟨hp, hentered.self, reimported_nil f _⟩

/-- Compiled css props call one identifier, whose name is of the sort that names are. -/
theorem exists_calls_spelled (hP : SpellsGenerated P) {w : Walk} {j : Injector}
    (hw : w.file.Within P Q j) : ∃ css, Walk.Calls css w ∧ P css.name := by
  cases hbinding : w.file.cssBinding with
  | none =>
    refine ⟨.generated "default", fun x hx => ?_, hP.default⟩
    cases hbinding.symm.trans hx
  | some css =>
    exact ⟨css, fun x hx => Option.some.inj (hx.symm.trans hbinding), hw.cssBinding css hbinding⟩

/-- **A whole run.**  If the names of a program are of some sort, those of the output are so
exactly if those are that are imported again. -/
theorem Visits.spelled_run (h : Visits o env p vs) (hP : SpellsGenerated P) (hp : p.Spelled P) :
    (run o env p).1.Spelled P ↔
      ∀ v ∈ vs, ∀ name, v.Reimports (FileState.ofProgram o env p).info name → P name := by
  obtain ⟨hdispatched, hpass, hall⟩ := h.spells hP hp
  have hwalk := Walk.program_preserves (Walk.preserves_within hP) (dispatched o env p) ⟨_, []⟩ hpass
  have hrewrite : Walk.program (dispatched o env p)
      ⟨(importPass p (FileState.ofProgram o env p)).2, []⟩ = rewrite o env p := rfl
  rw [hrewrite] at hwalk
  obtain ⟨css, hcalls, hcss⟩ := exists_calls_spelled hP hwalk
  have hrewritten : (rewrite o env p).1.Spelled P :=
    (lowersTo_rewrite o env p hcalls).spelled hP hcss hdispatched
  have hpending := hwalk.imports.pending
  have hflush := Injector.spelled_flush hP (rewrite o env p).1 (hpending ▸ hwalk.imports.binding)
  rw [run_eq_flush]
  dsimp only
  rw [hflush, and_iff_right hrewritten, hpending]
  constructor
  · intro hexported v hv name hname
    obtain ⟨i, hi, hofName⟩ := hall v hv name hname
    have hname' := hexported i (hwalk.subset hi)
    rwa [hofName, Export.name_ofName] at hname'
  · intro hnames i hi
    rcases hwalk.imports.exported i hi with hdefault | ⟨v, hv, hname⟩
    · rw [hdefault]
      exact hP.default
    · exact hnames v hv _ hname

/-- What is imported again has a name of the program, or that of a string literal. -/
theorem Visits.spelled_or_mem_textNames (h : Visits o env p vs) (hP : SpellsGenerated P)
    (hp : p.Spelled P) {f : FileInfo} {v : Visit} (hv : v ∈ vs) {name : String}
    (hname : v.Reimports f name) : P name ∨ name ∈ v.decl.textNames := by
  obtain ⟨x, hx, -⟩ := hname.used
  obtain ⟨s, hs, himported, -⟩ := ImportDecl.exists_of_binding? hx
  rcases ImportSpecifier.mem_names_or_textName?_eq himported with rfl | hmem | htext
  · exact .inl hP.default
  · exact .inl ((Item.spelled_importing.1 (hp.importing (h.decl_mem v hv))).1 s hs name hmem)
  · exact .inr (List.mem_filterMap.2 ⟨s, hs, htext⟩)

/-- **Generated names.**  If all names of a program are names of the language, all names of the
output are exactly if those string literals are under which something is imported again. -/
theorem run_spells (beyond : Bool → Char → Bool) (o : Options) (env : FileEnv) {p : Program}
    (hp : ∀ name ∈ p.names, isIdentifierName beyond name = true) :
    ∃ vs, Visits o env p vs ∧
      ((∀ name ∈ (run o env p).1.names, isIdentifierName beyond name = true) ↔
        ∀ v ∈ vs, ∀ name ∈ v.decl.textNames,
          v.Reimports (FileState.ofProgram o env p).info name →
            isIdentifierName beyond name = true) := by
  have hP := spellsGenerated_isIdentifierName beyond
  obtain ⟨vs, hvs⟩ := exists_visits o env p
  refine ⟨vs, hvs, (hvs.spelled_run hP hp).trans ⟨fun h v hv name _ => h v hv name, ?_⟩⟩
  intro h v hv name hname
  rcases hvs.spelled_or_mem_textNames hP hp hv hname with hspelled | htext
  · exact hspelled
  · exact h v hv name htext hname

/-- The module `import { "a-b" as x } from "emotion"; x;`. -/
def importsLiteral : Module :=
  let x : Ident := ⟨Span.dummy, 2, "x", false⟩
  moduleOf
    [⟨Span.dummy, [.named Span.dummy x (some (.text ⟨Span.dummy, "a-b", none⟩)) false],
      ⟨Span.dummy, "emotion", none⟩, .absent, false, "evaluation"⟩]
    [.ident .reference x]

/-- All names of this module are names of the language, and whether those of the output are depends
on what is imported again. -/
theorem importsLiteral_spells :
    (∀ name ∈ (Program.module importsLiteral).names,
      isIdentifierName (fun _ _ => false) name = true) ∧
      ∃ vs, Visits {} ⟨some "a.js", "/", none⟩ (.module importsLiteral) vs ∧
        ((∀ name ∈ (run {} ⟨some "a.js", "/", none⟩ (.module importsLiteral)).1.names,
            isIdentifierName (fun _ _ => false) name = true) ↔
          ∀ v ∈ vs, ∀ name ∈ v.decl.textNames,
            v.Reimports (FileState.ofProgram {} ⟨some "a.js", "/", none⟩
              (.module importsLiteral)).info name →
              isIdentifierName (fun _ _ => false) name = true) :=
  ⟨by decide, run_spells (fun _ _ => false) {} ⟨some "a.js", "/", none⟩ (by decide)⟩

/-- The output imports `a-b` by an identifier, which is none of the language. -/
theorem not_forall_run_spelled : ¬∀ (beyond : Bool → Char → Bool) (o : Options) (env : FileEnv)
    (p : Program), (∀ name ∈ p.names, isIdentifierName beyond name = true) →
      ∀ name ∈ (run o env p).1.names, isIdentifierName beyond name = true := by
  intro h
  have hnames := h (fun _ _ => false) {} ⟨some "a.js", "/", none⟩ (.module importsLiteral)
    (by decide)
  revert hnames
  decide +kernel

end Transform
end StyleLowering
