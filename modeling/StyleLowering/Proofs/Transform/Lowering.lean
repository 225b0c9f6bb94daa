/-
# Css props and withComponent calls over a run

What the last pass does to attributes and calls, for a whole run: the import pass may change
what stands in a css prop or in a call, so all is said of the program that the last pass is
given, and putting in the injected imports changes no attribute any more.

A report that equals an earlier one is not made again.  Two calls that refuse options and
have one place therefore share their report (`Transform.not_forall_length_diagnostics`),
which happens where calls have no place in the source.
-/

import StyleLowering.Proofs.ImportPass.Stages
import StyleLowering.Proofs.Transform.Origins
import StyleLowering.Proofs.Transform.Phases
import StyleLowering.Proofs.Walk.Attributes

namespace StyleLowering

open Stateful

/-- The import pass leaves the facts of the file. -/
theorem ImportPass.Stages.info {tss : List Rewrite.Targets} {m m' : Module} {s s' : FileState}
    (h : Stages tss m s m' s') : s'.info = s.info := by
  induction h with
  | done => rfl
  | rewrite _ _ hr _ ih => exact ih.trans hr.info
  | drop _ ha _ ih => exact ih.trans ha.info

namespace Transform

variable (o : Options) (env : FileEnv) (p : Program)

/-- The program that the last pass is given, its imports dealt with. -/
def dispatched : Program := (importPass p (FileState.ofProgram o env p)).1

/-- The import pass leaves the facts about the file alone. -/
theorem info_importPass :
    (importPass p (FileState.ofProgram o env p)).2.info = (FileState.ofProgram o env p).info := by
  cases p with
  | module m => exact (ImportPass.stages_module m _).info
  | script t => rfl

/-- All compiled css props call one identifier. -/
theorem exists_calls (w : Walk) : ∃ css, Walk.Calls css w := by
  cases hbinding : w.file.cssBinding with
  | none => exact ⟨Ident.generated "", fun x hx => nomatch hbinding.symm.trans hx⟩
  | some css => exact ⟨css, fun x hx => Option.some.inj (hx.symm.trans hbinding)⟩

/-- **The last pass lowers what the import pass leaves behind.** -/
theorem lowersTo_rewrite {css : Ident} (h : Walk.Calls css (rewrite o env p).2) :
    (dispatched o env p).LowersTo (FileState.ofProgram o env p).info css (rewrite o env p).1 :=
  Walk.lowersTo_program _ _ (info_importPass o env p) h

/-! ### Css props -/

/-- Declarations of injected imports have no attributes. -/
theorem attributes_toRequire (i : Injection) : i.toRequire.attributes = [] := by
  simp [Injection.toRequire, Build.declaration, Build.member, Build.call, Build.reference,
    Build.word, Node.attributes_inner_of_ne, Node.attributes_argument,
    Node.attributes_run, Node.attributes_leaf]

/-- Putting in the injected imports brings in no attributes. -/
theorem attributes_flush (j : Injector) (p : Program) : (j.flush p).attributes = p.attributes := by
  cases p with
  | module m =>
    rw [Injector.flush, Injector.flushModule, Program.attributes, Program.attributes,
      Program.attributeSites_module, Program.attributeSites_module, List.flatMap_append]
    have hnone : (j.pending.map (Item.importing ·.toImport)).flatMap
        (fun i => (Walk.sitesOf i).filter (·.node.isJsxAttribute)) = [] := by
      rw [List.flatMap_eq_nil_iff]
      intro i hi
      obtain ⟨_, -, rfl⟩ := List.mem_map.1 hi
      exact Node.attributeSites_leaf [] .absent
    rw [hnone, List.nil_append]
  | script t =>
    have hnone : (j.pending.map Injection.toRequire).flatMap Node.attributes = [] := by
      rw [List.flatMap_eq_nil_iff]
      intro n hn
      obtain ⟨i, -, rfl⟩ := List.mem_map.1 hn
      exact attributes_toRequire i
    have hscript : ∀ t : Script,
        (Program.script t).attributes = t.body.flatMap Node.attributes := by
      intro t
      rw [Program.attributes, Program.attributeSites_script, List.map_flatMap]
      rfl
    rw [Injector.flush, Injector.flushScript, hscript, hscript, List.flatMap_append,
      List.flatMap_append, hnone, List.append_nil, ← List.flatMap_append,
      List.takeWhile_append_dropWhile]

/-- What becomes of the attributes of a program in a run, if `css` is what compiled css props
call. -/
structure CompilesCssProps (css : Ident) : Prop where
  /-- It is the default import of the style runtime, if there is a css prop to compile. -/
  imported : (FileState.ofProgram o env p).info.compilesCssProp = true →
    (∃ s ∈ (dispatched o env p).attributeSites, s.node.IsCssProp) →
      ∃ i ∈ (run o env p).2.file.imports.injected,
        i.binding = css ∧ i.source = "@emotion/css" ∧ i.exported = .default
  /-- The attributes of the output are those that the last pass is given, one by one. -/
  attributes : List.Forall₂ (AttributeBecomes (FileState.ofProgram o env p).info css)
    (dispatched o env p).attributeSites (run o env p).1.attributes

variable {p}

/-- **Css props are compiled exactly where they should be,** all with one identifier. -/
theorem run_compilesCssProps (hp : p.wellShaped false = true) :
    ∃ css, CompilesCssProps o env p css := by
  have hentered := importPass_entered o env hp
  have hinfo := info_importPass o env p
  obtain ⟨css, hcss⟩ := exists_calls (rewrite o env p).2
  refine ⟨css, ?_, ?_⟩
  · rintro hcompiles ⟨s, hs, hprop⟩
    have hwalk := Walk.passes_program hentered.shaped
      ⟨(importPass p (FileState.ofProgram o env p)).2, []⟩ hentered.inOrder
    obtain ⟨x, hx⟩ := Walk.exists_cssBinding_program (List.mem_filter.1 hs).1 hprop
      ⟨(importPass p (FileState.ofProgram o env p)).2, []⟩ (by rw [hinfo]; exact hcompiles)
    obtain ⟨i, hi, hb, hkey⟩ := hwalk.passes.inOrder.cssBinding x hx
    obtain rfl := hcss x hx
    exact ⟨i, hi, hb, congrArg Prod.fst hkey, congrArg Prod.snd hkey⟩
  · have hattributes := Program.forall₂_attributes hentered.shaped (lowersTo_rewrite o env p hcss)
    rw [run_eq_flush]
    dsimp only
    rw [attributes_flush]
    exact hattributes

/-- An element with the attribute `css={…}`. -/
def elementWithCss (name : String) (literal : Node) : Node :=
  .inner .jsxElement Head.empty
    [.inner .jsxOpening Head.empty [Build.reference (.global name),
      .run [.jsxAttribute Head.empty (Build.word "css") (.container Head.empty literal)]],
    .run [], .absent]

/-- The script `<a css={{ hover: () => <b css={[]} /> }} />`. -/
def cssInCss : Script where
  head := Head.empty
  body := [.inner .expressionStatement Head.empty
    [elementWithCss "a" (Build.object [.keyValue Head.empty (Build.word "hover")
      (.inner .arrow Head.empty
        [.run [], elementWithCss "b" (.inner .array Head.empty [.run []])])])]]

/-- Both css props are compiled, the one in the function inside of the other one too. -/
theorem compilesCssProps_cssInCss :
    (Program.script cssInCss).wellShaped false = true ∧
      (dispatched { cssPropOptimization := some true } ⟨some "a.js", "/", none⟩
        (.script cssInCss)).attributeSites.countP (fun s => decide s.node.IsCssProp) = 2 ∧
      ∃ css, CompilesCssProps { cssPropOptimization := some true } ⟨some "a.js", "/", none⟩
        (.script cssInCss) css :=
  ⟨by decide, by decide +kernel, run_compilesCssProps _ _ (by decide)⟩

/-! ### withComponent calls -/

/-- What a run does to the calls of a program. -/
structure NormalizesCalls (o : Options) (env : FileEnv) (p : Program) : Prop where
  /-- Among the calls, those change that take options, and no other ones. -/
  lowered : ∃ css, (dispatched o env p).LowersTo (FileState.ofProgram o env p).info css
    (rewrite o env p).1
  /-- Each of them consumes one number of the counter. -/
  targets : (run o env p).2.file.targets =
    (importPass p (FileState.ofProgram o env p)).2.targets +
      ((dispatched o env p).sites Walk.sitesOf).countP (·.node.takesOptions)
  /-- A call that refuses options is reported. -/
  reported : ∀ s ∈ (dispatched o env p).sites Walk.sitesOf, s.node.refusesOptions = true →
    s.node.refusal ∈ (run o env p).2.diagnostics
  /-- There are no other reports. -/
  refused : ∀ d ∈ (run o env p).2.diagnostics, ∃ s ∈ (dispatched o env p).sites Walk.sitesOf,
    s.node.refusesOptions = true ∧ d = s.node.refusal
  /-- No report is made twice, even if two calls have one place. -/
  nodup : (run o env p).2.diagnostics.Nodup

/-- **Calls are normalised exactly where they should be,** at each call of each program, and what
a run reports are the calls that refuse options. -/
theorem run_normalizesCalls :
    (∀ labels h ps w, Walk.Normalizes labels h ps (Walk.nodes labels ps w)
      (Walk.node labels (.inner .call h ps) w)) ∧ ∀ o env p, NormalizesCalls o env p := by
  refine ⟨fun labels h ps w => Walk.normalizes_node labels w h ps, fun o env p => ?_⟩
  have hcharges := Walk.charges_program (dispatched o env p)
    ⟨(importPass p (FileState.ofProgram o env p)).2, []⟩
  obtain ⟨css, hcss⟩ := exists_calls (rewrite o env p).2
  refine ⟨⟨css, lowersTo_rewrite o env p hcss⟩, hcharges.targets, fun s hs hr => ?_,
    fun d hd => ?_, hcharges.nodup List.nodup_nil⟩
  · exact (hcharges.mem_diagnostics _).2 (.inr ⟨s, hs, hr, rfl⟩)
  · exact ((hcharges.mem_diagnostics d).1 hd).resolve_left List.not_mem_nil

/-- The call `x.withComponent(...a)`, with no place in the source. -/
def callWithSpread : Node :=
  Build.call Span.dummy (Build.member (Build.reference (.global "x")) "withComponent")
    [.inner .spreadArgument Head.empty [Build.reference (.global "a")]]

/-- The script `x.withComponent(...a); x.withComponent(...a);`. -/
def spreadTwice : Script where
  head := Head.empty
  body := [.inner .expressionStatement Head.empty [callWithSpread],
    .inner .expressionStatement Head.empty [callWithSpread]]

/-- There is not a report for each call that refuses options: two calls in one place have only
one. -/
theorem not_forall_length_diagnostics : ¬∀ (o : Options) (env : FileEnv) (p : Program),
    (run o env p).2.diagnostics.length =
      ((dispatched o env p).sites Walk.sitesOf).countP (·.node.refusesOptions) := by
  intro h
  have hlength := h {} ⟨some "a.js", "/", none⟩ (.script spreadTwice)
  revert hlength
  decide +kernel

end Transform
end StyleLowering
