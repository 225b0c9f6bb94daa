/-
# Each use of a style is expanded once

The imports of a module are dealt with one after the other, and each of them may rewrite
the whole module.  `Visit.ExpandsOnce` says what has become of the uses of one of them when all
are done: it turned each use into one call, annotated once, and no template is left behind a style;
the declarations behind it have only carried these calls along.

Two facts are kept up from one declaration to the next (`Settled`).  Imports are spelled unlike
everything that has been injected, so no later table has an injected style for a target.  And no
template stands behind an injected style: a new one has a name that the module did not have, and
one that is injected already takes the place of styles only, whose templates become calls.
-/

import StyleLowering.Proofs.ImportPass.Loop
import StyleLowering.Proofs.ImportPass.Origins
import StyleLowering.Proofs.Recipe.Entries
import StyleLowering.Proofs.Rewrite.Remains

namespace StyleLowering
namespace ImportPass

open Stateful Rewrite

variable {info : FileInfo} {d : ImportDecl} {m m' : Module} {s : FileState} {j j' : Injector}
  {o : Outcome}

/-- The injected imports only grow when a declaration is dealt with. -/
theorem Dealt.grows {fit : Bool} (h : Dealt fit info d m j o m' j') (hv : j.Valid) :
    Injector.Grows (Mention.names m.mentions) j j' := by
  cases h with
  | left => exact .refl hv
  | expanded _ he => exact he.grows

/-- **The table of a declaration.**  Each target is the binding of an imported name. -/
theorem isEntryOf_targets {fit : Bool} (h : Ready fit info m s) {e : Id × Target}
    (he : e ∈ targets d m s) :
    ∃ r name rf, info.recipe? d.source.value = some r ∧ d.binding? name = some e.1 ∧
      r.IsEntryOf (importDecl d m s).2.imports name rf e := by
  have hregistry := isOf_registered h.registry h.info_eq d
  have hindex := Scope.Index.declared_refresh (i := (registered d s).scope) (p := .module m)
    (scope_registered d s ▸ h.index)
  have hvalid : (rebuilt d m s).imports.Valid := imports_registered d s ▸ h.valid
  rw [targets_apply] at he
  rw [importDecl_apply]
  cases hr : recipeOf? d s with
  | none =>
    rw [hr] at he
    exact absurd he List.not_mem_nil
  | some recipe =>
    rw [hr] at he
    dsimp only at he ⊢
    split at he
    · exact absurd he List.not_mem_nil
    · next hstar =>
      rw [if_neg hstar]
      cases hrefs : references? d m s with
      | none =>
        rw [hrefs] at he
        exact absurd he List.not_mem_nil
      | some refs =>
        rw [hrefs] at he
        dsimp only at he ⊢
        split at he
        · exact absurd he List.not_mem_nil
        · next hused =>
          rw [if_neg hused]
          have hof := ReferenceMap.isOf_collect (p := .module m) hindex.2 hrefs
          obtain ⟨m', count, hexpand, -⟩ := recipe.expand_apply refs m (rebuilt d m s)
          obtain ⟨name, rf, hmem, hentry⟩ := recipe.isEntry_targets hvalid e he
          have hlookup := (ReferenceMap.mem_iff_lookup hof.nodup).1 (List.mem_of_mem_filter hmem)
          refine ⟨recipe, name, rf, hregistry.recipe _ _ hr, ?_, ?_⟩
          · rw [← hof.lookup, hlookup, hentry.binding]
            rfl
          · rw [hexpand]
            exact hentry

/-! ### One declaration -/

namespace Visit

variable (v : Visit)

/-- The targets of the declaration. -/
def table : Rewrite.Targets := targets v.decl v.module v.state

/-- The rewrite that the module goes through. -/
def rewriter : Rewriter := ⟨v.state.info, v.table⟩

/-- The module behind a visit is the one that its rewriter makes. -/
theorem rewritten_eq : v.rewritten = (v.rewriter.module v.module v.state.targets).1 :=
  (deals_importDecl v.decl v.module v.state).rewritten.module

/-- The targets of a visit are bound by its declaration. -/
theorem fst_mem_bindings {e : Id × Target} (he : e ∈ v.table) : e.1 ∈ v.decl.bindings :=
  (deals_importDecl v.decl v.module v.state).bindings e he

/-- The rewriter leaves the imports alone. -/
theorem imports_rewritten : v.rewritten.imports = v.module.imports := by
  rw [rewritten_eq]
  exact (v.rewriter.keepsImports_module v.module v.state.targets).imports

/-- The rewriter keeps the shape of the module. -/
theorem wellShaped_rewritten {fit : Bool} (h : v.module.wellShaped fit = true) :
    v.rewritten.wellShaped fit = true := by
  rw [rewritten_eq]
  exact v.rewriter.wellShaped_module h v.state.targets

end Visit

/-- What holds of a module and its injected imports between two declarations: the imports of the
module are spelled unlike the injected ones, and no template has an injected style as its tag, or
the base of a styled component. -/
structure Settled (info : FileInfo) (m : Module) (j : Injector) : Prop where
  apart : ∀ d ∈ m.imports, ∀ name ∈ Mention.names d.mentions, name ∉ j.names
  templates : ∀ i ∈ j.injected, info.Tells i.key → ∀ h tag template,
    .inner .tagged h [tag, template] ∈ m.applications →
      (Targets.only i.binding (runtimeTreatment i.key)).takesLabel? tag = none

/-- With nothing injected, every module is settled. -/
theorem settled_empty (info : FileInfo) (m : Module) : Settled info m .empty where
  apart _ _ _ _ := List.not_mem_nil
  templates _ h := absurd h List.not_mem_nil

/-- A declaration that is dealt with while everything is settled. -/
structure Visit.IsReady (v : Visit) (info : FileInfo) : Prop where
  ready : Ready true info v.module v.state
  settled : Settled info v.module v.state.imports
  mem : v.decl ∈ v.module.imports

namespace Visit.IsReady

variable {v : Visit} (hv : v.IsReady info)

include hv

/-- What a visit that expands its declaration does, and that the next declaration can be dealt
with. -/
theorem spec : Ready true info v.rewritten v.after ∧
    Dealt true info v.decl v.module v.state.imports v.outcome v.rewritten v.after.imports :=
  importDecl_spec hv.ready hv.mem

/-- The injected imports only grow in a visit. -/
theorem grows :
    Injector.Grows (Mention.names v.module.mentions) v.state.imports v.after.imports :=
  hv.spec.2.grows hv.ready.valid

/-- The imports are still spelled unlike the injected ones. -/
theorem apart : ∀ d ∈ v.module.imports, ∀ name ∈ Mention.names d.mentions,
    name ∉ v.after.imports.names := fun d hd name hn =>
  hv.grows.not_mem_names (ImportDecl.names_subset hd hn) (hv.settled.apart d hd name hn)

/-- Every target of a visit is there for a name that the declaration imports. -/
theorem entry {e : Id × Target} (he : e ∈ v.table) :
    ∃ r name rf, info.recipe? v.decl.source.value = some r ∧ v.decl.binding? name = some e.1 ∧
      r.IsEntryOf v.after.imports name rf e :=
  isEntryOf_targets hv.ready he

/-- What takes the place of a target is an injected import. -/
theorem exists_of_replacement {e : Id × Target} {y : Ident} (he : e ∈ v.table)
    (hy : e.2.replacement = some y) :
    ∃ r name i, info.recipe? v.decl.source.value = some r ∧ r.DealsWith name ∧
      e.2.treatment = r.treatment name ∧ i ∈ v.after.imports.injected ∧
      r.runtime? name = some i.key ∧ y = i.binding := by
  obtain ⟨r, name, rf, hrecipe, -, hentry⟩ := hv.entry he
  cases hr : r.runtime? name with
  | none =>
    rw [hentry.kept hr] at hy
    cases hy
  | some key =>
    obtain ⟨i, hi, rfl, hi'⟩ := hentry.replaced key hr
    rw [hy, Option.some_inj] at hi'
    exact ⟨r, name, i, hrecipe, hentry.deals, hentry.treatment, hi, hr, hi'⟩

/-- An injected import is no binding of another one. -/
theorem binding_not_mem {i : Injection} (hi : i ∈ v.after.imports.injected) {d : ImportDecl}
    (hd : d ∈ v.module.imports) : i.binding.id ∉ d.bindings := by
  intro hmem
  obtain ⟨sp, hsp, hid⟩ := List.mem_map.1 hmem
  refine hv.apart d hd sp.binding.name ?_ ?_
  · refine Mention.mem_names (a := ⟨.binding, sp.binding⟩) ?_ (by simp)
    exact List.mem_append_left _ (List.mem_map.2 ⟨sp, hsp, rfl⟩)
  · exact Injector.mem_names.2 ⟨i, hi, (congrArg Id.name hid).symm⟩

/-- What takes the place of a target is no binding of an import. -/
theorem not_mem_bindings {e : Id × Target} {y : Ident} (he : e ∈ v.table)
    (hy : e.2.replacement = some y) {d : ImportDecl} (hd : d ∈ v.module.imports) :
    y.id ∉ d.bindings := by
  obtain ⟨-, -, i, -, -, -, hi, -, rfl⟩ := hv.exists_of_replacement he hy
  exact hv.binding_not_mem hi hd

/-- No replacement is a target. -/
theorem get?_of_replacement? {x y : Ident} (h : v.table.replacement? x = some y) :
    v.table.get? y = none := by
  obtain ⟨t, z, hx, hz, rfl⟩ := Targets.exists_of_replacement? h
  rw [Option.eq_none_iff_forall_ne_some]
  intro t' hy
  exact hv.not_mem_bindings (Targets.mem_of_get? hx) hz hv.mem
    (v.fst_mem_bindings (Targets.mem_of_get? hy))

/-- An injected import that an identifier of the module means has been there before: the names of
the new ones are not in the module. -/
theorem mem_injected_of_mention {i : Injection} (hi : i ∈ v.after.imports.injected) {x : Ident}
    (hx : ⟨.reference, x⟩ ∈ v.module.outside) (hid : x.id = i.binding.id) :
    i ∈ v.state.imports.injected := by
  refine (hv.grows.fresh i hi).resolve_right fun hnew => hnew ?_
  rw [← show x.name = i.binding.name from congrArg Id.name hid]
  exact Mention.mem_names (Module.mem_mentions.2 (.inl hx)) (by simp)

/-- A target that an injected import takes the place of is treated like that import. -/
theorem treatment_eq_of_get? {i : Injection} (hi : i ∈ v.after.imports.injected)
    (htells : info.Tells i.key) {x : Ident} {target : Target} (hget : v.table.get? x = some target)
    (hid : ((v.rewriter.targets.replacement? x).getD x).id = i.binding.id) :
    target.treatment = runtimeTreatment i.key := by
  have hmem := Targets.mem_of_get? hget
  obtain ⟨replacement, treatment⟩ := target
  rw [Targets.replacement?, show v.rewriter.targets.get? x = _ from hget] at hid
  cases replacement with
  | none =>
    refine absurd (v.fst_mem_bindings hmem) ?_
    rw [show x.id = i.binding.id from hid]
    exact hv.binding_not_mem hi hv.mem
  | some y =>
    obtain ⟨r, name, k, hrecipe, hdeals, ht, hk, hruntime, rfl⟩ :=
      hv.exists_of_replacement hmem rfl
    obtain rfl : k = i := hv.spec.1.valid.eq_of_name_eq hk hi (congrArg Id.name hid)
    exact ht.trans (htells _ r name hrecipe hdeals hruntime)

/-- **No template gets an injected style as its tag.** -/
theorem templates : ∀ i ∈ v.after.imports.injected, info.Tells i.key → ∀ h tag template,
    .inner .tagged h [tag, template] ∈ v.rewritten.applications →
      (Targets.only i.binding (runtimeTreatment i.key)).takesLabel? tag = none := by
  intro i hi htells h tag template hmem
  rw [Option.eq_none_iff_forall_ne_some]
  intro label hlabel
  rw [v.rewritten_eq] at hmem
  obtain ⟨tag₀, template₀, hn, htag, huse⟩ :=
    v.rewriter.exists_template_of_mem hv.ready.shaped hmem
  obtain ⟨x, t, hx, hbefore⟩ := v.rewriter.takesLabel?_makes htag hlabel
  obtain ⟨hid, rfl⟩ := Targets.treatment?_only.1 hx
  -- If the tag was not replaced in this visit, the import is an old one and the template was a use
  -- of it before; if it was, the template was a use of the target.
  cases hget : v.table.get? x with
  | none =>
    have hrepl : v.rewriter.targets.replacement? x = none := by
      show (v.table.get? x).bind _ = none
      rw [hget]
      rfl
    rw [hrepl, Option.getD_none] at hid
    rcases hbefore with ⟨hmention, hsame⟩ | ⟨-, label', hx'⟩
    · have hlabel₀ := hsame _ (Targets.treatment?_only.2 ⟨hid, rfl⟩)
      have hout : ⟨.reference, x⟩ ∈ v.module.outside := by
        refine Module.mentions_subset_outside hn ?_
        rw [Node.mentions_inner, Node.mentionsAll_cons]
        exact List.mem_append_left _ hmention
      have hold := hv.mem_injected_of_mention hi hout hid
      exact Option.some_ne_none label
        (hlabel₀.symm.trans (hv.settled.templates i hold htells h tag₀ template₀ hn))
    · rw [Targets.treatment?, show v.rewriter.targets.get? x = none from hget] at hx'
      cases hx'
  | some target =>
    have htreatment : v.rewriter.targets.treatment? x = some target.treatment :=
      congrArg (Option.map _) hget
    rw [hv.treatment_eq_of_get? hi htells hget hid] at htreatment
    rcases hbefore with ⟨-, hsame⟩ | ⟨⟨t, ht⟩, label', hx'⟩
    · exact Option.some_ne_none label ((hsame _ htreatment).symm.trans huse)
    · rw [htreatment, ht] at hx'
      cases hx'

/-- **A visit leaves the module settled.** -/
theorem settled_rewritten : Settled info v.rewritten v.after.imports where
  apart := by
    rw [v.imports_rewritten]
    exact hv.apart
  templates := hv.templates

end Visit.IsReady

/-! ### Later declarations -/

/-- To drop an import changes no call and no template. -/
theorem applications_of_drops (h : m.Drops d m') : m'.applications = m.applications := by
  obtain ⟨before, after, hm, hm'⟩ := h
  rw [Module.applications, Module.applications, hm, hm', List.flatMap_append,
    List.flatMap_append, List.flatMap_cons]
  rfl

/-- To drop an import leaves the others. -/
theorem imports_subset_of_drops (h : m.Drops d m') : m'.imports ⊆ m.imports := fun _ he =>
  Module.mem_imports.2 (h.body_subset (Module.mem_imports.1 he))

/-- A settled module stays settled without an import. -/
theorem Settled.drop (h : Settled info m j) (hd : m.Drops d m') : Settled info m' j where
  apart e he := h.apart e (imports_subset_of_drops hd he)
  templates := by
    rw [applications_of_drops hd]
    exact h.templates

variable {s' : FileState} {vs : List Visit} {i : Nat}

/-- What is left when a declaration is taken out. -/
theorem Visit.drops_removed (v : Visit) (hi : v.module.body[i]? = some (.importing v.decl)) :
    v.rewritten.Drops v.decl (v.removed i) := by
  refine drops_eraseIdx ?_ hi
  rw [v.rewritten_eq]
  exact v.rewriter.keepsImports_module v.module v.state.targets

/-- The declarations that the loop deals with are imports of the module. -/
theorem Loops.decl_mem (h : Loops i m s vs m' s') {w : Visit} (hw : w ∈ vs) :
    w.decl ∈ m.imports := by
  have hmem : w.decl ∈ (m.body.drop i).filterMap Item.import? := by
    rw [← h.map_decl]
    exact List.mem_map.2 ⟨w, hw, rfl⟩
  exact (List.Sublist.filterMap _ (List.drop_sublist i m.body)).subset hmem

/-- **Calls that no later table has to do with are carried to the end.** -/
theorem Loops.carries (h : Loops i m s vs m' s') (hm : m.wellShaped true = true) {p : Id → Bool}
    (hp : ∀ w ∈ vs, w.rewriter.Spares p) :
    List.SublistForall₂ (CarriedBy (vs.map Visit.rewriter))
      (m.applications.filter (Node.isCallOf p)) m'.applications := by
  -- one rewrite, and then the others
  have hstep : ∀ (v : Visit) (vs : List Visit) (m₁ m' : Module), v.module.wellShaped true = true →
      v.rewriter.Spares p → m₁.applications = v.rewritten.applications →
      List.SublistForall₂ (CarriedBy (vs.map Visit.rewriter))
        (m₁.applications.filter (Node.isCallOf p)) m'.applications →
      List.SublistForall₂ (CarriedBy ((v :: vs).map Visit.rewriter))
        (v.module.applications.filter (Node.isCallOf p)) m'.applications := by
    intro v vs m₁ m' hshaped hspares happs hrest
    have hcarries := Rewriter.carries_module hspares hshaped v.state.targets
    rw [← v.rewritten_eq, ← happs] at hcarries
    refine sublistForall₂_imp ?_
      (sublistForall₂_comp (sublistForall₂_filter (fun _ _ h => h.2) hcarries) hrest)
    rintro n out ⟨n', hn, hout⟩
    exact .cons hn.1 hout
  induction h with
  | done =>
    exact List.sublistForall₂_iff.2
      ⟨_, List.forall₂_same.2 fun n _ => .refl n, List.filter_sublist⟩
  | pass _ _ ih => exact ih hm hp
  | @remove i m m' s s' d vs hi ho _ ih =>
    let v : Visit := ⟨d, m, s⟩
    rw [List.forall_mem_cons] at hp
    have hdrops := v.drops_removed hi
    refine hstep v vs (v.removed i) m' hm hp.1 (applications_of_drops hdrops) (ih ?_ hp.2)
    exact List.all_eq_true.2 fun a ha =>
      List.all_eq_true.1 (v.wellShaped_rewritten hm) a (hdrops.body_subset ha)
  | @stay i m m' s s' d vs hi ho _ ih =>
    let v : Visit := ⟨d, m, s⟩
    rw [List.forall_mem_cons] at hp
    exact hstep v vs v.rewritten m' hm hp.1 rfl (ih (v.wellShaped_rewritten hm) hp.2)

/-- **A declaration whose styles are expanded once,** the declarations `later` are dealt with
behind it, and `m'` is the module in the end. -/
structure Visit.ExpandsOnce (v : Visit) (later : List Visit) (m' : Module) : Prop where
  /-- No template is left whose tag is the identifier of a style target, or the base of a styled
  component. -/
  none_left : ∀ h tag template, .inner .tagged h [tag, template] ∈ v.rewritten.applications →
    v.table.takesLabel? tag = none
  /-- Nor is there one behind what takes the place of a target, unless that is a styled one whose
  runtime is also an instance. -/
  none_replaced : ∀ h tag template, .inner .tagged h [tag, template] ∈ v.rewritten.applications →
    ∀ e ∈ v.table, ∀ y, e.2.replacement = some y →
      (∀ t, e.2.treatment = .styled t →
        v.state.info.recipe? t.importPath ≠ some (.emotion t.importPath)) →
      (Targets.only y e.2.treatment).takesLabel? tag = none
  /-- Each use becomes one call, which is annotated once. -/
  finished : List.SublistForall₂ v.rewriter.Finishes (v.module.uses v.table)
    v.rewritten.applications
  /-- So it gets at most one label and at most one source-map comment. -/
  gains : ∀ use call, v.rewriter.Finishes use call → v.rewriter.GainsOnce use call
  /-- There are no labels for key frames and global styles. -/
  labelled : ∀ e ∈ v.table, ∀ label, e.2.treatment = .styles label →
    ∃ name, v.decl.binding? name = some e.1 ∧
      (label = false ↔ name = "keyframes" ∨ name = "injectGlobal")
  /-- The rewrites behind it only carry the calls along, unless a later declaration has a binding
  that keeps its name. -/
  carried : (∀ e ∈ v.table, e.2.replacement = none → ∀ w ∈ later, e.1 ∉ w.decl.bindings) →
    List.SublistForall₂
      (fun use out => ∃ call, v.rewriter.Finishes use call ∧
        CarriedBy (later.map Visit.rewriter) call out)
      (v.module.uses v.table) m'.applications

namespace Visit.IsReady

variable {v : Visit} (hv : v.IsReady info)

include hv

/-- **No template is left behind a tag that makes a style.** -/
theorem none_left {h : Head} {tag template : Node}
    (hmem : .inner .tagged h [tag, template] ∈ v.rewritten.applications) :
    v.table.takesLabel? tag = none := by
  rw [v.rewritten_eq] at hmem
  exact v.rewriter.takesLabel?_of_mem_module hv.ready.shaped (fun _ _ => hv.get?_of_replacement?)
    hmem

/-- No template is left behind a style that a visit has injected. -/
theorem none_replaced {h : Head} {tag template : Node}
    (hmem : .inner .tagged h [tag, template] ∈ v.rewritten.applications) {e : Id × Target}
    (he : e ∈ v.table) {y : Ident} (hy : e.2.replacement = some y)
    (hstyled : ∀ t, e.2.treatment = .styled t →
      info.recipe? t.importPath ≠ some (.emotion t.importPath)) :
    (Targets.only y e.2.treatment).takesLabel? tag = none := by
  obtain ⟨r, name, i, hrecipe, hdeals, ht, hi, hruntime, rfl⟩ := hv.exists_of_replacement he hy
  rcases Recipe.treatment_eq_or hrecipe hdeals hruntime with hkey | ⟨-, -, -, hplain⟩
  · rw [ht, hkey] at hstyled ⊢
    exact hv.templates i hi (FileInfo.tells hstyled) h tag template hmem
  · rw [ht, hplain]
    exact Targets.takesLabel?_only_plain i.binding tag

/-- Styles are labelled exactly if they are neither key frames nor global. -/
theorem labelled {e : Id × Target} (he : e ∈ v.table) {label : Bool}
    (hlabel : e.2.treatment = .styles label) :
    ∃ name, v.decl.binding? name = some e.1 ∧
      (label = false ↔ name = "keyframes" ∨ name = "injectGlobal") := by
  obtain ⟨r, name, rf, -, hbinding, hentry⟩ := hv.entry he
  rw [hentry.treatment] at hlabel
  exact ⟨name, hbinding, Recipe.treatment_eq_styles hentry.deals hlabel⟩

/-- What the targets are called by afterwards is no target of a later declaration. -/
theorem spares {w : Visit} (hw : w.decl ∈ v.module.imports)
    (hkept : ∀ e ∈ v.table, e.2.replacement = none → e.1 ∉ w.decl.bindings) :
    w.rewriter.Spares (· ∈ v.table.results) := by
  intro x hx
  obtain ⟨e, he, hid⟩ := List.mem_map.1 (of_decide_eq_true hx)
  rw [Option.eq_none_iff_forall_ne_some]
  intro t hget
  have hbinding : x.id ∈ w.decl.bindings := w.fst_mem_bindings (Targets.mem_of_get? hget)
  rw [← hid] at hbinding
  cases hy : e.2.replacement with
  | none =>
    rw [hy] at hbinding
    exact hkept e he hy hbinding
  | some y =>
    rw [hy] at hbinding
    exact hv.not_mem_bindings he hy hw hbinding

/-- **One declaration and those behind it.** -/
theorem expandsOnce {later : List Visit} {m₁ m' : Module} {s₁ s' : FileState}
    (hrest : Loops i m₁ s₁ later m' s') (happs : m₁.applications = v.rewritten.applications)
    (hshaped : m₁.wellShaped true = true) (hsub : m₁.imports ⊆ v.module.imports) :
    v.ExpandsOnce later m' where
  none_left _ _ _ := hv.none_left
  none_replaced _ _ _ hmem _ he _ hy hstyled :=
    hv.none_replaced hmem he hy (hv.ready.info_eq ▸ hstyled)
  finished := by
    rw [v.rewritten_eq]
    exact v.rewriter.finishes_module hv.ready.shaped v.state.targets
  gains _ _ := Rewriter.Finishes.gainsOnce
  labelled _ he _ := hv.labelled he
  carried hkept := by
    have hfinished := v.rewriter.finishes_module hv.ready.shaped v.state.targets
    have hcalls := sublistForall₂_filter (fun _ _ h => h.isCallOf) hfinished
    have hspares : ∀ w ∈ later, w.rewriter.Spares (· ∈ v.rewriter.targets.results) :=
      fun w hw => hv.spares (hsub (hrest.decl_mem hw)) fun e he hy => hkept e he hy w hw
    rw [← v.rewritten_eq, ← happs] at hcalls
    exact sublistForall₂_comp hcalls (hrest.carries hshaped hspares)

end Visit.IsReady

/-- **Each use is expanded once over the whole loop**: by the visit of its declaration, and the
visits after it carry the call along. -/
theorem Loops.expandsOnce (h : Loops i m s vs m' s') (hready : Ready true info m s)
    (hsettled : Settled info m s.imports) :
    ∀ before v later, vs = before ++ v :: later → v.ExpandsOnce later m' := by
  induction h with
  | done =>
    intro before v later h
    exact absurd h (by simp)
  | pass _ _ ih => exact ih hready hsettled
  -- The first visit is told from what holds now, any later one from the induction.
  | @remove i m m' s s' d vs hi ho hrest ih =>
    let v : Visit := ⟨d, m, s⟩
    have hv : v.IsReady info :=
      ⟨hready, hsettled, Module.mem_imports.2 (List.mem_of_getElem? hi)⟩
    have hdrops := v.drops_removed hi
    have hnext := hv.spec.1.drop hdrops
    intro before w later hvs
    cases before with
    | nil =>
      cases hvs
      exact hv.expandsOnce hrest (applications_of_drops hdrops) hnext.shaped
        (v.imports_rewritten ▸ imports_subset_of_drops hdrops)
    | cons _ before =>
      cases hvs
      exact ih hnext (hv.settled_rewritten.drop hdrops) before w later rfl
  | @stay i m m' s s' d vs hi ho hrest ih =>
    let v : Visit := ⟨d, m, s⟩
    have hv : v.IsReady info :=
      ⟨hready, hsettled, Module.mem_imports.2 (List.mem_of_getElem? hi)⟩
    intro before w later hvs
    cases before with
    | nil =>
      cases hvs
      exact hv.expandsOnce hrest rfl hv.spec.1.shaped
        (v.imports_rewritten ▸ List.Subset.refl _)
    | cons _ before =>
      cases hvs
      exact ih hv.spec.1 hv.settled_rewritten before w later rfl

/-- **Every use of a style is expanded exactly once.** -/
theorem module_expandsOnce (o : Options) (env : FileEnv) {m : Module}
    (hm : m.wellShaped true = true) :
    let s := FileState.ofProgram o env (.module m)
    ∃ vs, Loops 0 m s vs (module m s).1.2 (module m s).2 ∧ vs.map Visit.decl = m.imports ∧
      ∀ before v later, vs = before ++ v :: later → v.ExpandsOnce later (module m s).1.2 := by
  intro s
  obtain ⟨vs, -, hloop⟩ := loops_remaining (m := m) (s := s) m.body.length (Nat.le_refl _)
  rw [Nat.sub_self] at hloop
  exact ⟨vs, hloop, hloop.map_decl,
    hloop.expandsOnce (ready_ofProgram o env hm) (settled_empty _ m)⟩

/-! ### Modules with styles -/

/-- The declaration `import css from "@emotion/css";`. -/
def importsCss : ImportDecl :=
  ⟨Span.dummy, [.default Span.dummy ⟨Span.dummy, 2, "css", false⟩],
    ⟨Span.dummy, "@emotion/css", none⟩, .absent, false, "evaluation"⟩

/-- A template behind the tag `css`, with texts around its expressions. -/
def cssTemplate (expressions : List Node) (texts : List String) : Node :=
  .tagged Head.empty (.ident .reference ⟨Span.dummy, 2, "css", false⟩) Head.empty expressions
    (texts.map fun text => .leaf (.quasi ⟨Span.dummy, false, some text, text⟩))

/-- A module with some imports and expressions. -/
def moduleOf (imports : List ImportDecl) (expressions : List Node) : Module where
  head := Head.empty
  body := imports.map .importing ++
    expressions.map fun e => .node (.inner .expressionStatement Head.empty [e])

/-- The module ``import css from "@emotion/css"; css`color: ${css`red`};`;``. -/
def nestedCss : Module :=
  moduleOf [importsCss] [cssTemplate [cssTemplate [] ["red"]] ["color: ", ";"]]

/-- Two declarations of the same library and a `css` template inside another one. -/
theorem nestedCss_expandsOnce :
    nestedCss.wellShaped true = true ∧
      let s := FileState.ofProgram {} ⟨none, "", none⟩ (.module nestedCss)
      ∃ vs, Loops 0 nestedCss s vs (module nestedCss s).1.2 (module nestedCss s).2 ∧
        vs.map Visit.decl = nestedCss.imports ∧
        ∀ before v later, vs = before ++ v :: later →
          v.ExpandsOnce later (module nestedCss s).1.2 :=
  ⟨by decide, module_expandsOnce {} ⟨none, "", none⟩ (by decide)⟩

/-- The declaration ``import "x" with { a: css`b` };``. -/
def importsWith : ImportDecl :=
  ⟨Span.dummy, [], ⟨Span.dummy, "x", none⟩,
    .object Head.empty [.keyValue Head.empty (Build.word "a") (cssTemplate [] ["b"])], false,
    "evaluation"⟩

/-- The module ``import css from "@emotion/css"; import "x" with { a: css`b` }; css;``. -/
def attributeCss : Module :=
  moduleOf [importsCss, importsWith] [.ident .reference ⟨Span.dummy, 2, "css", false⟩]

/-- The module `const a = css("x");` behind `import { css } from "@emotion/core";` twice. -/
def coreTwice : Module :=
  let css : Ident := ⟨Span.dummy, 2, "css", false⟩
  let d : ImportDecl := ⟨Span.dummy, [.named Span.dummy css none false],
    ⟨Span.dummy, "@emotion/core", none⟩, .absent, false, "evaluation"⟩
  ⟨Head.empty, [.importing d, .importing d,
    .node (Build.declaration ⟨Span.dummy, 2, "a", false⟩
      (Build.call Span.dummy (Build.reference css) [Build.textArgument "x"]))]⟩

/-- A template with two expressions and one text. -/
def shortTemplate : Module :=
  moduleOf [importsCss]
    [cssTemplate [.ident .reference ⟨Span.dummy, 2, "css", false⟩, cssTemplate [] ["b"]] ["a"]]

/-- Whether an argument is a label. -/
def isLabelArgument : Node → Bool
  | .argument _ (.text s) => "label:".toList.isPrefixOf s.value.toList
  | _ => false

/-- How many labels a call has. -/
def labelCount : Node → Nat
  | .call _ _ args => args.countP isLabelArgument
  | _ => 0

/-- **What is not expanded once.**  Templates in the attributes of an import are left; a style that
keeps its name gets a second label from a second declaration of it; and a template with too few
texts loses the styles among its expressions. -/
theorem not_forall_expandsOnce :
    (¬∀ (o : Options) (env : FileEnv) (m : Module) (d : ImportDecl),
        m.wellShaped true = true → m.body.head? = some (.importing d) →
        let v : Visit := ⟨d, m, FileState.ofProgram o env (.module m)⟩
        ∀ e ∈ v.rewritten.imports, ∀ h tag template,
          .inner .tagged h [tag, template] ∈ e.attributes.applications →
            v.table.takesLabel? tag = none) ∧
      (¬∀ (o : Options) (env : FileEnv) (m : Module),
        m.wellShaped true = true → (∀ n ∈ m.applications, labelCount n = 0) →
        ∀ n ∈ (module m (FileState.ofProgram o env (.module m))).1.2.applications,
          labelCount n ≤ 1) ∧
      ¬∀ (o : Options) (env : FileEnv) (m : Module) (d : ImportDecl),
        m.body.head? = some (.importing d) →
        let v : Visit := ⟨d, m, FileState.ofProgram o env (.module m)⟩
        List.SublistForall₂ v.rewriter.Finishes (m.uses v.table) v.rewritten.applications := by
  refine ⟨fun h => ?_, fun h => ?_, fun h => ?_⟩
  · let v : Visit := ⟨importsCss, attributeCss,
      FileState.ofProgram {} ⟨none, "", none⟩ (.module attributeCss)⟩
    have hmem : importsWith ∈ v.rewritten.imports := by
      rw [v.imports_rewritten]
      exact List.mem_cons_of_mem _ (List.mem_cons_self ..)
    have hnone := h {} ⟨none, "", none⟩ attributeCss importsCss (by decide) rfl importsWith hmem
      Head.empty _ _ (List.mem_singleton_self _)
    exact absurd hnone (by decide)
  · exact absurd (h { autoLabel := true } ⟨none, "", none⟩ coreTwice (by decide) (by decide))
      (by decide +kernel)
  · let v : Visit := ⟨importsCss, shortTemplate,
      FileState.ofProgram {} ⟨none, "", none⟩ (.module shortTemplate)⟩
    have hlength : (shortTemplate.uses v.table).length ≤ v.rewritten.applications.length := by
      obtain ⟨image, hall, hsub⟩ := List.sublistForall₂_iff.1
        (h {} ⟨none, "", none⟩ shortTemplate importsCss rfl)
      rw [hall.length_eq]
      exact hsub.length_le
    exact absurd hlength (by decide +kernel)

end ImportPass
end StyleLowering
