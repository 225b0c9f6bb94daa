/-
# The scope index on the way through a module

The pass looks at the scope index for some declarations only: those whose source has a recipe and
that do not import everything at once (`FileInfo.consults`).  A stale index is taken anew before
it is looked at, and whatever changes the module leaves a stale index behind.  So the index that
is looked at declares the bindings of all imports that are still in the module, and no
declaration is skipped because one of its bindings is unknown (`ImportPass.module_resolves`).

It also tells how often the index is taken (`ImportPass.module_rebuilds`): once when the module is
entered, once for each declaration that is expanded, as a guard against changes nobody told of,
and once for each declaration that looks at the index right behind an expanded one.
-/

import StyleLowering.Proofs.ImportPass.Loop
import StyleLowering.Proofs.ImportPass.Steps
import StyleLowering.Proofs.Recipe.Collection

namespace StyleLowering

open Stateful

/-- Whether the recipe of a declaration was followed. -/
def Outcome.isExpanded : Outcome → Bool
  | .expanded _ => true
  | _ => false

/-- Whether the pass looks at the scope index for a declaration. -/
def FileInfo.consults (f : FileInfo) (d : ImportDecl) : Bool :=
  (f.recipe? d.source.value).isSome && !d.specifiers.any (·.isStar)

/-- The bindings of an import declaration are declared in its module. -/
theorem Module.mem_declaredOf_binding {m : Module} {d : ImportDecl} (hd : d ∈ m.imports)
    {s : ImportSpecifier} (hs : s ∈ d.specifiers) :
    s.binding.id ∈ Scope.Index.declaredOf m.mentions := by
  have hmention : (⟨.binding, s.binding⟩ : Mention) ∈ m.mentions :=
    Module.mem_mentions.2 (.inr ⟨d, hd, List.mem_append_left _ (List.mem_map_of_mem hs)⟩)
  exact List.mem_map.2 ⟨_, List.mem_filter.2 ⟨hmention, rfl⟩, rfl⟩

namespace Scope.Index

variable (i : Index) (p : Program)

/-- To take the index again is one more generation. -/
@[simp] theorem generation_rebuild : (i.rebuild p).generation = i.generation + 1 := rfl

/-- An index that is looked at is taken anew if it is stale. -/
theorem generation_refresh : (i.refresh p).generation = i.generation + i.stale.toNat := by
  unfold refresh
  split
  · next hs => rw [hs, generation_rebuild, Bool.toNat_true]
  · next hs => rw [Bool.eq_false_iff.2 hs, Bool.toNat_false, Nat.add_zero]

end Scope.Index

namespace ImportPass

variable {i : Nat} {m m' : Module} {s s' : FileState} {vs : List Visit} (v : Visit)

/-! ### What the index knows -/

namespace Visit

/-- The scope index as it is looked at. -/
def index : Scope.Index := v.state.scope.refresh (.module v.module)

/-- The index that is looked at declares the bindings of all imports in the module. -/
def KnowsImports : Prop :=
  ∀ d ∈ v.module.imports, ∀ s ∈ d.specifiers, s.binding.id ∈ v.index.declared

variable {v}

/-- An index that is up to date or stale knows the imports of the module. -/
theorem knowsImports_of_isCurrent (h : v.state.scope.IsCurrent (.module v.module)) :
    v.KnowsImports := by
  intro d hd s hs
  rw [index, (Scope.Index.declared_refresh h).1]
  exact Module.mem_declaredOf_binding hd hs

/-- If the bindings are known, there are references. -/
theorem KnowsImports.exists_references (h : v.KnowsImports) (hd : v.decl ∈ v.module.imports) :
    ∃ refs, references? v.decl v.module v.state = some refs := by
  have hscope : (refreshed v.decl v.module v.state).scope = v.index := by
    rw [refreshed, scope_registered, index]
  obtain ⟨refs, hrefs⟩ := ReferenceMap.exists_collect [] (h v.decl hd)
  exact ⟨refs, by rw [references?, hscope, hrefs]⟩

/-- **One declaration.**  It is not skipped because of its bindings if they are known. -/
theorem KnowsImports.outcome_ne (h : v.KnowsImports) (hd : v.decl ∈ v.module.imports) :
    v.outcome ≠ .skipped .unresolvedBinding := by
  obtain ⟨refs, hrefs⟩ := h.exists_references hd
  obtain ⟨d, m, s⟩ := v
  refine importDecl_cases d m s (P := fun p => p.1.1 ≠ .skipped .unresolvedBinding) ?_ ?_ ?_ ?_ ?_
  · exact fun _ => nofun
  · exact fun _ _ _ => nofun
  · exact fun _ _ _ hnone => absurd (hnone.symm.trans hrefs) nofun
  · exact fun _ _ _ _ _ _ => nofun
  · exact fun _ _ _ _ _ _ => nofun

end Visit

/-- **The index through the loop.**  Whenever a declaration is dealt with, it stands in the module,
and the index is that of the module or marked as stale. -/
theorem Loops.isCurrent (h : Loops i m s vs m' s') (hs : s.scope.IsCurrent (.module m)) :
    ∀ v ∈ vs, v.decl ∈ v.module.imports ∧ v.state.scope.IsCurrent (.module v.module) := by
  induction h with
  | done _ => exact fun v hv => absurd hv List.not_mem_nil
  | pass _ _ ih => exact ih hs
  | @remove i m m' s s' d vs hi _ _ ih =>
    rw [List.forall_mem_cons]
    exact ⟨⟨Module.mem_imports.2 (List.mem_of_getElem? hi), hs⟩, ih (.inl rfl)⟩
  | @stay i m m' s s' d vs hi _ _ ih =>
    rw [List.forall_mem_cons]
    exact ⟨⟨Module.mem_imports.2 (List.mem_of_getElem? hi), hs⟩, ih (isCurrent_importDecl d hs)⟩

/-- **All bindings are known.**  In a run over a module, the index that is looked at for a
declaration always declares the bindings of all imports that are still there, so no declaration
is skipped because one of its bindings is unknown. -/
theorem module_resolves (o : Options) (env : FileEnv) (m : Module) :
    let s := FileState.ofProgram o env (.module m)
    ∃ vs, Loops 0 m s vs (module m s).1.2 (module m s).2 ∧
      (module m s).1.1 = vs.map Visit.outcome ∧ (∀ v ∈ vs, v.KnowsImports) ∧
      .skipped .unresolvedBinding ∉ (module m s).1.1 := by
  intro s
  have hentered : s.scope.IsCurrent (.module m) := .inr ⟨rfl, rfl⟩
  obtain ⟨vs, houtcomes, hloop⟩ := loops_module m s
  have hvisits := hloop.isCurrent hentered
  refine ⟨vs, hloop, houtcomes, fun v hv => Visit.knowsImports_of_isCurrent (hvisits v hv).2,
    fun hmem => ?_⟩
  rw [houtcomes] at hmem
  obtain ⟨v, hv, houtcome⟩ := List.mem_map.1 hmem
  obtain ⟨hdecl, hcurrent⟩ := hvisits v hv
  exact (Visit.knowsImports_of_isCurrent hcurrent).outcome_ne hdecl houtcome

/-! ### How often the index is taken -/

/-- A state with what is known of a file. -/
structure KnowsFile (f : FileInfo) (s : FileState) : Prop where
  info_eq : s.info = f
  registry : s.registry.IsOf f

variable {f : FileInfo}

/-- What is known of a file is still known when a recipe has been registered. -/
theorem KnowsFile.registered (h : KnowsFile f s) (d : ImportDecl) : KnowsFile f (registered d s) :=
  ⟨(info_registered d s).trans h.info_eq, isOf_registered h.registry h.info_eq d⟩

/-- The recipe of a declaration is the one that its file has for its source. -/
theorem KnowsFile.recipeOf?_eq {s : FileState} (h : KnowsFile f s) (d : ImportDecl) :
    recipeOf? d s = f.recipe? d.source.value := by
  rw [← h.info_eq]
  exact ImportPass.recipeOf?_eq (h.info_eq.symm ▸ h.registry) d

/-- Following a recipe changes nothing of what is known of the file. -/
theorem KnowsFile.importDecl (h : KnowsFile f s) (d : ImportDecl) (m : Module) :
    KnowsFile f (importDecl d m s).2 := by
  have hregistered := h.registered d
  have hrefreshed : KnowsFile f (refreshed d m s) := ⟨hregistered.info_eq, hregistered.registry⟩
  refine importDecl_cases d m s (P := fun p => KnowsFile f p.2) (fun _ => hregistered)
    (fun _ _ _ => hregistered) (fun _ _ _ _ => hrefreshed) (fun _ _ _ _ _ _ => hrefreshed)
    fun recipe refs _ _ _ _ => ?_
  obtain ⟨m', targets, he, -⟩ := recipe.expand_apply refs m (rebuilt d m s)
  dsimp only
  rw [he, recipe.snd_targets]
  exact ⟨hregistered.info_eq, hregistered.registry⟩

/-- What dealing with a declaration does to the index, if `consults` says whether it is looked
at. -/
structure Guards (consults : Bool) (i : Scope.Index) (o : Outcome) (i' : Scope.Index) : Prop where
  /-- It is not looked at for a declaration without a recipe, nor for one that imports everything
  at once. -/
  consults_iff : consults = false ↔ o = .noRecipe ∨ o = .skipped .starImport
  ignored : consults = false → i' = i
  /-- Otherwise it is taken anew if it is stale, and once more if the declaration is expanded. -/
  generation : consults = true →
    i'.generation = i.generation + i.stale.toNat + o.isExpanded.toNat
  stale : consults = true → i'.stale = o.isExpanded

/-- **One declaration.** -/
theorem guards_importDecl (hs : KnowsFile f s) (d : ImportDecl) (m : Module) :
    Guards (f.consults d) s.scope (importDecl d m s).1.1 (importDecl d m s).2.scope := by
  have hrecipe := hs.recipeOf?_eq d
  have hrefresh : (refreshed d m s).scope = s.scope.refresh (.module m) := by
    rw [refreshed, scope_registered]
  have hconsults : ∀ r, recipeOf? d s = some r → d.specifiers.any (·.isStar) = false →
      f.consults d = true := by
    intro r hr hstar
    rw [FileInfo.consults, ← hrecipe, hr, hstar]
    rfl
  -- Three things can happen to the index: it is not looked at, it is refreshed, or it is refreshed
  -- and taken again.
  have hignored : ∀ o, f.consults d = false → (o = .noRecipe ∨ o = .skipped .starImport) →
      Guards (f.consults d) s.scope o (registered d s).scope := by
    intro o hc ho
    rw [hc, scope_registered]
    exact ⟨iff_of_true rfl ho, fun _ => rfl, fun h => absurd h Bool.false_ne_true,
      fun h => absurd h Bool.false_ne_true⟩
  have hskipped : ∀ reason, f.consults d = true → reason ≠ .starImport →
      Guards (f.consults d) s.scope (.skipped reason) (refreshed d m s).scope := by
    intro reason hc hne
    rw [hc, hrefresh]
    refine ⟨iff_of_false Bool.false_ne_true.symm ?_, fun h => absurd h.symm Bool.false_ne_true,
      fun _ => Scope.Index.generation_refresh .., fun _ => Scope.Index.stale_refresh ..⟩
    rintro (h | h)
    · cases h
    · exact hne (Outcome.skipped.inj h)
  refine importDecl_cases d m s
    (P := fun p => Guards (f.consults d) s.scope p.1.1 p.2.scope) ?_ ?_ ?_ ?_ ?_
  · intro hnone
    have hc : f.consults d = false := by rw [FileInfo.consults, ← hrecipe, hnone]; rfl
    exact hignored .noRecipe hc (.inl rfl)
  · intro r _ hstar
    have hc : f.consults d = false := by rw [FileInfo.consults, hstar]; exact Bool.and_false _
    exact hignored (.skipped .starImport) hc (.inr rfl)
  · exact fun r hr hstar _ => hskipped _ (hconsults r hr hstar) (by decide)
  · exact fun r refs hr hstar _ _ => hskipped _ (hconsults r hr hstar) (by decide)
  · intro r refs hr hstar _ _
    obtain ⟨m', targets, he, -⟩ := r.expand_apply refs m (rebuilt d m s)
    have hscope : (r.expand refs true m (rebuilt d m s)).2.scope = (rebuilt d m s).scope := by
      rw [he, r.snd_targets]
    have hgeneration : (rebuilt d m s).scope.generation =
        s.scope.generation + s.scope.stale.toNat + 1 := by
      rw [rebuilt, Scope.Index.generation_rebuild, hrefresh, Scope.Index.generation_refresh]
    rw [hconsults r hr hstar]
    refine ⟨iff_of_false Bool.false_ne_true.symm (by rintro (h | h) <;> cases h),
      fun h => absurd h.symm Bool.false_ne_true, fun _ => ?_, fun _ => rfl⟩
    exact (congrArg Scope.Index.generation hscope).trans hgeneration

/-- How often a stale index is looked at in some visits, if `stale` says whether it is stale to
begin with. -/
def refreshes (f : FileInfo) (stale : Bool) (vs : List Visit) : Nat :=
  let flags := (vs.filter (f.consults ·.decl)).map (·.outcome.isExpanded)
  ((stale :: flags).zip flags).countP Prod.fst

/-- A visit that consults a stale index takes it again, and passes on whether it is stale. -/
theorem refreshes_cons (f : FileInfo) (stale : Bool) (v : Visit) (vs : List Visit) :
    refreshes f stale (v :: vs) =
      if f.consults v.decl then stale.toNat + refreshes f v.outcome.isExpanded vs
      else refreshes f stale vs := by
  unfold refreshes
  rw [List.filter_cons]
  split
  · dsimp only
    rw [List.map_cons, List.zip_cons_cons, List.countP_cons, Nat.add_comm]
    cases stale <;> rfl
  · rfl

/-- The visits and a last index behind them: what is counted is how often it has been taken. -/
theorem Guards.cons {v : Visit} {vs : List Visit} {t u : Scope.Index}
    (h : Guards (f.consults v.decl) v.state.scope v.outcome v.after.scope)
    (ht : t.generation = v.after.scope.generation)
    (hstale : t.stale = v.after.scope.stale)
    (hrest : u.generation = t.generation + vs.countP (·.outcome.isExpanded) +
      refreshes f t.stale vs) :
    u.generation = v.state.scope.generation + (v :: vs).countP (·.outcome.isExpanded) +
      refreshes f v.state.scope.stale (v :: vs) := by
  rw [hrest, ht, hstale, refreshes_cons, List.countP_cons]
  cases hc : f.consults v.decl with
  | true =>
    have hgeneration := h.generation hc
    rw [hgeneration, h.stale hc, if_pos rfl]
    cases v.outcome.isExpanded <;> simp <;> omega
  | false =>
    have hexpanded : v.outcome.isExpanded = false := by
      rcases h.consults_iff.1 hc with ho | ho <;> rw [ho] <;> rfl
    rw [h.ignored hc, hexpanded, if_neg Bool.false_ne_true, if_neg Bool.false_ne_true,
      Nat.add_zero]

/-- **The loop.**  What each declaration does to the index, and how often it is taken in all. -/
theorem Loops.guards (h : Loops i m s vs m' s') (hs : KnowsFile f s) :
    (∀ v ∈ vs, Guards (f.consults v.decl) v.state.scope v.outcome v.after.scope) ∧
      s'.scope.generation = s.scope.generation + vs.countP (·.outcome.isExpanded) +
        refreshes f s.scope.stale vs := by
  induction h with
  | done _ => exact ⟨fun v hv => absurd hv List.not_mem_nil, rfl⟩
  | pass _ _ ih => exact ih hs
  | @remove i m m' s s' d vs hi ho _ ih =>
    have hguards := guards_importDecl hs d m
    have hknows := hs.importDecl d m
    obtain ⟨hrest, hcount⟩ := ih ⟨hknows.info_eq, hknows.registry⟩
    -- a declaration that is taken out was expanded, so its index is stale already
    have hconsults : f.consults d = true := by
      rw [← Bool.not_eq_false, hguards.consults_iff]
      change ¬(Visit.outcome ⟨d, m, s⟩ = _ ∨ Visit.outcome ⟨d, m, s⟩ = _)
      rw [ho]
      exact nofun
    have hstale : Scope.Index.stale (FileState.invalidate (Visit.after ⟨d, m, s⟩)).2.scope =
        (Visit.after ⟨d, m, s⟩).scope.stale :=
      ((hguards.stale hconsults).trans (congrArg Outcome.isExpanded ho)).symm
    rw [List.forall_mem_cons]
    refine ⟨⟨hguards, hrest⟩, Guards.cons (v := ⟨d, m, s⟩) hguards ?_ hstale hcount⟩
    rfl
  | @stay i m m' s s' d vs hi ho _ ih =>
    have hguards := guards_importDecl hs d m
    obtain ⟨hrest, hcount⟩ := ih (hs.importDecl d m)
    rw [List.forall_mem_cons]
    exact ⟨⟨hguards, hrest⟩, Guards.cons (v := ⟨d, m, s⟩) hguards rfl rfl hcount⟩

/-- The flags of a list, each counted where it stands in front of another element. -/
theorem countP_zip_map {α : Type} (e : α → Bool) (as : List α) :
    ((false :: as.map e).zip (as.map e)).countP Prod.fst = (as.zip as.tail).countP (e ·.1) := by
  cases as with
  | nil => rfl
  | cons a as =>
    rw [List.map_cons, List.zip_cons_cons, List.countP_cons_of_neg Bool.false_ne_true,
      ← List.map_cons, List.zip_map, List.countP_map, List.tail_cons]
    rfl

/-- What a run over a module does to the index: for each declaration, and in all. -/
structure Rebuilds (f : FileInfo) (log : List (ImportDecl × Outcome)) (vs : List Visit)
    (generation : Nat) : Prop where
  /-- The log has the declarations of the module and their outcomes, in their order. -/
  log_eq : log = vs.map fun v => (v.decl, v.outcome)
  guards : ∀ v ∈ vs, Guards (f.consults v.decl) v.state.scope v.outcome v.after.scope
  /-- The index is taken when the module is entered, for each declaration that is expanded, and for
  each one that looks at it behind an expanded one, the declarations in between that do not look
  at it left aside. -/
  generation_eq :
    let looking := log.filter (f.consults ·.1)
    generation = 1 + log.countP (·.2.isExpanded) +
      (looking.zip looking.tail).countP (·.1.2.isExpanded)

/-- **How often the index is taken.** -/
theorem module_rebuilds (o : Options) (env : FileEnv) (m : Module) :
    let s := FileState.ofProgram o env (.module m)
    ∃ vs, Loops 0 m s vs (module m s).1.2 (module m s).2 ∧
      (m.imports.zip (module m s).1.1).map Prod.fst = m.imports ∧
      Rebuilds s.info (m.imports.zip (module m s).1.1) vs (module m s).2.scope.generation := by
  intro s
  have hentered : KnowsFile s.info s := ⟨rfl, Registry.isOf_builtin s.info⟩
  obtain ⟨vs, houtcomes, hloop⟩ := loops_module m s
  have hdecls : vs.map Visit.decl = m.imports := hloop.map_decl
  have hlog : m.imports.zip (module m s).1.1 = vs.map fun v => (v.decl, v.outcome) := by
    rw [houtcomes, ← hdecls, List.zip_map']
  obtain ⟨hguards, hgeneration⟩ := hloop.guards hentered
  refine ⟨vs, hloop, ?_, hlog, hguards, ?_⟩
  · rw [hlog, List.map_map]
    exact hdecls
  · have hrefreshes : refreshes s.info false vs =
        ((vs.filter (s.info.consults ·.decl)).zip
          (vs.filter (s.info.consults ·.decl)).tail).countP (·.1.outcome.isExpanded) :=
      countP_zip_map _ _
    have hfilter : (vs.map fun v => (v.decl, v.outcome)).filter (s.info.consults ·.1) =
        (vs.filter (s.info.consults ·.decl)).map fun v => (v.decl, v.outcome) :=
      List.filter_map ..
    dsimp only
    rw [hlog, hfilter, ← List.map_tail, List.zip_map, List.countP_map, List.countP_map]
    exact hgeneration.trans (congrArg (1 + vs.countP (·.outcome.isExpanded) + ·) hrefreshes)

end ImportPass
end StyleLowering
