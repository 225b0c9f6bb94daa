/-
# The import pass over a recoded module

The import pass deals with the declarations of a recoded module as it does with those of the
module itself: they have the same outcomes, the same declarations leave, and the module and the
state of its file stay recoded (`ImportPass.follows_module`).  A recoding has to suit the
declarations for that: under its new source, a declaration has the recipe that it had under the
old one, recoded.
-/

import StyleLowering.Proofs.File.Recoding
import StyleLowering.Proofs.ImportPass.Cases
import StyleLowering.Proofs.ImportPass.Stages
import StyleLowering.Proofs.Recipe.Collection
import StyleLowering.Proofs.Recipe.Targets
import StyleLowering.Proofs.Rewrite.Renumbering

namespace StyleLowering

open Rewrite Stateful

variable {c : Recoding} {info : FileInfo}

/-! ### References -/

section Renumber

variable (c : Renumbering)

/-- The references of a binding under other numbers. -/
def References.renumber (r : References) : References := { r with binding := r.binding.renumber c }

/-- References under other numbers. -/
def ReferenceMap.renumber (m : ReferenceMap) : ReferenceMap :=
  m.map fun e => (e.1, e.2.renumber c)

namespace ImportSpecifier

variable (s : ImportSpecifier)

/-- The binding of a specifier is renumbered with it. -/
@[simp] theorem binding_renumber : (s.renumber c).binding = s.binding.renumber c := by
  cases s <;> rfl

/-- The name that a specifier imports is no number. -/
@[simp] theorem importedName?_renumber : (s.renumber c).importedName? = s.importedName? := by
  cases s with
  | named span x imported typeOnly =>
    cases imported with
    | none => rfl
    | some e => cases e <;> rfl
  | _ => rfl

/-- A namespace import stays one. -/
@[simp] theorem isStar_renumber : (s.renumber c).isStar = s.isStar := by
  cases s <;> rfl

end ImportSpecifier

namespace ReferenceMap

variable (m : ReferenceMap)

/-- To insert references and to renumber them is one thing in both orders. -/
theorem insert_renumber (name : String) (r : References) :
    (m.renumber c).insert name (r.renumber c) = (m.insert name r).renumber c := by
  induction m with
  | nil => rfl
  | cons e m ih =>
    rw [renumber, List.map_cons, insert, insert]
    dsimp only
    split
    · rfl
    · exact congrArg _ ih

/-- **The references that the specifiers collect are renumbered with them.** -/
theorem collect_renumber (scope : Scope.Index) (ss : List ImportSpecifier) :
    collect (scope.renumber c) (m.renumber c) (ss.map (ImportSpecifier.renumber c)) =
      (collect scope m ss).map (renumber c) := by
  induction ss generalizing m with
  | nil => rfl
  | cons s ss ih =>
    rw [List.map_cons, collect, collect, ImportSpecifier.importedName?_renumber]
    cases s.importedName? with
    | none => exact ih m
    | some name =>
      simp only [ImportSpecifier.binding_renumber, Ident.id_renumber, Scope.Index.sites?_renumber]
      cases scope.sites? s.binding.id with
      | none => rfl
      | some sites =>
        have hrest := ih (m.insert name ⟨s.binding.id, sites⟩)
        rw [← insert_renumber] at hrest
        exact hrest

/-- The used references of a name are renumbered. -/
theorem used?_renumber (name : String) :
    (m.renumber c).used? name = (m.used? name).map (References.renumber c) := by
  have hlookup : (m.renumber c).lookup name = (m.lookup name).map (References.renumber c) := by
    induction m with
    | nil => rfl
    | cons e m ih =>
      rw [renumber, List.map_cons, List.lookup_cons, List.lookup_cons]
      cases name == e.1 with
      | true => rfl
      | false => exact ih
  rw [used?, used?, hlookup]
  cases m.lookup name with
  | none => rfl
  | some r =>
    rw [Option.map_some, Option.filter_some, Option.filter_some]
    change (if r.isUsed then _ else _) = _
    split <;> rfl

/-- The used references are the same ones under other numbers. -/
theorem used_renumber : (m.renumber c).used = m.used.renumber c := by
  rw [used, renumber, List.filter_map]
  rfl

/-- Nothing is used under other numbers if nothing is. -/
theorem all_unused_renumber :
    ((m.renumber c).all fun e => !e.2.isUsed) = m.all fun e => !e.2.isUsed := by
  rw [renumber, List.all_map]
  rfl

end ReferenceMap
end Renumber

/-! ### Recipes -/

/-- **A rewriter works on a recoded module as on the module.** -/
theorem Rewriter.module_recode (r : Rewriter) (m : Module) :
    (r.renumber c).module (m.recode c) = Module.recode c <$> r.module m := by
  have hitem : ∀ i, (r.renumber c).item (i.recode c) = Item.recode c <$> r.item i := by
    intro i
    cases i with
    | importing d => rfl
    | node n => simp [Item.recode, Item.mapSource, Item.renumber, item, node_renumber]
  have hitems : ∀ is, (r.renumber c).items (is.map (Item.recode c)) =
      List.map (Item.recode c) <$> r.items is := by
    intro is
    induction is with
    | nil => rfl
    | cons i is ih => simp [items, hitem, ih]
  simp [module, Module.recode_eq, hitems]

/-- A recipe, recoded. -/
def Recipe.recode (c : Recoding) : Recipe → Recipe
  | .emotion path => .emotion (c.source path)
  | r => r

namespace Recipe

/-- A recipe under other sources keeps the imports that it kept. -/
@[simp] theorem keepsImport_recode (r : Recipe) : (r.recode c).keepsImport = r.keepsImport := by
  cases r <;> rfl

/-- The exports that a recipe may ask for are among those that a recoding has in view. -/
def AsksOnly (c : Recoding) (r : Recipe) (names : List String) : Prop :=
  ∀ path, r = .emotion path → ∀ name ∈ names, c.Asks path (.ofName name)

/-- The targets of a run-time library follow each other. -/
theorem follows_runtimeTargets {path : String} (ts : Targets) {m : ReferenceMap}
    (h : ∀ name ∈ m.map Prod.fst, c.Asks path (.ofName name)) :
    Follows (FileState.Recodes c info) (Targets.renumber c) (runtimeTargets path ts m)
      (runtimeTargets (c.source path) (ts.renumber c) (m.renumber c)) := by
  induction m generalizing ts with
  | nil => exact follows_pure rfl
  | cons e m ih =>
    obtain ⟨name, refs⟩ := e
    rw [List.map_cons, List.forall_mem_cons] at h
    have hinject : Follows (FileState.Recodes c info) (Ident.renumber c)
        (FileState.inject (Injector.addExport · path name))
        (FileState.inject (Injector.addExport · (c.source path) name)) :=
      FileState.follows_inject (Injector.follows_addExport h.1)
    exact hinject.bind fun s => ih _ h.2

/-- A recipe for one export asks for nothing, or makes a target of the binding of that export. -/
theorem follows_used {m : ReferenceMap} {name : String} {f g : References → FileM Targets}
    (h : ∀ r, Follows (FileState.Recodes c info) (Targets.renumber c) (f r) (g (r.renumber c))) :
    Follows (FileState.Recodes c info) (Targets.renumber c)
      (match m.used? name with | some r => f r | none => pure [])
      (match (m.renumber c).used? name with | some r => g r | none => pure []) := by
  rw [m.used?_renumber]
  cases m.used? name with
  | none => exact follows_pure rfl
  | some r => exact h r

/-- A target that is the default export of a library follows its counterpart. -/
theorem follows_default {source hint : String} (ha : c.Asks source .default) (t : Treatment)
    (r : References) :
    Follows (FileState.Recodes c info) (Targets.renumber c)
      (do
        let x ← FileState.inject (Injector.addDefault · source hint)
        return [(r.binding, ⟨some x, t⟩)])
      (do
        let x ← FileState.inject (Injector.addDefault · source hint)
        return [((r.renumber c).binding, ⟨some x, t⟩)]) :=
  (FileState.follows_inject fun scope => Injector.follows_addDefault ha scope hint).bind
    fun _ => follows_pure rfl

/-- **The targets of a recipe follow each other** if it asks for the same exports. -/
theorem follows_targets {r : Recipe} {refs : ReferenceMap}
    (h : r.AsksOnly c (refs.map Prod.fst)) :
    Follows (FileState.Recodes c info) (Targets.renumber c) (r.targets refs)
      ((r.recode c).targets (refs.renumber c)) := by
  cases r with
  | css => exact follows_used (follows_default c.asks_css _)
  | styled t => exact follows_used (follows_default (c.asks_styled t) _)
  | core => exact follows_used fun r => follows_pure rfl
  | emotion path =>
    rw [recode, targets, targets, refs.used_renumber]
    refine follows_runtimeTargets [] fun name hn => ?_
    obtain ⟨e, he, rfl⟩ := List.mem_map.1 hn
    exact h path rfl _ (List.mem_map_of_mem (List.mem_of_mem_filter he))

/-- **Following a recipe** in a recoded module. -/
theorem follows_expand {r : Recipe} {refs : ReferenceMap}
    (h : r.AsksOnly c (refs.map Prod.fst)) (m : Module) :
    Follows (FileState.Recodes c info) (Module.recode c) (r.expand refs true m)
      ((r.recode c).expand (refs.renumber c) true (m.recode c)) := by
  have hprepare : ∀ r : Recipe, r.prepare true = pure ⟨⟩ := fun r => by cases r <;> rfl
  rw [expand, expand, hprepare, hprepare, pure_bind, pure_bind]
  refine (follows_targets h).bind fun s => ?_
  rw [Targets.renumber, List.isEmpty_map]
  split
  · exact follows_pure rfl
  · exact FileState.follows_count fun f => Rewriter.module_recode ⟨f, (r.targets refs s).1⟩ m

end Recipe

/-! ### One declaration -/

/-- The names under which a declaration imports. -/
def ImportDecl.importedNames (d : ImportDecl) : List String :=
  d.specifiers.filterMap (·.importedName?)

/-- A recoding that suits a declaration: under its new source it has the recipe that it had under
the old one, and what that recipe may ask for is in view. -/
structure Recoding.Suits (c : Recoding) (f : FileInfo) (d : ImportDecl) : Prop where
  recipe : f.recipe? (c.source d.source.value) = (f.recipe? d.source.value).map (Recipe.recode c)
  asks : ∀ r, f.recipe? d.source.value = some r → r.AsksOnly c d.importedNames

/-- References have entries for imported names only. -/
theorem ReferenceMap.map_fst_subset_of_collect {scope : Scope.Index} {d : ImportDecl}
    {refs : ReferenceMap} (h : collect scope [] d.specifiers = some refs) :
    refs.map Prod.fst ⊆ d.importedNames := by
  intro name hn
  obtain ⟨⟨_, r⟩, hr, rfl⟩ := List.mem_map.1 hn
  obtain ⟨s, hs, -⟩ := (mem_collect_iff h).1 hr
  obtain ⟨t, ht, hname, -⟩ := ImportDecl.exists_of_binding? (x := s.binding.id)
    (by rw [ImportDecl.binding?_eq_map, hs]; rfl)
  exact List.mem_filterMap.2 ⟨t, ht, hname⟩

namespace ImportPass

variable {s t : FileState} {d : ImportDecl} {m : Module}

/-- Two states that agree still agree once both register their imports. -/
theorem recodes_registered (h : s.Recodes c info t) (d d' : ImportDecl) :
    (registered d s).Recodes c info (registered d' t) := by
  have hregistry := isOf_registered h.registry h.info_eq d
  have hregistry' := isOf_registered h.registry' h.info_eq' d'
  rw [registered_eq d s, registered_eq d' t]
  exact { h with registry := hregistry, registry' := hregistry' }

/-- Two states that agree still agree once both refresh their index. -/
theorem recodes_refreshed (h : s.Recodes c info t) (d d' : ImportDecl) (m : Module) :
    (refreshed d m s).Recodes c info (refreshed d' (m.recode c) t) := by
  have hr := recodes_registered h d d'
  refine { hr with scope := ?_ }
  rw [refreshed, refreshed, hr.scope]
  exact Scope.Index.refresh_recode _ (.module m)

/-- Two states that agree still agree once both rebuild their index. -/
theorem recodes_rebuilt (h : s.Recodes c info t) (d d' : ImportDecl) (m : Module) :
    (rebuilt d m s).Recodes c info (rebuilt d' (m.recode c) t) := by
  have hr := recodes_refreshed h d d' m
  refine { hr with scope := ?_ }
  rw [rebuilt, rebuilt, hr.scope]
  exact Scope.Index.rebuild_recode _ (.module m)

/-- An import finds the references of its counterpart, renumbered. -/
theorem references?_recode (h : s.Recodes c info t) (d : ImportDecl) (m : Module) :
    references? (d.recode c) (m.recode c) t =
      (references? d m s).map (ReferenceMap.renumber c) := by
  rw [references?, references?, (recodes_refreshed h d (d.recode c) m).scope]
  exact ReferenceMap.collect_renumber c [] _ d.specifiers

/-- **One declaration** of a recoded module. -/
theorem follows_importDecl (hd : c.Suits info d) (m : Module) :
    Follows (FileState.Recodes c info) (Prod.map id (Module.recode c)) (importDecl d m)
      (importDecl (d.recode c) (m.recode c)) := by
  intro s t h
  have hstar : (d.recode c).specifiers.any (·.isStar) = d.specifiers.any (·.isStar) := by
    simp [ImportDecl.recode, ImportDecl.renumber, ImportDecl.mapSource, List.any_map,
      Function.comp_def]
  have hrecipe : recipeOf? (d.recode c) t = (recipeOf? d s).map (Recipe.recode c) := by
    rw [recipeOf?_eq (h.info_eq'.symm ▸ h.registry'), recipeOf?_eq (h.info_eq.symm ▸ h.registry),
      h.info_eq, h.info_eq']
    exact hd.recipe
  rw [importDecl_apply, importDecl_apply, hrecipe, hstar, references?_recode h]
  cases hr : recipeOf? d s with
  | none => exact ⟨rfl, recodes_registered h _ _⟩
  | some recipe =>
    dsimp only [Option.map_some]
    split
    · exact ⟨rfl, recodes_registered h _ _⟩
    cases hrefs : references? d m s with
    | none => exact ⟨rfl, recodes_refreshed h _ _ m⟩
    | some refs =>
      dsimp only [Option.map_some]
      rw [ReferenceMap.all_unused_renumber]
      split
      · exact ⟨rfl, recodes_refreshed h _ _ m⟩
      have hasks : recipe.AsksOnly c (refs.map Prod.fst) := by
        rw [recipeOf?_eq (h.info_eq.symm ▸ h.registry), h.info_eq] at hr
        exact fun path hpath name hn =>
          hd.asks recipe hr path hpath name (ReferenceMap.map_fst_subset_of_collect hrefs hn)
      have hrebuilt := recodes_rebuilt h d (d.recode c) m
      obtain ⟨hresult, hstate⟩ := Recipe.follows_expand hasks m hrebuilt
      refine ⟨?_, (FileState.follows_invalidate hstate).2⟩
      rw [hresult, Recipe.keepsImport_recode]
      rfl

/-- To expand an import leaves the list of imports as it is. -/
theorem imports_importDecl (d : ImportDecl) (m : Module) (s : FileState) :
    (importDecl d m s).1.2.imports = m.imports := by
  rw [(deals_importDecl d m s).rewritten.module]
  exact (Rewriter.keepsImports_module _ m s.targets).imports

/-! ### The loop -/

/-- **The loop over the imports follows its counterpart**, as long as every import suits the
renumbering. -/
theorem follows_remaining (n : Nat) {m : Module} (h : ∀ d ∈ m.imports, c.Suits info d) :
    Follows (FileState.Recodes c info) (Prod.map id (Module.recode c)) (remaining n m)
      (remaining n (m.recode c)) := by
  induction n generalizing m with
  | zero => exact follows_pure rfl
  | succ n ih =>
    -- The items stand at the same places, so both runs look at the same one.
    have hitem : (m.recode c).body[(m.recode c).body.length - (n + 1)]? =
        (m.body[m.body.length - (n + 1)]?).map (Item.recode c) := by
      rw [Module.body_recode, List.length_map, List.getElem?_map]
    rw [remaining, remaining]
    dsimp only
    rw [hitem]
    cases hi : m.body[m.body.length - (n + 1)]? with
    | none => exact ih h
    | some i =>
      cases i with
      | node t => exact ih h
      | importing d =>
        have hd : d ∈ m.imports := Module.mem_imports.2 (List.mem_of_getElem? hi)
        refine (follows_importDecl (h d hd) m).bind fun s => ?_
        have himports := imports_importDecl d m s
        generalize importDecl d m s = p at himports ⊢
        obtain ⟨⟨o, m₁⟩, s₁⟩ := p
        dsimp only [Prod.map, id] at himports ⊢
        split
        · have herase : (⟨(m₁.recode c).head,
              (m₁.recode c).body.eraseIdx ((m.recode c).body.length - (n + 1))⟩ : Module) =
                Module.recode c ⟨m₁.head, m₁.body.eraseIdx (m.body.length - (n + 1))⟩ := by
            simp [Module.recode_eq, List.eraseIdx_map]
          have hleft : ∀ d' ∈ Module.imports
              ⟨m₁.head, m₁.body.eraseIdx (m.body.length - (n + 1))⟩, c.Suits info d' := by
            intro d' hd'
            exact h d' (himports ▸ ((List.eraseIdx_sublist _ _).filterMap _).subset hd')
          rw [herase]
          exact FileState.follows_invalidate.bind fun _ =>
            (ih hleft).bind fun t => follows_pure rfl
        · exact (ih (himports ▸ h)).bind fun t => follows_pure rfl

/-- **The import pass** over a recoded module. -/
theorem follows_module {m : Module} (h : ∀ d ∈ m.imports, c.Suits info d) :
    Follows (FileState.Recodes c info) (Prod.map id (Module.recode c)) (module m)
      (module (m.recode c)) := by
  have hremaining := follows_remaining m.body.length h
  rw [module, module, Module.body_recode, List.length_map]
  exact hremaining

end ImportPass
end StyleLowering
