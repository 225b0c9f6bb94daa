/-
# The import pass, one declaration after the other

What the pass does to one import declaration (`ImportPass.importDecl_spec`), and
the principle by which what each declaration preserves holds at the end
(`ImportPass.module_induct`).

The index that the pass looks at is always that of the module as it is, because
it is marked as stale after every change and taken anew before it is used.  So
whatever the pass injects is new to the module at that time.
-/

import StyleLowering.Proofs.ImportPass.Cases
import StyleLowering.Proofs.Recipe.Expand

namespace StyleLowering

/-- The recipe of an import source in a file: the one it has from the start, or that of
a configured instance. -/
def FileInfo.recipe? (f : FileInfo) (source : String) : Option Recipe :=
  match Registry.builtin.get? source with
  | some r => some r
  | none => if f.instancePaths.contains (f.resolve source) then some (.emotion source) else none

/-- A registry of the recipes that a file starts with and those of configured instances. -/
structure Registry.IsOf (r : Registry) (f : FileInfo) : Prop where
  builtin : ∀ source recipe, Registry.builtin.get? source = some recipe →
    r.get? source = some recipe
  recipe : ∀ source recipe, r.get? source = some recipe → f.recipe? source = some recipe

/-- A configured instance has a recipe of its own. -/
theorem FileInfo.recipe?_of_mem {f : FileInfo} {source : String}
    (hb : Registry.builtin.get? source = none) (hp : f.resolve source ∈ f.instancePaths) :
    f.recipe? source = some (.emotion source) := by
  rw [recipe?, hb]
  dsimp only
  rw [if_pos (List.contains_iff_mem.2 hp)]

namespace Registry

variable {r : Registry} {f : FileInfo} {source : String}

/-- The recipes that are built in are those of every file. -/
theorem isOf_builtin (f : FileInfo) : builtin.IsOf f where
  builtin _ _ h := h
  recipe source recipe h := by rw [FileInfo.recipe?, h]

/-- A source without a recipe has none from the start. -/
theorem IsOf.builtin_eq_none (h : r.IsOf f) (hn : r.get? source = none) :
    Registry.builtin.get? source = none := by
  rw [Option.eq_none_iff_forall_ne_some]
  intro recipe hb
  rw [h.builtin source recipe hb] at hn
  cases hn

/-- A configured instance may get its recipe when it is first met. -/
theorem IsOf.register (h : r.IsOf f) (hn : r.get? source = none)
    (hp : f.resolve source ∈ f.instancePaths) : (r.register source (.emotion source)).IsOf f := by
  have hb := h.builtin_eq_none hn
  constructor
  · intro other recipe hr
    have ho : other ≠ source := by
      rintro rfl
      rw [hb] at hr
      cases hr
    rw [get?_register_of_ne _ _ ho]
    exact h.builtin other recipe hr
  · intro other recipe hr
    by_cases ho : other = source
    · subst ho
      rw [get?_register_self] at hr
      cases hr
      exact f.recipe?_of_mem hb hp
    · rw [get?_register_of_ne _ _ ho] at hr
      exact h.recipe other recipe hr

end Registry

namespace ImportPass

open Stateful

/-- The registry stays right when an instance is registered. -/
theorem isOf_registered {s : FileState} {info : FileInfo} (h : s.registry.IsOf info)
    (hi : s.info = info) (d : ImportDecl) : (registered d s).registry.IsOf info := by
  subst hi
  simp only [registered, registerInstance, modify_apply]
  split
  · exact h
  · next hc =>
    split
    · next hp => exact h.register (Option.not_isSome_iff_eq_none.1 hc) (List.contains_iff_mem.1 hp)
    · exact h

/-- A declaration has the recipe that its source has in the file. -/
theorem recipeOf?_eq {s : FileState} (h : s.registry.IsOf s.info) (d : ImportDecl) :
    recipeOf? d s = s.info.recipe? d.source.value := by
  simp only [recipeOf?, registered, registerInstance, modify_apply]
  split
  · next hc =>
    obtain ⟨r, hr⟩ := Option.isSome_iff_exists.1 hc
    rw [hr, h.recipe _ r hr]
  · next hc =>
    have hnone : s.registry.get? d.source.value = none := Option.not_isSome_iff_eq_none.1 hc
    have hbuiltin := h.builtin_eq_none hnone
    split
    · next hp =>
      rw [Registry.get?_register_self, s.info.recipe?_of_mem hbuiltin (List.contains_iff_mem.1 hp)]
    · next hp =>
      rw [hnone, FileInfo.recipe?, hbuiltin]
      dsimp only
      rw [if_neg hp]

/-- A declaration that is left alone leaves an index of the module behind, and one that is
expanded an index that is marked as stale. -/
theorem isCurrent_importDecl {m : Module} {s : FileState} (d : ImportDecl)
    (h : s.scope.IsCurrent (.module m)) :
    (importDecl d m s).2.scope.IsCurrent (.module (importDecl d m s).1.2) := by
  have hregistered : (registered d s).scope.IsCurrent (.module m) := by
    rw [scope_registered]
    exact h
  have hrefreshed : (refreshed d m s).scope.IsCurrent (.module m) :=
    .inr (Scope.Index.declared_refresh hregistered)
  refine importDecl_cases d m s (P := fun p => p.2.scope.IsCurrent (.module p.1.2)) ?_ ?_ ?_ ?_ ?_
  · exact fun _ => hregistered
  · exact fun _ _ _ => hregistered
  · exact fun _ _ _ _ => hrefreshed
  · exact fun _ _ _ _ _ _ => hrefreshed
  · exact fun _ _ _ _ _ _ => .inl rfl

/-- A module and the state of its file between two declarations.  Every name in the
module is in the index, which may be stale, or it has been injected since. -/
structure Ready (fit : Bool) (info : FileInfo) (m : Module) (s : FileState) : Prop where
  shaped : m.wellShaped fit = true
  info_eq : s.info = info
  registry : s.registry.IsOf info
  valid : s.imports.Valid
  index : s.scope.IsCurrent (.module m)
  covered : ∀ name ∈ Mention.names m.mentions,
    name ∈ s.scope.names ∨ name ∈ s.imports.names ∨ name = "Object"
  cssBinding : s.cssBinding = none

/-- What becomes of a module and the injected imports when a declaration is dealt with. -/
inductive Dealt (fit : Bool) (info : FileInfo) (d : ImportDecl) (m : Module) (j : Injector) :
    Outcome → Module → Injector → Prop where
  /-- The declaration is left alone. -/
  | left {o : Outcome} (h : o = .noRecipe ∨ ∃ reason, o = .skipped reason) :
    Dealt fit info d m j o m j
  /-- The recipe of its source is followed. -/
  | expanded {r : Recipe} {ts : Rewrite.Targets} {m' : Module} {j' : Injector}
      (hr : info.recipe? d.source.value = some r) (he : r.Expands fit d ts m m' j j') :
      Dealt fit info d m j (.expanded r.keepsImport) m' j'

variable {fit : Bool} {info : FileInfo} {d : ImportDecl} {m m' : Module} {s : FileState}

/-- The names of the index after it has been looked at again are those of the module. -/
theorem names_subset {i : Scope.Index}
    (hd : i.declared = Scope.Index.declaredOf m.mentions)
    (hu : i.uses = Scope.Index.usesOf m.mentions) :
    Mention.names m.mentions ⊆ i.names := by
  intro name hn
  obtain ⟨a, ha, rfl⟩ := List.mem_map.1 hn
  obtain ⟨ha, hr⟩ := List.mem_filter.1 ha
  exact Scope.Index.mem_names (p := .module m) hd hu ha (bne_iff_ne.1 hr)

/-- **One declaration.**  It is left alone, or the recipe of its source is followed. -/
theorem importDecl_spec (h : Ready fit info m s) (hd : d ∈ m.imports) :
    Ready fit info (importDecl d m s).1.2 (importDecl d m s).2 ∧
      Dealt fit info d m s.imports (importDecl d m s).1.1 (importDecl d m s).1.2
        (importDecl d m s).2.imports := by
  have hregistry := isOf_registered h.registry h.info_eq d
  have hregistered : Ready fit info m (registered d s) := by
    rw [registered_eq]
    exact ⟨h.shaped, h.info_eq, hregistry, h.valid, h.index, h.covered, h.cssBinding⟩
  have hindex := Scope.Index.declared_refresh hregistered.index
  -- A refreshed index covers the names of the module by itself.
  have hrefreshed : Ready fit info m (refreshed d m s) :=
    { hregistered with
      index := .inr hindex
      covered := fun name hn => .inl (names_subset hindex.1 hindex.2 hn) }
  have hleft : ∀ o, (o = .noRecipe ∨ ∃ reason, o = .skipped reason) →
      Dealt fit info d m s.imports o m (registered d s).imports := by
    intro o ho
    rw [imports_registered]
    exact .left ho
  refine importDecl_cases d m s (P := fun p => Ready fit info p.1.2 p.2 ∧
    Dealt fit info d m s.imports p.1.1 p.1.2 p.2.imports) ?_ ?_ ?_ ?_ ?_
  · exact fun _ => ⟨hregistered, hleft _ (.inl rfl)⟩
  · exact fun _ _ _ => ⟨hregistered, hleft _ (.inr ⟨_, rfl⟩)⟩
  · exact fun _ _ _ _ => ⟨hrefreshed, hleft _ (.inr ⟨_, rfl⟩)⟩
  · exact fun _ _ _ _ _ _ => ⟨hrefreshed, hleft _ (.inr ⟨_, rfl⟩)⟩
  · intro recipe refs hr _ hrefs _
    have hnames : Mention.names m.mentions ⊆ (rebuilt d m s).scope.names := names_subset rfl rfl
    obtain ⟨ts, imports, targets, hs, he⟩ := Recipe.expand_spec (r := recipe)
      (s := rebuilt d m s) hregistered.valid h.shaped
      (ReferenceMap.isOf_collect (p := .module m) hindex.2 hrefs) hnames
    have himports : (rebuilt d m s).imports = s.imports := imports_registered d s
    rw [himports] at he
    dsimp only
    rw [hs]
    refine ⟨⟨he.shaped, hregistered.info_eq, hregistry, he.grows.valid, .inl rfl, fun name hn => ?_,
      hregistered.cssBinding⟩, .expanded (hregistry.recipe _ _ hr) he⟩
    exact (he.names hd name hn).imp_left fun h => hnames h

/-- A module is ready when it is entered. -/
theorem ready_ofProgram (o : Options) (env : FileEnv) (hm : m.wellShaped fit = true) :
    Ready fit (FileState.ofProgram o env (.module m)).info m
      (FileState.ofProgram o env (.module m)) where
  shaped := hm
  info_eq := rfl
  registry := Registry.isOf_builtin _
  valid := Injector.valid_empty
  index := .inr ⟨rfl, rfl⟩
  covered _ hn := .inl (names_subset rfl rfl hn)
  cssBinding := rfl

/-- A declaration may leave the module. -/
theorem Ready.drop (h : Ready fit info m s) (hd : Module.Drops d m m') :
    Ready fit info m' { s with scope := s.scope.invalidate } where
  shaped := List.all_eq_true.2 fun i hi => List.all_eq_true.1 h.shaped i (hd.body_subset hi)
  info_eq := h.info_eq
  registry := h.registry
  valid := h.valid
  index := .inl rfl
  covered name hn := h.covered name (Mention.names_subset hd.mentions_subset hn)
  cssBinding := h.cssBinding

/-- The declarations that have been dealt with and are still there. -/
def kept (log : List (ImportDecl × Outcome)) : List ImportDecl :=
  (log.filter (·.2 ≠ .expanded false)).map Prod.fst

/-- What is kept of joined logs is kept of each of them. -/
theorem kept_append (log log' : List (ImportDecl × Outcome)) :
    kept (log ++ log') = kept log ++ kept log' := by
  rw [kept, List.filter_append, List.map_append]
  rfl

/-- A declaration is kept unless it has been expanded and taken out. -/
theorem kept_singleton (d : ImportDecl) (o : Outcome) :
    kept [(d, o)] = if o = .expanded false then [] else [d] := by
  unfold kept
  split <;> simp_all

/-- Dealing with a declaration leaves the imports in their places. -/
theorem keepsImports_of_dealt {j j' : Injector} {o : Outcome} (h : Dealt fit info d m j o m' j') :
    m.KeepsImports m' := by
  cases h with
  | left => exact m.keepsImports_refl
  | expanded _ he => exact he.imports

section Induction

variable {P : List (ImportDecl × Outcome) → List ImportDecl → List Mention → Injector → Prop}

/-- Dealing with one declaration preserves `P`, a property of the log, the declarations
behind it, the identifiers outside of the imports and what has been injected. -/
def Preserves (fit : Bool) (info : FileInfo)
    (P : List (ImportDecl × Outcome) → List ImportDecl → List Mention → Injector → Prop) : Prop :=
  ∀ log d todo m j o m' j', m.imports = kept log ++ d :: todo → j.Valid →
    P log (d :: todo) m.outside j → Dealt fit info d m j o m' j' →
    P (log ++ [(d, o)]) todo m'.outside j'

/-- The declarations `ds` behind those of the log have been dealt with as well. -/
def Done (fit : Bool) (info : FileInfo)
    (P : List (ImportDecl × Outcome) → List ImportDecl → List Mention → Injector → Prop)
    (log : List (ImportDecl × Outcome)) (ds : List ImportDecl) (os : List Outcome) (m : Module)
    (s : FileState) : Prop :=
  ∃ log', log'.map Prod.fst = ds ∧ log'.map Prod.snd = os ∧ Ready fit info m s ∧
    m.imports = kept (log ++ log') ∧ P (log ++ log') [] m.outside s.imports

/-- What is done with a declaration comes before what is done with those behind it. -/
theorem Done.cons {log : List (ImportDecl × Outcome)} {ds : List ImportDecl} {o : Outcome}
    {os : List Outcome} (h : Done fit info P (log ++ [(d, o)]) ds os m s) :
    Done fit info P log (d :: ds) (o :: os) m s := by
  obtain ⟨log', rfl, rfl, hready, himports, hP⟩ := h
  rw [← List.append_cons] at himports hP
  exact ⟨(d, o) :: log', rfl, rfl, hready, himports, hP⟩

/-- What each step preserves holds after the last `n` items of a module. -/
theorem remaining_induct (step : Preserves fit info P) (n : Nat)
    {log : List (ImportDecl × Outcome)} (before after : List Item)
    (hb : m.body = before ++ after) (hn : after.length = n)
    (hlog : before.filterMap Item.import? = kept log) (hs : Ready fit info m s)
    (hP : P log (after.filterMap Item.import?) m.outside s.imports) :
    Done fit info P log (after.filterMap Item.import?) (remaining n m s).1.1
      (remaining n m s).1.2 (remaining n m s).2 := by
  -- The items are divided at the place that the loop has come to, and it counts what is left
  -- behind it; `log` says what was done in front of it.
  induction n generalizing log before after m s with
  | zero =>
    rw [List.length_eq_zero_iff.1 hn] at hb hP ⊢
    refine ⟨[], rfl, rfl, hs, ?_, ?_⟩
    · rw [List.append_nil, ← hlog]
      simp only [remaining, pure_apply, Module.imports, hb, List.append_nil]
    · rw [List.append_nil]
      exact hP
  | succ n ih =>
    obtain ⟨i, after, rfl⟩ := List.exists_cons_of_length_eq_add_one hn
    rw [List.length_cons, Nat.add_right_cancel_iff] at hn
    have hi : m.body.length - (n + 1) = before.length := by
      rw [hb, List.length_append, List.length_cons, hn, Nat.add_sub_cancel]
    have hget : m.body[before.length]? = some i := by
      rw [hb, List.getElem?_append_right (Nat.le_refl _), Nat.sub_self]
      rfl
    have himports : m.imports = kept log ++ (i :: after).filterMap Item.import? := by
      rw [Module.imports, hb, List.filterMap_append, hlog]
    simp only [remaining, hi, hget]
    cases i with
    | node t =>
      dsimp only
      refine ih (before ++ [.node t]) after (by rw [hb, List.append_cons]) hn ?_ hs hP
      rw [List.filterMap_append, hlog]
      exact List.append_nil _
    | importing d =>
      have hd : d ∈ m.imports := by
        rw [himports]
        exact List.mem_append_right _ (List.mem_cons_self ..)
      obtain ⟨hready, hdealt⟩ := importDecl_spec hs hd
      obtain ⟨before', after', hb', hbl, hal, hbi, hai⟩ :=
        (keepsImports_of_dealt hdealt).split hb
      have hstep := step _ _ _ _ _ _ _ _ himports hs.valid hP hdealt
      simp only [bind_apply]
      generalize importDecl d m s = p at *
      obtain ⟨⟨o, m'⟩, s'⟩ := p
      dsimp only at *
      by_cases ho : o = .expanded false
      -- The declaration is taken out, so the front stays as long as it was.
      · subst ho
        have hbody : m'.body.eraseIdx before.length = before' ++ after' := by
          rw [hb', ← hbl, List.eraseIdx_append_of_length_le (Nat.le_refl _), Nat.sub_self]
          rfl
        have hdrop : Module.Drops d m' { m' with body := m'.body.eraseIdx before.length } :=
          ⟨before', after', hb', hbody⟩
        rw [← hdrop.outside] at hstep
        have hlog' : before'.filterMap Item.import? = kept (log ++ [(d, .expanded false)]) := by
          rw [hbi, hlog, kept_append, kept_singleton, if_pos rfl, List.append_nil]
        have hdone := ih before' after' hbody (hal.trans hn) hlog' (hready.drop hdrop)
          (hai ▸ hstep)
        rw [hai] at hdone
        rw [if_pos rfl]
        exact hdone.cons
      · have hlog' : (before' ++ [Item.importing d]).filterMap Item.import? =
            kept (log ++ [(d, o)]) := by
          rw [List.filterMap_append, hbi, hlog, kept_append, kept_singleton, if_neg ho]
          rfl
        have hdone := ih (before' ++ [.importing d]) after' (by rw [hb', List.append_cons])
          (hal.trans hn) hlog' hready (hai ▸ hstep)
        rw [hai] at hdone
        rw [if_neg ho]
        exact hdone.cons

/-- **Induction over the pass.**  What holds to begin with, and is preserved whenever a
declaration is dealt with, holds of the module and its imports at the end. -/
theorem module_induct (hs : Ready fit info m s) (start : P [] m.imports m.outside s.imports)
    (step : Preserves fit info P) :
    Ready fit info (module m s).1.2 (module m s).2 ∧
      (m.imports.zip (module m s).1.1).map Prod.fst = m.imports ∧
      (module m s).1.2.imports = kept (m.imports.zip (module m s).1.1) ∧
      P (m.imports.zip (module m s).1.1) [] (module m s).1.2.outside (module m s).2.imports := by
  obtain ⟨log, hfst, hsnd, hready, himports, hP⟩ :=
    remaining_induct step m.body.length [] m.body rfl rfl rfl hs start
  have hzip : log = m.imports.zip (module m s).1.1 := List.zip_of_prod hfst hsnd
  rw [List.nil_append, hzip] at himports hP
  rw [hzip] at hfst
  exact ⟨hready, hfst, himports, hP⟩

end Induction
end ImportPass
end StyleLowering
