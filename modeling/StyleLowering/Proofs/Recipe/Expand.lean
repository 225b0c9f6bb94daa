/-
# What following a recipe does

Following the recipe of an import declaration injects runtime imports and
rewrites the module once.  The bindings that are replaced are those that the
declaration has for the names the recipe deals with, as far as the module uses
them; each gets the name of an import of what the recipe prescribes
(`Recipe.expand_spec`).
-/

import StyleLowering.Proofs.Recipe.Targets

namespace StyleLowering

/-- The names of identifiers, those of statements apart. -/
def Mention.names (ms : List Mention) : List String :=
  (ms.filter (·.role != .label)).map (·.ident.name)

/-- The name of an identifier that is no label is among the names. -/
theorem Mention.mem_names {ms : List Mention} {a : Mention} (ha : a ∈ ms) (hr : a.role ≠ .label) :
    a.ident.name ∈ Mention.names ms :=
  List.mem_map.2 ⟨a, List.mem_filter.2 ⟨ha, bne_iff_ne.2 hr⟩, rfl⟩

/-- Fewer identifiers have fewer names. -/
theorem Mention.names_subset {ms ms' : List Mention} (h : ms ⊆ ms') :
    Mention.names ms ⊆ Mention.names ms' :=
  List.map_subset _ (List.filter_subset _ h)

/-- The names of an import are among those of its module. -/
theorem ImportDecl.names_subset {d : ImportDecl} {m : Module} (hd : d ∈ m.imports) :
    Mention.names d.mentions ⊆ Mention.names m.mentions :=
  Mention.names_subset fun _ ha => Module.mem_mentions.2 (.inr ⟨d, hd, ha⟩)

namespace Recipe

open Stateful

/-- Following the recipe of a declaration `d` takes a module and its injected imports to
others, by way of the given targets. -/
structure Expands (fit : Bool) (r : Recipe) (d : ImportDecl) (ts : Rewrite.Targets)
    (m m' : Module) (j j' : Injector) : Prop where
  grows : Injector.Grows (Mention.names m.mentions) j j'
  imports : m.KeepsImports m'
  shaped : m'.wellShaped fit = true
  trace : Trace ts.Renames ts.Adds fit m.outside m'.outside
  /-- What is replaced is a used binding of the declaration. -/
  sound : ∀ a y, ts.replacement? a = some y → Scope.IsUsed a.id m.mentions ∧
    ∃ name, d.binding? name = some a.id ∧
      ∃ i ∈ j'.injected, r.runtime? name = some i.key ∧ y = i.binding.moveTo a.span
  /-- All used bindings that the recipe deals with are replaced. -/
  complete : ∀ (a : Ident) name, d.binding? name = some a.id → (r.runtime? name).isSome = true →
    Scope.IsUsed a.id m.mentions → (ts.replacement? a).isSome = true
  /-- Imports are injected for used bindings only. -/
  added : ∀ i ∈ j'.injected, i ∈ j.injected ∨ ∃ name x, d.binding? name = some x ∧
    Scope.IsUsed x m.mentions ∧ r.runtime? name = some i.key

variable {fit : Bool} {r : Recipe} {d : ImportDecl} {refs : ReferenceMap} {m : Module}
variable {s : FileState}

/-- In a module, expanding needs no preparation. -/
theorem prepare_true (r : Recipe) (s : FileState) : r.prepare true s = (⟨⟩, s) := by
  cases r <;> rfl

/-- Without targets, all identifiers stay. -/
theorem trace_of_nil (m : Module) :
    Trace (Rewrite.Targets.Renames []) (Rewrite.Targets.Adds []) fit m.outside m.outside :=
  .refl fun _ _ => .kept rfl

/-- A module with its targets rewritten, if there are any. -/
theorem expand_apply (r : Recipe) (refs : ReferenceMap) (m : Module) (s : FileState) :
    ∃ m' targets, r.expand refs true m s =
        (m', { (r.targets refs s).2 with targets := targets }) ∧
      (∀ fit, m.wellShaped fit = true → m'.wellShaped fit = true ∧
        Trace (r.targets refs s).1.Renames (r.targets refs s).1.Adds fit m.outside m'.outside) ∧
      m.KeepsImports m' := by
  simp only [expand, bind_apply, prepare_true]
  generalize r.targets refs s = p
  obtain ⟨ts, s'⟩ := p
  cases ts with
  | nil => exact ⟨m, s'.targets, rfl, fun _ h => ⟨h, trace_of_nil m⟩, m.keepsImports_refl⟩
  | cons t ts =>
    let r : Rewriter := ⟨s'.info, t :: ts⟩
    exact ⟨_, _, rfl, fun _ h => ⟨r.wellShaped_module h _, r.trace_module h _⟩,
      r.keepsImports_module m _⟩

/-- **Following a recipe** for an import whose references are known. -/
theorem expand_spec (hv : s.imports.Valid) (hm : m.wellShaped fit = true)
    (hrefs : refs.IsOf d m.mentions) (hscope : Mention.names m.mentions ⊆ s.scope.names) :
    ∃ ts imports targets,
      (r.expand refs true m s).2 = { s with imports := imports, targets := targets } ∧
      Expands fit r d ts m (r.expand refs true m s).1 s.imports imports := by
  obtain ⟨es, hes, ha⟩ := r.targets_spec hv hrefs.nodup
  obtain ⟨m', targets, he, hm', hkeep⟩ := r.expand_apply refs m s
  have hentry : ∀ e ∈ es, d.binding? e.1 = some e.2.binding ∧
      Scope.IsUsed e.2.binding m.mentions := by
    intro e h
    obtain ⟨hl, hu, -⟩ := (hes e).1 h
    refine ⟨?_, (hrefs.isUsed _ _ hl).1 hu⟩
    rw [← hrefs.lookup, hl]
    rfl
  rw [he]
  refine ⟨(r.targets refs s).1, (r.targets refs s).2.imports, targets, ?_, ?_⟩
  · dsimp only
    rw [ha.state]
  have hgrows : Injector.Grows (Mention.names m.mentions) s.imports (r.targets refs s).2.imports :=
    ⟨ha.grows.valid, ha.grows.subset,
      fun i hi => (ha.grows.fresh i hi).imp_right fun h hn => h (hscope hn)⟩
  -- Each target is there for a used binding, each used binding has its target, and each new import
  -- is there for a target.
  refine ⟨hgrows, hkeep, (hm' fit hm).1, (hm' fit hm).2, ?_, ?_, ?_⟩
  · intro a y hy
    obtain ⟨e, hmem, hid, hi⟩ := ha.sound a y hy
    have h := hentry e hmem
    rw [hid] at h
    exact ⟨h.2, e.1, h.1, hi⟩
  · intro a name hb hr hu
    rw [← hrefs.lookup, Option.map_eq_some_iff] at hb
    obtain ⟨rf, hl, hid⟩ := hb
    rw [← hid] at hu
    exact ha.complete (name, rf) ((hes _).2 ⟨hl, (hrefs.isUsed _ _ hl).2 hu, hr⟩) a hid.symm
  · intro i hi
    refine (ha.added i hi).imp_right ?_
    rintro ⟨e, hmem, hkey⟩
    exact ⟨e.1, e.2.binding, (hentry e hmem).1, (hentry e hmem).2, hkey⟩

/-- Following a recipe brings in no names but injected ones and `Object`. -/
theorem Expands.names {ts : Rewrite.Targets} {m' : Module} {j j' : Injector}
    (h : r.Expands fit d ts m m' j j') (hd : d ∈ m.imports) :
    ∀ name ∈ Mention.names m'.mentions,
      name ∈ Mention.names m.mentions ∨ name ∈ j'.names ∨ name = "Object" := by
  have hy : ∀ {a y : Ident}, ts.replacement? a = some y → y.name ∈ j'.names := by
    intro a y hy
    obtain ⟨-, name, -, i, hi, -, rfl⟩ := h.sound a y hy
    exact Injector.mem_names.2 ⟨i, hi, rfl⟩
  intro name hname
  obtain ⟨b, hb, rfl⟩ := List.mem_map.1 hname
  obtain ⟨hb, hr⟩ := List.mem_filter.1 hb
  rw [bne_iff_ne] at hr
  rcases Module.mem_mentions.1 hb with hb | ⟨e, he, hb⟩
  · rcases h.trace.exists_of_mem_right hb with ⟨a, ha, hab⟩ | hnew
    · have ha := Module.mem_mentions.2 (.inl ha)
      cases hab with
      | kept => exact .inl (Mention.mem_names ha hr)
      | exported => exact .inl (Mention.mem_names ha hr)
      | replaced hx => exact .inr (.inl (hy hx))
    · cases hnew with
      | @exported x y hx =>
        -- The local name that was replaced is declared by the import itself.
        obtain ⟨-, name, hbind, -⟩ := h.sound _ _ hx
        obtain ⟨s, hs, -, hid⟩ := ImportDecl.exists_of_binding? hbind
        have hmem : (⟨.binding, s.binding⟩ : Mention) ∈ m.mentions := Module.mem_mentions.2
          (.inr ⟨d, hd, List.mem_append_left _ (List.mem_map.2 ⟨s, hs, rfl⟩)⟩)
        have hn : s.binding.name = x.name := congrArg Id.name hid
        have := Mention.mem_names hmem (by simp)
        rw [hn] at this
        exact .inl this
      | object =>
        cases ho : ts.replacement? (.global "Object") with
        | none => exact .inr (.inr rfl)
        | some y => exact .inr (.inl (hy ho))
  · rw [h.imports.imports] at he
    exact .inl (Mention.mem_names (Module.mem_mentions.2 (.inr ⟨e, he, hb⟩)) hr)

end Recipe
end StyleLowering
