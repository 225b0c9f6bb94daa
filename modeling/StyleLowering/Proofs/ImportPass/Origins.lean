/-
# Where the identifiers come from after the import pass

Whatever the import pass injects is new to the module at that time, and what it
renames are bindings that the imports of the module declare.  So the identifiers
outside of the imports can be traced back to those of the module to begin with.
Every injected import is used if the imports of the module are plain: no
declaration imports two things under one name, and no attribute mentions an
import.

The main statement is `ImportPass.module_processed`.
-/

import StyleLowering.Proofs.ImportPass.Dangling
import StyleLowering.Proofs.Origin

namespace StyleLowering

/-- Which exports the recipes of import declarations prescribe for a binding. -/
def FileInfo.Prescribes (f : FileInfo) (ds : List ImportDecl) (x : Id) (key : String × Export) :
    Prop :=
  ∃ d ∈ ds, ∃ r, f.recipe? d.source.value = some r ∧
    ∃ name, d.binding? name = some x ∧ r.runtime? name = some key

/-- The names of the bindings of a declaration are among those of its identifiers. -/
theorem ImportDecl.mem_names_of_binding? {d : ImportDecl} {name : String} {x : Id}
    (h : d.binding? name = some x) : x.name ∈ Mention.names d.mentions := by
  obtain ⟨s, hs, -, rfl⟩ := ImportDecl.exists_of_binding? h
  refine Mention.mem_names (a := ⟨.binding, s.binding⟩) ?_ (by simp)
  exact List.mem_append_left _ (List.mem_map.2 ⟨s, hs, rfl⟩)

namespace ImportPass

variable {fit : Bool} {info : FileInfo} {m₀ m m' : Module} {j j' : Injector}
variable {log : List (ImportDecl × Outcome)} {d : ImportDecl} {todo : List ImportDecl} {o : Outcome}

/-- What is known about a module and its injected imports between two declarations. -/
structure Tracked (fit : Bool) (f : FileInfo) (m₀ : Module) (log : List (ImportDecl × Outcome))
    (todo : List ImportDecl) (outside : List Mention) (j : Injector) : Prop where
  done : log.map Prod.fst ++ todo = m₀.imports
  outside : Trace (Becomes (f.Prescribes m₀.imports) j) (Comes (f.Prescribes m₀.imports) j) fit
    m₀.outside outside
  imports : ∀ e ∈ kept log ++ todo, ∀ name ∈ Mention.names e.mentions, name ∉ j.names

/-- The declarations that are still to be met are imports of the first module. -/
theorem Tracked.mem_imports (h : Tracked fit info m₀ log (d :: todo) m.outside j) :
    d ∈ m₀.imports := by
  rw [← h.done]
  exact List.mem_append_right _ (List.mem_cons_self ..)

/-- The targets of a declaration put prescribed imports in the place of its bindings. -/
theorem Tracked.prescribed {r : Recipe} {ts : Rewrite.Targets}
    (h : Tracked fit info m₀ log (d :: todo) m.outside j)
    (himports : m.imports = kept log ++ d :: todo)
    (hrec : info.recipe? d.source.value = some r) (he : r.Expands fit d ts m m' j j') :
    ts.Prescribed (info.Prescribes m₀.imports) j' where
  runtime x y hy := by
    obtain ⟨-, name, hb, i, hi, hkey, rfl⟩ := he.sound x y hy
    exact ⟨i, hi, ⟨d, h.mem_imports, r, hrec, name, hb, hkey⟩, rfl⟩
  fresh x y hy := by
    obtain ⟨-, name, hb, -⟩ := he.sound x y hy
    have hd : d ∈ m.imports := by
      rw [himports]
      exact List.mem_append_right _ (List.mem_cons_self ..)
    have hx := ImportDecl.mem_names_of_binding? hb
    exact he.grows.not_mem_names (ImportDecl.names_subset hd hx) (h.imports d (by simp) _ hx)

/-- Dealing with a declaration keeps it or does not; the others stay. -/
theorem kept_append_subset : kept (log ++ [(d, o)]) ++ todo ⊆ kept log ++ d :: todo := by
  rw [kept_append, kept_singleton]
  split <;> simp

/-- **One declaration.**  Everything that is known stays true. -/
theorem tracked_dealt (himports : m.imports = kept log ++ d :: todo)
    (h : Tracked fit info m₀ log (d :: todo) m.outside j) (hd : Dealt fit info d m j o m' j') :
    Tracked fit info m₀ (log ++ [(d, o)]) todo m'.outside j' := by
  have hdone : (log ++ [(d, o)]).map Prod.fst ++ todo = m₀.imports := by
    rw [← h.done, List.map_append, List.append_assoc]
    rfl
  cases hd with
  | left => exact ⟨hdone, h.outside, fun e he => h.imports e (kept_append_subset he)⟩
  | expanded hrec he =>
    have hts := h.prescribed himports hrec he
    have hocc : ∀ b ∈ m.outside, b.role ≠ .label → b.ident.name ∈ Mention.names m.mentions :=
      fun b hb => Mention.mem_names (Module.mem_mentions.2 (.inl hb))
    have t := h.outside.mono (fun a _ b hb => Becomes.grow he.grows (hocc b hb))
      fun b hb => Comes.grow he.grows (hocc b hb)
    refine ⟨hdone, t.comp he.trace (fun _ _ _ _ _ => Becomes.renames hts)
      (fun _ _ _ => Comes.renames hts) fun _ => Comes.of_adds hts, fun e hk name hn => ?_⟩
    have hk' := kept_append_subset hk
    exact he.grows.not_mem_names (ImportDecl.names_subset (himports ▸ hk') hn)
      (h.imports e hk' name hn)

/-- Where imports are bound in a scope, an identifier that means a binding of a
declaration is one of the module to begin with: what has come in is generated. -/
theorem Tracked.mem_outside_of_binding (h : Tracked fit info m₀ log (d :: todo) m.outside j)
    (hc : m₀.IsScoped) {name : String} {a : Mention} (hb : d.binding? name = some a.ident.id)
    (ha : a ∈ m.outside) : a ∈ m₀.outside := by
  obtain ⟨hempty, hglobal⟩ := hc _ (Module.mem_importBindings_of_binding? h.mem_imports hb)
  have hfresh : ∀ i ∈ j.injected, a.ident.name ≠ i.binding.name := by
    intro i hi hn
    exact h.imports d (by simp) _ (ImportDecl.mem_names_of_binding? hb)
      (Injector.mem_names.2 ⟨i, hi, hn.symm⟩)
  rcases h.outside.exists_of_mem_right ha with ⟨b, hb, hab⟩ | hnew
  · cases hab with
    | user => exact hb
    | runtime hi => exact absurd rfl (hfresh _ hi)
  · cases hnew with
    | outerName => exact absurd rfl hempty
    | global => exact absurd rfl hglobal
    | runtime hi => exact absurd rfl (hfresh _ hi)
    | cssProp hi => exact absurd rfl (hfresh _ hi)
    | declared hi => exact absurd rfl (hfresh _ hi)

end ImportPass

namespace Module

/-- No declaration imports two things under one name. -/
def ImportsApart (m : Module) : Prop :=
  ∀ d ∈ m.imports, ∀ s ∈ d.specifiers, ∀ s' ∈ d.specifiers,
    s.binding.id = s'.binding.id → s.importedName? = s'.importedName?

/-- The attributes of imports mention no import. -/
def AttributesApart (m : Module) : Prop :=
  ∀ d ∈ m.imports, ∀ a ∈ d.attributes.mentions, a.ident.id ∉ m.importBindings

instance (m : Module) : Decidable m.ImportsApart :=
  inferInstanceAs (Decidable (∀ d ∈ m.imports, ∀ s ∈ d.specifiers, ∀ s' ∈ d.specifiers, _ → _))

instance (m : Module) : Decidable m.AttributesApart :=
  inferInstanceAs (Decidable (∀ d ∈ m.imports, ∀ a ∈ d.attributes.mentions, _))

/-- A module in which every import that is used is used in the code. -/
structure IsPlain (m : Module) : Prop where
  resolved : m.IsResolved
  bound : m.IsScoped
  imports : m.ImportsApart
  attributes : m.AttributesApart

/-- A binding of an import is imported under one name. -/
theorem ImportsApart.name_eq {m : Module} (h : m.ImportsApart) {d : ImportDecl}
    (hd : d ∈ m.imports) {name name' : String} {x : Id} (hb : d.binding? name = some x)
    (hb' : d.binding? name' = some x) : name = name' := by
  obtain ⟨s, hs, hn, rfl⟩ := ImportDecl.exists_of_binding? hb
  obtain ⟨s', hs', hn', he⟩ := ImportDecl.exists_of_binding? hb'
  have := h d hd s hs s' hs' he.symm
  rw [hn, hn'] at this
  exact Option.some_inj.1 this

end Module

/-- A use stays one when its binding is replaced. -/
theorem Scope.isUse_replaced {a : Mention} (h : isUse a = true) (y : Ident) :
    isUse ⟨a.role.replaced, y⟩ = true := by
  unfold isUse at h ⊢
  cases hr : a.role <;> simp_all [Role.replaced]

/-- Whether all injected imports are used. -/
def Injector.AllUsed (j : Injector) (ms : List Mention) : Prop :=
  ∀ i ∈ j.injected, Scope.IsUsed i.binding.id ms

namespace ImportPass

variable {info : FileInfo} {m₀ m m' : Module} {j j' : Injector}
variable {log : List (ImportDecl × Outcome)} {d : ImportDecl} {todo : List ImportDecl} {o : Outcome}

/-- A use of a binding of a declaration stands outside of the imports. -/
theorem Tracked.mem_outside_of_isUse {fit : Bool}
    (h : Tracked fit info m₀ log (d :: todo) m.outside j) (hm : m₀.IsPlain)
    (himports : m.imports = kept log ++ d :: todo) {name : String} {a : Mention}
    (hb : d.binding? name = some a.ident.id) (ha : a ∈ m.mentions)
    (hu : Scope.isUse a = true) : a ∈ m.outside := by
  rcases Module.mem_mentions.1 ha with ha | ⟨e, he, ha⟩
  · exact ha
  · rcases List.mem_append.1 ha with ha | ha
    · obtain ⟨s, -, rfl⟩ := List.mem_map.1 ha
      cases hu
    · have he₀ : e ∈ m₀.imports := by
        rw [← h.done]
        rw [himports] at he
        refine List.append_subset.2 ⟨?_, List.subset_append_right _ _⟩ he
        exact List.Subset.trans (List.map_subset _ (List.filter_subset_self _))
          (List.subset_append_left _ _)
      exact absurd (Module.mem_importBindings_of_binding? h.mem_imports hb)
        (hm.attributes e he₀ a ha)

/-- **One declaration.**  All injected imports are still used, the new ones by the uses
of the bindings that they take the place of. -/
theorem allUsed_dealt (hm : m₀.IsPlain) (himports : m.imports = kept log ++ d :: todo)
    (h : Tracked true info m₀ log (d :: todo) m.outside j) (hu : j.AllUsed m.outside)
    (hd : Dealt true info d m j o m' j') : j'.AllUsed m'.outside := by
  cases hd with
  | left => exact hu
  | expanded hrec he =>
    have hts := h.prescribed himports hrec he
    intro i hi
    rcases he.added i hi with hold | ⟨name, x, hb, ⟨a, ha, hause, rfl⟩, hkey⟩
    · obtain ⟨a, ha, hause, hid⟩ := hu i hold
      obtain ⟨c, hc, hac⟩ := he.trace.exists_of_mem_left ha
      cases hac with
      | kept => exact ⟨a, hc, hause, hid⟩
      | exported => exact ⟨_, hc, hause, hid⟩
      | replaced hy => exact (hts.not_target hi hy (congrArg Id.name hid)).elim
    · have hout := h.mem_outside_of_isUse hm himports hb ha hause
      obtain ⟨c, hc, hac⟩ := he.trace.exists_of_mem_left hout
      cases hac with
      | kept hnone =>
        have := he.complete a.ident name hb (by rw [hkey]; rfl) ⟨a, ha, hause, rfl⟩
        rw [hnone] at this
        cases this
      | exported =>
        have h₀ := h.mem_outside_of_binding hm.bound hb hout
        exact absurd (Module.mem_importBindings_of_binding? h.mem_imports hb)
          (hm.resolved _ h₀ (.inr rfl))
      | replaced hy =>
        obtain ⟨-, name', hb', k, hk, hkey', rfl⟩ := he.sound _ _ hy
        cases hm.imports.name_eq h.mem_imports hb hb'
        have hik : k = i := he.grows.valid.eq_of_key_eq hk hi (by
          rw [hkey] at hkey'
          exact (Option.some_inj.1 hkey').symm)
        subst hik
        exact ⟨_, hc, Scope.isUse_replaced hause _, rfl⟩

/-- A module and its injected imports after the import pass. -/
structure Processed (fit : Bool) (f : FileInfo) (m₀ m : Module) (s : FileState) : Prop where
  ready : Ready fit f m s
  outside : Trace (Becomes (f.Prescribes m₀.imports) s.imports)
    (Comes (f.Prescribes m₀.imports) s.imports) fit m₀.outside m.outside
  imports : m.imports.Sublist m₀.imports
  apart : ∀ d ∈ m.imports, ∀ name ∈ Mention.names d.mentions, name ∉ s.imports.names
  used : fit = true → m₀.IsPlain → s.imports.AllUsed m.outside

/-- **The import pass.**  The identifiers outside of the imports can be traced back, what is
left of the imports is spelled unlike the injected ones, and where templates are in order
and imports are plain, all that is injected is used. -/
theorem module_processed (o : Options) (env : FileEnv) {fit : Bool} (hm : m.wellShaped fit = true) :
    let s := FileState.ofProgram o env (.module m)
    Processed fit s.info m (module m s).1.2 (module m s).2 := by
  intro s
  have hnames : ∀ name, name ∉ s.imports.names := fun _ => List.not_mem_nil
  have hstart : Tracked fit s.info m [] m.imports m.outside s.imports :=
    ⟨rfl, .refl fun a _ => .user (.inr (hnames _)), fun _ _ _ _ => hnames _⟩
  obtain ⟨hready, -, himports, ht, hu⟩ := module_induct
    (P := fun log todo outside j => Tracked fit s.info m log todo outside j ∧
      (fit = true → m.IsPlain → j.AllUsed outside))
    (ready_ofProgram o env hm)
    ⟨hstart, fun _ _ i hi => absurd hi List.not_mem_nil⟩
    fun log d todo m' j o m'' j' himports _ ⟨ht, hu⟩ hd => by
      refine ⟨tracked_dealt himports ht hd, fun hf hp => ?_⟩
      subst hf
      exact allUsed_dealt hp himports ht (hu rfl hp) hd
  have hdone := ht.done
  have hapart := ht.imports
  rw [List.append_nil] at hdone hapart
  refine ⟨hready, ht.outside, ?_, ?_, hu⟩
  · rw [himports]
    exact (List.Sublist.map _ List.filter_sublist).trans (by rw [hdone])
  · rw [himports]
    exact hapart

end ImportPass
end StyleLowering
