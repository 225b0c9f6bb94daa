/-
# What is left of the bindings of a removed import

An import leaves the module when one of its bindings is used, but the recipe of
its source may deal with some of the imported names only: styles and styled
components are default exports.  Uses of the other bindings stay, and nothing
declares them any more.

The main statement is `ImportPass.mentions_iff_not_renamed`: a binding of a
removed import is still mentioned exactly if it was mentioned and no recipe has
replaced it.
-/

import StyleLowering.Proofs.ImportPass.Steps

namespace StyleLowering
namespace Module

/-- The bindings that the imports of a module declare. -/
def importBindings (m : Module) : List Id := m.imports.flatMap ImportDecl.bindings

/-- The bindings of the imports are those of each import. -/
theorem mem_importBindings {m : Module} {x : Id} :
    x ∈ m.importBindings ↔ ∃ d ∈ m.imports, x ∈ d.bindings :=
  List.mem_flatMap

/-- What an import has for a name is one of the bindings of the module's imports. -/
theorem mem_importBindings_of_binding? {m : Module} {d : ImportDecl} (hd : d ∈ m.imports)
    {name : String} {x : Id} (h : d.binding? name = some x) : x ∈ m.importBindings := by
  obtain ⟨s, hs, -, rfl⟩ := ImportDecl.exists_of_binding? h
  exact mem_importBindings.2 ⟨d, hd, List.mem_map.2 ⟨s, hs, rfl⟩⟩

/-- No label of a statement and no outer name of an export is taken for an import. -/
def IsResolved (m : Module) : Prop :=
  ∀ a ∈ m.outside, a.role = .label ∨ a.role = .exported → a.ident.id ∉ m.importBindings

/-- Imports are bound in a scope: they are neither generated names nor names that no
scope binds. -/
def IsScoped (m : Module) : Prop :=
  ∀ x ∈ m.importBindings, x.context ≠ Context.empty ∧ x.context ≠ Context.unresolved

/-- Whether a binding is mentioned outside of the imports. -/
def Mentions (m : Module) (x : Id) : Prop := ∃ a ∈ m.outside, a.ident.id = x

instance (m : Module) : Decidable m.IsResolved :=
  inferInstanceAs (Decidable (∀ a ∈ m.outside, _ → _))

instance (m : Module) : Decidable m.IsScoped :=
  inferInstanceAs (Decidable (∀ x ∈ m.importBindings, _))

instance (m : Module) (x : Id) : Decidable (m.Mentions x) :=
  inferInstanceAs (Decidable (∃ a ∈ m.outside, _))

end Module

/-- Whether the recipe of a declaration puts something in the place of a binding. -/
def FileInfo.Replaces (f : FileInfo) (d : ImportDecl) (x : Id) : Prop :=
  ∃ r, f.recipe? d.source.value = some r ∧
    ∃ name, d.binding? name = some x ∧ (r.runtime? name).isSome = true

namespace ImportPass

/-- **When a binding is renamed.**  One of the declarations that were expanded replaces
it, and the binding was used at that time: outside of the imports, or in the
attributes of an import that had not left.  `todo` are the declarations behind
those of the log. -/
def Renamed (f : FileInfo) (outside : List Mention) (log : List (ImportDecl × Outcome))
    (todo : List ImportDecl) (x : Id) : Prop :=
  ∃ before d keep after, log = before ++ (d, .expanded keep) :: after ∧ f.Replaces d x ∧
    Scope.IsUsed x (outside ++
      (kept before ++ d :: (after.map Prod.fst ++ todo)).flatMap ImportDecl.mentions)

/-- Whether an expanded declaration of the log replaces a binding. -/
def Touched (f : FileInfo) (log : List (ImportDecl × Outcome)) (x : Id) : Prop :=
  ∃ d keep, (d, .expanded keep) ∈ log ∧ f.Replaces d x

variable {fit : Bool} {info : FileInfo} {outside : List Mention}
variable {log : List (ImportDecl × Outcome)} {d : ImportDecl} {todo : List ImportDecl} {x : Id}

/-- What the next declaration contributes. -/
theorem renamed_append {o : Outcome} :
    Renamed info outside (log ++ [(d, o)]) todo x ↔
      Renamed info outside log (d :: todo) x ∨ (∃ keep, o = .expanded keep) ∧
        info.Replaces d x ∧
        Scope.IsUsed x (outside ++ (kept log ++ d :: todo).flatMap ImportDecl.mentions) := by
  constructor
  · rintro ⟨before, e, keep, after, he, hr, hu⟩
    rcases List.eq_nil_or_concat after with rfl | ⟨rest, p, rfl⟩
    · obtain ⟨rfl, hp⟩ := List.append_inj' he rfl
      cases hp
      exact .inr ⟨⟨keep, rfl⟩, hr, hu⟩
    · rw [List.concat_eq_append] at he hu
      rw [← List.cons_append, ← List.append_assoc] at he
      obtain ⟨rfl, hp⟩ := List.append_inj' he rfl
      cases hp
      refine .inl ⟨before, e, keep, rest, rfl, hr, ?_⟩
      rw [List.map_append, List.append_assoc] at hu
      exact hu
  · rintro (⟨before, e, keep, after, rfl, hr, hu⟩ | ⟨⟨keep, rfl⟩, hr, hu⟩)
    · refine ⟨before, e, keep, after ++ [(d, o)], by simp, hr, ?_⟩
      rw [List.map_append, List.append_assoc]
      exact hu
    · exact ⟨log, d, keep, [], rfl, hr, hu⟩

/-- A binding is touched by what came before, or replaced by the declaration that is expanded. -/
theorem touched_append {o : Outcome} :
    Touched info (log ++ [(d, o)]) x ↔
      Touched info log x ∨ (∃ keep, o = .expanded keep) ∧ info.Replaces d x := by
  simp only [Touched, List.mem_append, List.mem_singleton, Prod.mk.injEq]
  constructor
  · rintro ⟨e, keep, hm | ⟨rfl, rfl⟩, hr⟩
    · exact .inl ⟨e, keep, hm, hr⟩
    · exact .inr ⟨⟨keep, rfl⟩, hr⟩
  · rintro (⟨e, keep, hm, hr⟩ | ⟨⟨keep, rfl⟩, hr⟩)
    · exact ⟨e, keep, .inl hm, hr⟩
    · exact ⟨d, keep, .inr ⟨rfl, rfl⟩, hr⟩

/-- What has become of an identifier of the module `m`. -/
inductive Survives (fit : Bool) (f : FileInfo) (m : Module) (log : List (ImportDecl × Outcome))
    (todo : List ImportDecl) : Mention → Mention → Prop where
  /-- It is still there, and if it means an import, that has not been renamed. -/
  | kept {a : Mention} (h : a.ident.id ∈ m.importBindings →
      (Scope.isUse a = true → ¬Touched f log a.ident.id) ∧
      (fit = true → ¬Renamed f m.outside log todo a.ident.id)) :
    Survives fit f m log todo a a
  /-- It meant an import and was renamed. -/
  | renamed {a b : Mention} (h : Renamed f m.outside log todo a.ident.id)
      (hb : b.ident.id ∉ m.importBindings) : Survives fit f m log todo a b

/-- What comes in means no import. -/
def ComesIn (m : Module) (b : Mention) : Prop := b.ident.id ∉ m.importBindings

/-- Generated and global identifiers are no bindings of imports. -/
theorem not_mem_of_generated {m : Module} (hc : m.IsScoped) {y : Ident}
    (hy : y.context = Context.empty ∨ y.context = Context.unresolved) :
    y.id ∉ m.importBindings := by
  intro h
  obtain ⟨h₁, h₂⟩ := hc _ h
  exact hy.elim h₁ h₂

/-- A use of an import in the module as it is was one in the module to begin with, or
stands in an import. -/
theorem isUsed_of_survives {m₀ m : Module} (himports : m.imports = kept log ++ d :: todo)
    (t : Trace (Survives fit info m₀ log (d :: todo)) (ComesIn m₀) fit m₀.outside m.outside)
    (hx : x ∈ m₀.importBindings) (h : Scope.IsUsed x m.mentions) :
    Scope.IsUsed x (m₀.outside ++ (kept log ++ d :: todo).flatMap ImportDecl.mentions) := by
  obtain ⟨u, hu, huse, rfl⟩ := h
  refine ⟨u, List.mem_append.2 ?_, huse, rfl⟩
  rcases Module.mem_mentions.1 hu with hu | ⟨e, he, hu⟩
  · rcases t.exists_of_mem_right hu with ⟨a, ha, hau⟩ | hnew
    · cases hau with
      | kept => exact .inl ha
      | renamed _ hb => exact absurd hx hb
    · exact absurd hx hnew
  · exact .inr (List.mem_flatMap.2 ⟨e, himports ▸ he, hu⟩)

/-- Where templates are in order, a use of an import that has not been renamed is still
there. -/
theorem isUsed_of_not_renamed {m₀ m : Module} (himports : m.imports = kept log ++ d :: todo)
    (t : Trace (Survives true info m₀ log (d :: todo)) (ComesIn m₀) true m₀.outside m.outside)
    (hx : ¬Renamed info m₀.outside log (d :: todo) x)
    (h : Scope.IsUsed x (m₀.outside ++ (kept log ++ d :: todo).flatMap ImportDecl.mentions)) :
    Scope.IsUsed x m.mentions := by
  obtain ⟨u, hu, huse, rfl⟩ := h
  refine ⟨u, Module.mem_mentions.2 ?_, huse, rfl⟩
  rcases List.mem_append.1 hu with hu | hu
  · obtain ⟨u', hu', huu'⟩ := t.exists_of_mem_left hu
    cases huu' with
    | kept => exact .inl hu'
    | renamed hren _ => exact absurd hren hx
  · obtain ⟨e, he, hu⟩ := List.mem_flatMap.1 hu
    exact .inr ⟨e, himports ▸ he, hu⟩

/-- What becomes of an identifier, and of what comes in, when the recipe of `d` is
followed: only bindings of `d` are replaced, by generated names. -/
theorem comesIn_of_renames {m₀ m m' : Module} {r : Recipe} {ts : Rewrite.Targets}
    {j j' : Injector} (hc : m₀.IsScoped) (hd : d ∈ m₀.imports)
    (hrec : info.recipe? d.source.value = some r) (he : r.Expands fit d ts m m' j j') :
    (∀ a y, ts.replacement? a = some y → info.Replaces d a.id ∧ a.id ∈ m₀.importBindings ∧
      y.id ∉ m₀.importBindings) ∧
    (∀ b c, b.ident.id ∉ m₀.importBindings → ts.Renames b c → c.ident.id ∉ m₀.importBindings) ∧
    ∀ c, ts.Adds c → ComesIn m₀ c := by
  have hrep : ∀ a y, ts.replacement? a = some y → info.Replaces d a.id ∧
      a.id ∈ m₀.importBindings ∧ y.id ∉ m₀.importBindings := by
    intro a y hy
    obtain ⟨-, name, hb, i, hi, hkey, rfl⟩ := he.sound a y hy
    refine ⟨⟨r, hrec, name, hb, by rw [hkey]; rfl⟩,
      Module.mem_importBindings_of_binding? hd hb, ?_⟩
    refine not_mem_of_generated hc (.inl ?_)
    rw [he.grows.valid.generated i hi]
    rfl
  refine ⟨hrep, fun b c hb hbc => ?_, fun c hadds => ?_⟩
  · cases hbc with
    | kept => exact hb
    | exported => exact hb
    | replaced hy => exact absurd (hrep _ _ hy).2.1 hb
  · cases hadds with
    | exported => exact not_mem_of_generated hc (.inl rfl)
    | object =>
      cases ho : ts.replacement? (.global "Object") with
      | none => exact not_mem_of_generated hc (.inr rfl)
      | some y => exact (hrep _ _ ho).2.2

/-- **One declaration.**  If its recipe is followed, exactly those of its bindings are
renamed that the recipe replaces and that are used. -/
theorem survives_dealt {m₀ m m' : Module} (hr : m₀.IsResolved) (hc : m₀.IsScoped)
    {j j' : Injector} {o : Outcome} (himports : m.imports = kept log ++ d :: todo)
    (hd : d ∈ m₀.imports)
    (t : Trace (Survives fit info m₀ log (d :: todo)) (ComesIn m₀) fit m₀.outside m.outside)
    (h : Dealt fit info d m j o m' j') :
    Trace (Survives fit info m₀ (log ++ [(d, o)]) todo) (ComesIn m₀) fit
      m₀.outside m'.outside := by
  cases h with
  | left ho =>
    refine t.mono (fun a _ b _ hab => ?_) fun _ _ h => h
    have hno : ¬∃ keep, o = .expanded keep := by
      rintro ⟨keep, rfl⟩
      rcases ho with h | ⟨_, h⟩ <;> cases h
    cases hab with
    | kept h =>
      refine .kept fun hx => ⟨fun hu ht => ?_, fun hf hren => ?_⟩
      · exact (h hx).1 hu ((touched_append.1 ht).resolve_right fun h => hno h.1)
      · exact (h hx).2 hf ((renamed_append.1 hren).resolve_right fun h => hno h.1)
    | renamed h hb => exact .renamed (renamed_append.2 (.inl h)) hb
  | @expanded r ts _ _ hrec he =>
    obtain ⟨hrep, hstay, hadds⟩ := comesIn_of_renames hc hd hrec he
    refine t.comp he.trace (fun a ha b hb c hab hbc => ?_) (fun b _ c => hstay b c) hadds
    cases hab with
    | renamed h hbn =>
      have h' := renamed_append (o := .expanded r.keepsImport).2 (.inl h)
      exact .renamed h' (hstay _ _ hbn hbc)
    | kept h =>
      cases hbc with
      | exported => exact .kept fun hx => absurd hx (hr _ ha (.inr rfl))
      | replaced hy =>
        obtain ⟨hrep, hmem, hgen⟩ := hrep _ _ hy
        have hu := isUsed_of_survives himports t hmem (he.sound _ _ hy).1
        exact .renamed (renamed_append.2 (.inr ⟨⟨_, rfl⟩, hrep, hu⟩)) hgen
      | kept hnone =>
        -- An identifier that is not replaced is no used binding that the recipe replaces.
        have hno : info.Replaces d a.ident.id → ¬Scope.IsUsed a.ident.id m.mentions := by
          rintro ⟨r', hr', name, hbind, hrun⟩ hu
          cases hrec.symm.trans hr'
          have := he.complete a.ident name hbind hrun hu
          rw [hnone] at this
          cases this
        refine .kept fun hx => ⟨fun hu ht => ?_, fun hf hren => ?_⟩
        · refine (h hx).1 hu ((touched_append.1 ht).resolve_right fun ht => hno ht.2 ?_)
          exact ⟨a, Module.mem_mentions.2 (.inl hb), hu, rfl⟩
        · subst hf
          refine (h hx).2 rfl ((renamed_append.1 hren).resolve_right ?_)
          rintro ⟨-, hrep, hu⟩
          exact hno hrep (isUsed_of_not_renamed himports t ((h hx).2 rfl) hu)

/-- An identifier that means an import after the pass is one that has survived as it is. -/
theorem Survives.eq_of_mem {m : Module} {a b : Mention} (h : Survives fit info m log todo a b)
    (hb : b.ident.id ∈ m.importBindings) :
    b = a ∧ (Scope.isUse b = true → ¬Touched info log b.ident.id) ∧
      (fit = true → ¬Renamed info m.outside log todo b.ident.id) := by
  cases h with
  | kept h => exact ⟨rfl, h hb⟩
  | renamed _ hn => exact absurd hb hn

/-- **The pass, from its start to its end.**  Each declaration is dealt with, those that are
expanded and not kept leave the module, and every identifier outside of the imports can
be traced. -/
theorem module_survives (o : Options) (env : FileEnv) {m : Module}
    (hm : m.wellShaped fit = true) (hr : m.IsResolved) (hc : m.IsScoped) :
    let s := FileState.ofProgram o env (.module m)
    let m' := (module m s).1.2
    let log := m.imports.zip (module m s).1.1
    log.map Prod.fst = m.imports ∧ m'.imports = kept log ∧
      Trace (Survives fit s.info m log []) (ComesIn m) fit m.outside m'.outside := by
  intro s m' log
  have hstart : Trace (Survives fit s.info m [] m.imports) (ComesIn m) fit m.outside m.outside :=
    .refl fun a _ => .kept fun _ => ⟨fun _ h => by simp [Touched] at h, fun _ h => by
      simp [Renamed] at h⟩
  obtain ⟨-, hfst, himports, -, t⟩ := module_induct
    (P := fun log todo outside _ => log.map Prod.fst ++ todo = m.imports ∧
      Trace (Survives fit s.info m log todo) (ComesIn m) fit m.outside outside)
    (ready_ofProgram o env hm) ⟨rfl, hstart⟩
    fun log d todo m' j o m'' j' himports _ ⟨hlog, t⟩ hdealt => by
      refine ⟨by rw [← hlog, List.map_append, List.append_assoc]; rfl, ?_⟩
      have hd : d ∈ m.imports := by
        rw [← hlog]
        exact List.mem_append_right _ (List.mem_cons_self ..)
      exact survives_dealt hr hc himports hd t hdealt
  exact ⟨hfst, himports, t⟩

/-- **What is left of a removed import.**  A binding of it that is still mentioned was
mentioned before; and, where templates are in order, it is still mentioned exactly if
it was mentioned and has not been renamed.  A use is left only if no declaration that
was expanded replaces the binding. -/
theorem mentions_iff_not_renamed (o : Options) (env : FileEnv) {m : Module}
    (hm : m.wellShaped fit = true) (hr : m.IsResolved) (hc : m.IsScoped) :
    let s := FileState.ofProgram o env (.module m)
    let m' := (module m s).1.2
    let log := m.imports.zip (module m s).1.1
    log.map Prod.fst = m.imports ∧ m'.imports = kept log ∧
      ∀ d, (d, .expanded false) ∈ log → ∀ x ∈ d.bindings,
        (∀ b ∈ m'.outside, b.ident.id = x →
          b ∈ m.outside ∧ (Scope.isUse b = true → ¬Touched s.info log x)) ∧
        (fit = true → (m'.Mentions x ↔ m.Mentions x ∧ ¬Renamed s.info m.outside log [] x)) := by
  intro s m' log
  obtain ⟨hfst, himports, t⟩ := module_survives o env hm hr hc
  refine ⟨hfst, himports, fun d hd x hx => ?_⟩
  have hmem : x ∈ m.importBindings :=
    Module.mem_importBindings.2 ⟨d, hfst ▸ List.mem_map.2 ⟨_, hd, rfl⟩, hx⟩
  -- A binding of an import never comes in anew, so what mentions it now did so before.
  have hback : ∀ b ∈ m'.outside, b.ident.id = x → b ∈ m.outside ∧
      (Scope.isUse b = true → ¬Touched s.info log x) ∧
        (fit = true → ¬Renamed s.info m.outside log [] x) := by
    rintro b hb rfl
    rcases t.exists_of_mem_right hb with ⟨a, ha, hab⟩ | hnew
    · obtain ⟨rfl, h⟩ := hab.eq_of_mem hmem
      exact ⟨ha, h⟩
    · exact absurd hmem hnew
  refine ⟨fun b hb hid => ⟨(hback b hb hid).1, (hback b hb hid).2.1⟩, fun hf => ⟨?_, ?_⟩⟩
  · rintro ⟨b, hb, hid⟩
    exact ⟨⟨b, (hback b hb hid).1, hid⟩, (hback b hb hid).2.2 hf⟩
  · rintro ⟨⟨a, ha, rfl⟩, hno⟩
    subst hf
    obtain ⟨b, hb, hab⟩ := t.exists_of_mem_left ha
    cases hab with
    | kept => exact ⟨a, hb, rfl⟩
    | renamed h _ => exact absurd h hno

/-- `import styled, { css } from "react-emotion"`. -/
def styledAndCss : ImportDecl where
  span := Span.dummy
  specifiers := [.default Span.dummy ⟨Span.dummy, 2, "styled", false⟩,
    .named Span.dummy ⟨Span.dummy, 2, "css", false⟩ none false]
  source := ⟨Span.dummy, "react-emotion", none⟩
  attributes := .absent
  typeOnly := false
  phase := "evaluation"

/-- The module `import styled, { css } from "react-emotion"; styled; css;`. -/
def usesStyledAndCss : Module where
  head := Head.empty
  body := .importing styledAndCss :: ["styled", "css"].map fun name =>
    .node (.inner .expressionStatement Head.empty
      [.ident .reference ⟨Span.dummy, 2, name, false⟩])

/-- The import is removed. -/
theorem mem_log_usesStyledAndCss :
    (styledAndCss, .expanded false) ∈ usesStyledAndCss.imports.zip
      (module usesStyledAndCss
        (FileState.ofProgram {} ⟨none, "", none⟩ (.module usesStyledAndCss))).1.1 := by
  have hlog : (module usesStyledAndCss
      (FileState.ofProgram {} ⟨none, "", none⟩ (.module usesStyledAndCss))).1.1 =
        [.expanded false] := by decide
  rw [hlog]
  exact List.mem_singleton_self _

/-- `css` is still mentioned, so it has not been renamed. -/
theorem not_renamed_css :
    ¬Renamed (FileInfo.ofOptions {} ⟨none, "", none⟩ false) usesStyledAndCss.outside
      [(styledAndCss, .expanded false)] [] ⟨"css", 2⟩ := by
  have hm : usesStyledAndCss.wellShaped true = true := by decide
  have h := (mentions_iff_not_renamed {} ⟨none, "", none⟩ hm (by decide) (by decide)).2.2
    styledAndCss mem_log_usesStyledAndCss ⟨"css", 2⟩ (by decide)
  exact ((h.2 rfl).1 (by decide)).2

/-- A removed import may leave uses behind that nothing declares. -/
theorem not_forall_not_mentions :
    ¬∀ (o : Options) (env : FileEnv) (m : Module), m.wellShaped true = true → m.IsResolved →
      m.IsScoped →
      ∀ d, (d, .expanded false) ∈
          m.imports.zip (module m (FileState.ofProgram o env (.module m))).1.1 →
        ∀ x ∈ d.bindings, ¬(module m (FileState.ofProgram o env (.module m))).1.2.Mentions x := by
  intro h
  exact h {} ⟨none, "", none⟩ usesStyledAndCss (by decide) (by decide) (by decide) styledAndCss
    mem_log_usesStyledAndCss ⟨"css", 2⟩ (by decide) (by decide)

end ImportPass
end StyleLowering
