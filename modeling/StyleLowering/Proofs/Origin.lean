/-
# Where the identifiers of a rewritten program come from

An identifier of a rewritten program is one of the user, which is spelled unlike
all injected imports, or a rewrite has put it there: in the place of a binding
for which an injected import is prescribed (`Becomes.runtime`), or together with
code that the rewrites generate (`Comes`).

What is known stays true while more imports are injected, as long as their names
are new, and while further bindings are renamed.
-/

import StyleLowering.Proofs.Imports.Injector
import StyleLowering.Proofs.Rewrite.Renaming

namespace StyleLowering

/-- The import that compiled css props call. -/
def cssPropKey : String × Export := ("@emotion/css", .default)

/-- What has become of an identifier of the user.  `prescribed` says of which exports
injected imports may take the place of a binding. -/
inductive Becomes (prescribed : Id → String × Export → Prop) (j : Injector) :
    Mention → Mention → Prop where
  /-- It stays, and it is spelled unlike all injected imports. -/
  | user {a : Mention} (h : a.role = .label ∨ a.ident.name ∉ j.names) : Becomes prescribed j a a
  /-- An injected import that is prescribed for it takes its place. -/
  | runtime {a : Mention} {i : Injection} (hi : i ∈ j.injected)
      (h : prescribed a.ident.id i.key) :
      Becomes prescribed j a ⟨a.role.replaced, i.binding.moveTo a.ident.span⟩

/-- What comes in with generated code. -/
inductive Comes (prescribed : Id → String × Export → Prop) (j : Injector) : Mention → Prop where
  /-- The outer name of an export. -/
  | outerName {name : String} (h : name ∉ j.names) :
      Comes prescribed j ⟨.exported, .generated name⟩
  /-- One of the globals `Object` and `require`. -/
  | global {name : String} (h : name = "Object" ∨ name = "require") :
      Comes prescribed j ⟨.reference, .global name⟩
  /-- What takes the place of a generated identifier that is taken for an import. -/
  | runtime {role : Role} {x : Ident} {i : Injection} (hi : i ∈ j.injected)
      (hx : x = .generated x.name ∨ x = .global x.name) (h : prescribed x.id i.key) :
      Comes prescribed j ⟨role, i.binding.moveTo x.span⟩
  /-- What a compiled css prop calls. -/
  | cssProp {i : Injection} (hi : i ∈ j.injected) (h : i.key = cssPropKey) :
      Comes prescribed j ⟨.reference, i.binding⟩
  /-- The name that a declaration in a script declares. -/
  | declared {i : Injection} (hi : i ∈ j.injected) : Comes prescribed j ⟨.binding, i.binding⟩

variable {prescribed : Id → String × Export → Prop} {j j' : Injector} {occupied : List String}
variable {ts : Rewrite.Targets} {a b c : Mention}

/-- No injected import is called `Object` or `require`. -/
theorem Injector.Valid.name_ne (h : j.Valid) {name : String}
    (hn : name = "Object" ∨ name = "require") : name ∉ j.names := by
  intro hm
  obtain ⟨i, hi, rfl⟩ := Injector.mem_names.1 hm
  have := h.madeUp i hi
  rcases hn with hn | hn <;> rw [hn] at this
  · exact Imports.not_isMadeUp_object this
  · exact Imports.not_isMadeUp_require this

/-- What an identifier may become it still may when more is injected. -/
theorem Becomes.grow (hg : Injector.Grows occupied j j')
    (ho : b.role ≠ .label → b.ident.name ∈ occupied) (h : Becomes prescribed j a b) :
    Becomes prescribed j' a b := by
  cases h with
  | user h =>
    refine .user ?_
    by_cases hl : a.role = .label
    · exact .inl hl
    · exact .inr (hg.not_mem_names (ho hl) (h.resolve_left hl))
  | runtime hi h => exact .runtime (hg.subset hi) h

/-- What may come in still may when more is injected. -/
theorem Comes.grow (hg : Injector.Grows occupied j j')
    (ho : b.role ≠ .label → b.ident.name ∈ occupied) (h : Comes prescribed j b) :
    Comes prescribed j' b := by
  cases h with
  | outerName h => exact .outerName (hg.not_mem_names (ho (by simp)) h)
  | global h => exact .global h
  | runtime hi hx h => exact .runtime (hg.subset hi) hx h
  | cssProp hi h => exact .cssProp (hg.subset hi) h
  | declared hi => exact .declared (hg.subset hi)

/-- Targets that put prescribed imports in the place of bindings which are spelled
unlike the injected ones. -/
structure Rewrite.Targets.Prescribed (prescribed : Id → String × Export → Prop) (j : Injector)
    (ts : Rewrite.Targets) : Prop where
  runtime : ∀ x y, ts.replacement? x = some y →
    ∃ i ∈ j.injected, prescribed x.id i.key ∧ y = i.binding.moveTo x.span
  fresh : ∀ x y, ts.replacement? x = some y → x.name ∉ j.names

/-- An injected import is no target. -/
theorem Rewrite.Targets.Prescribed.not_target (hts : ts.Prescribed prescribed j) {i : Injection}
    (hi : i ∈ j.injected) {x y : Ident} (hy : ts.replacement? x = some y)
    (hx : x.name = i.binding.name) : False :=
  hts.fresh _ _ hy (Injector.mem_names.2 ⟨i, hi, hx.symm⟩)

/-- A binding is renamed once at most. -/
theorem Becomes.renames (hts : ts.Prescribed prescribed j) (h : Becomes prescribed j a b)
    (hbc : ts.Renames b c) : Becomes prescribed j a c := by
  cases hbc with
  | kept => exact h
  | exported => exact h
  | replaced hy =>
    cases h with
    | user =>
      obtain ⟨i, hi, hp, rfl⟩ := hts.runtime _ _ hy
      exact .runtime hi hp
    | runtime hi => exact (hts.not_target hi hy rfl).elim

/-- What has come in may be renamed, and may have come in as it is then. -/
theorem Comes.renames (hts : ts.Prescribed prescribed j) (h : Comes prescribed j b)
    (hbc : ts.Renames b c) : Comes prescribed j c := by
  cases hbc with
  | kept => exact h
  | exported => exact h
  | replaced hy =>
    obtain ⟨k, hk, hp, rfl⟩ := hts.runtime _ _ hy
    cases h with
    | outerName => exact .runtime hk (.inl rfl) hp
    | global => exact .runtime hk (.inr rfl) hp
    | runtime hi => exact (hts.not_target hi hy rfl).elim
    | cssProp hi => exact (hts.not_target hi hy rfl).elim
    | declared hi => exact (hts.not_target hi hy rfl).elim

/-- What a rewrite adds comes in with generated code. -/
theorem Comes.of_adds (hts : ts.Prescribed prescribed j) (h : ts.Adds b) :
    Comes prescribed j b := by
  cases h with
  | exported hy => exact .outerName (hts.fresh _ _ hy)
  | object =>
    cases ho : ts.replacement? (.global "Object") with
    | none => exact .global (.inl rfl)
    | some y =>
      obtain ⟨i, hi, hp, rfl⟩ := hts.runtime _ _ ho
      exact .runtime hi (.inr rfl) hp

end StyleLowering
