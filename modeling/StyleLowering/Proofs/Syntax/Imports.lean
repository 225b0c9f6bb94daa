/-
# Imports, and what is outside of them

The import declarations of a program, and the identifiers it mentions outside
of them.  Together these are all that it mentions (`Module.mem_mentions`).
-/

import StyleLowering.Syntax.Idents
import Mathlib.Data.List.Forall2

namespace StyleLowering

/-- The import declaration that an item is. -/
def Item.import? : Item → Option ImportDecl
  | .importing d => some d
  | .node _ => none

/-- The identifiers of an item that is not an import declaration. -/
def Item.outside : Item → List Mention
  | .importing _ => []
  | .node n => n.mentions

/-- The import declarations of a module, in their order. -/
def Module.imports (m : Module) : List ImportDecl := m.body.filterMap Item.import?

/-- The identifiers of a module outside of its imports. -/
def Module.outside (m : Module) : List Mention := m.body.flatMap Item.outside

/-- The import declarations of a program; a script has none. -/
def Program.imports : Program → List ImportDecl
  | .module m => m.imports
  | .script _ => []

/-- The identifiers of a program outside of its imports. -/
def Program.outside : Program → List Mention
  | .module m => m.outside
  | .script s => s.mentions

/-- The bindings that an import declaration declares. -/
def ImportDecl.bindings (d : ImportDecl) : List Id := d.specifiers.map (·.binding.id)

/-- The imports of a module are items of its body. -/
theorem Module.mem_imports {m : Module} {d : ImportDecl} :
    d ∈ m.imports ↔ .importing d ∈ m.body := by
  rw [imports, List.mem_filterMap]
  constructor
  · rintro ⟨i, hi, hd⟩
    cases i with
    | importing d' =>
      cases hd
      exact hi
    | node n => cases hd
  · exact fun hd => ⟨_, hd, rfl⟩

/-- A module mentions what it mentions outside of its imports and in them. -/
theorem Module.mem_mentions {m : Module} {a : Mention} :
    a ∈ m.mentions ↔ a ∈ m.outside ∨ ∃ d ∈ m.imports, a ∈ d.mentions := by
  simp only [mentions, outside, mem_imports, List.mem_flatMap]
  constructor
  · rintro ⟨i, hi, ha⟩
    cases i with
    | importing d => exact .inr ⟨d, hi, ha⟩
    | node n => exact .inl ⟨_, hi, ha⟩
  · rintro (⟨i, hi, ha⟩ | ⟨d, hd, ha⟩)
    · cases i with
      | importing d => exact absurd ha List.not_mem_nil
      | node n => exact ⟨_, hi, ha⟩
    · exact ⟨_, hd, ha⟩

namespace Module

variable {m m' : Module}

/-- Whether a module has its imports at the same places as another one. -/
def KeepsImports (m m' : Module) : Prop :=
  List.Forall₂ (fun i j : Item => j.import? = i.import?) m.body m'.body

/-- A module has its imports at its own places. -/
theorem keepsImports_refl (m : Module) : m.KeepsImports m :=
  List.forall₂_refl _

/-- Imports at the same places are the same list. -/
theorem filterMap_import?_of_forall₂ {is js : List Item}
    (h : List.Forall₂ (fun i j : Item => j.import? = i.import?) is js) :
    js.filterMap Item.import? = is.filterMap Item.import? := by
  induction h with
  | nil => rfl
  | cons h _ ih => rw [List.filterMap_cons, List.filterMap_cons, h, ih]

/-- A module with its imports at the same places has the same imports. -/
theorem KeepsImports.imports (h : m.KeepsImports m') : m'.imports = m.imports :=
  filterMap_import?_of_forall₂ h

/-- Where an import declaration stands, it still stands. -/
theorem KeepsImports.split (h : m.KeepsImports m') {before after : List Item} {d : ImportDecl}
    (hb : m.body = before ++ .importing d :: after) :
    ∃ before' after', m'.body = before' ++ .importing d :: after' ∧
      before'.length = before.length ∧ after'.length = after.length ∧
      before'.filterMap Item.import? = before.filterMap Item.import? ∧
      after'.filterMap Item.import? = after.filterMap Item.import? := by
  rw [KeepsImports, hb] at h
  have h₁ := (List.forall₂_take_append _ _ _ h.flip).flip
  have h₂ := (List.forall₂_drop_append _ _ _ h.flip).flip
  rw [List.forall₂_cons_left_iff] at h₂
  obtain ⟨i, after', hi, h₂, he⟩ := h₂
  cases i with
  | importing e =>
    cases hi
    exact ⟨_, after', by rw [← he, List.take_append_drop], h₁.length_eq.symm, h₂.length_eq.symm,
      filterMap_import?_of_forall₂ h₁, filterMap_import?_of_forall₂ h₂⟩
  | node n => cases hi

/-- One module is another one without an import declaration. -/
def Drops (d : ImportDecl) (m m' : Module) : Prop :=
  ∃ before after, m.body = before ++ .importing d :: after ∧ m'.body = before ++ after

/-- To drop an import changes nothing outside of imports. -/
theorem Drops.outside {d : ImportDecl} (h : Drops d m m') : m'.outside = m.outside := by
  obtain ⟨before, after, hm, hm'⟩ := h
  rw [Module.outside, Module.outside, hm, hm', List.flatMap_append, List.flatMap_append,
    List.flatMap_cons]
  rfl

/-- To drop an import adds no item. -/
theorem Drops.body_subset {d : ImportDecl} (h : Drops d m m') : m'.body ⊆ m.body := by
  obtain ⟨before, after, hm, hm'⟩ := h
  rw [hm, hm']
  exact List.append_subset.2
    ⟨List.subset_append_left _ _,
      List.Subset.trans (List.subset_cons_self _ _) (List.subset_append_right _ _)⟩

/-- To drop an import adds no identifier. -/
theorem Drops.mentions_subset {d : ImportDecl} (h : Drops d m m') : m'.mentions ⊆ m.mentions := by
  intro a ha
  obtain ⟨i, hi, ha⟩ := List.mem_flatMap.1 ha
  exact List.mem_flatMap.2 ⟨i, h.body_subset hi, ha⟩

end Module
end StyleLowering
