/-
# References say what an import declaration binds

Of several specifiers for one imported name the last one counts
(`ImportDecl.binding?`).  The references of a declaration have exactly these
bindings, one entry for each name, and count as used those that the program
uses somewhere (`ReferenceMap.IsOf`).
-/

import StyleLowering.Recipe.References

namespace StyleLowering

/-- The binding that an import declaration has for an imported name. -/
def ImportDecl.binding? (d : ImportDecl) (name : String) : Option Id :=
  (d.specifiers.reverse.find? (·.importedName? == some name)).map (·.binding.id)

/-- A binding that a declaration has for a name is one of a specifier for that name. -/
theorem ImportDecl.exists_of_binding? {d : ImportDecl} {name : String} {x : Id}
    (h : d.binding? name = some x) :
    ∃ s ∈ d.specifiers, s.importedName? = some name ∧ s.binding.id = x := by
  obtain ⟨s, hs, hx⟩ := Option.map_eq_some_iff.1 h
  have hn : s.importedName? = some name := by simpa using List.find?_some hs
  exact ⟨s, List.mem_reverse.1 (List.mem_of_find?_eq_some hs), hn, hx⟩

/-- Whether an identifier of a program is used, by an identifier that counts as a use. -/
def Scope.IsUsed (x : Id) (ms : List Mention) : Prop := ∃ a ∈ ms, isUse a = true ∧ a.ident.id = x

namespace Scope.Index

/-- An index that has just been taken of a program, or is known to be stale. -/
def IsCurrent (i : Index) (p : Program) : Prop :=
  i.stale = true ∨ i.declared = declaredOf p.mentions ∧ i.uses = usesOf p.mentions

/-- A refreshed index has the declarations and the uses of the program. -/
theorem declared_refresh {i : Index} {p : Program} (h : i.IsCurrent p) :
    (i.refresh p).declared = declaredOf p.mentions ∧ (i.refresh p).uses = usesOf p.mentions := by
  unfold refresh
  split
  · exact ⟨rfl, rfl⟩
  · next hs => exact h.resolve_left hs

/-- The names in an index of a program are those of all its identifiers, the names of
statements excepted. -/
theorem mem_names {i : Index} {p : Program} (hd : i.declared = declaredOf p.mentions)
    (hu : i.uses = usesOf p.mentions) {a : Mention} (ha : a ∈ p.mentions)
    (hr : a.role ≠ .label) : a.ident.name ∈ i.names := by
  rw [names, hd, hu, List.mem_append]
  by_cases hb : isDeclaration a = true
  · refine .inl ?_
    exact List.mem_map.2 ⟨_, List.mem_map.2 ⟨a, List.mem_filter.2 ⟨ha, hb⟩, rfl⟩, rfl⟩
  · have huse : isUse a = true := by
      unfold isUse
      unfold isDeclaration at hb
      cases h : a.role <;> simp_all
    refine .inr ?_
    exact List.mem_map.2 ⟨_, List.mem_map.2 ⟨a, List.mem_filter.2 ⟨ha, huse⟩, rfl⟩, rfl⟩

end Scope.Index

namespace ReferenceMap

variable {scope : Scope.Index} {m refs : ReferenceMap} {ss : List ImportSpecifier}

/-- A specifier adds its references, or imports the whole namespace and adds none. -/
theorem collect_cons {s : ImportSpecifier} (h : collect scope m (s :: ss) = some refs) :
    (s.importedName? = none ∧ collect scope m ss = some refs) ∨
    ∃ name sites, s.importedName? = some name ∧ scope.sites? s.binding.id = some sites ∧
      collect scope (m.insert name ⟨s.binding.id, sites⟩) ss = some refs := by
  rw [collect] at h
  cases hn : s.importedName? with
  | none =>
    rw [hn] at h
    exact .inl ⟨rfl, h⟩
  | some name =>
    rw [hn] at h
    obtain ⟨sites, hs, h⟩ := Option.bind_eq_some_iff.1 h
    exact .inr ⟨name, sites, rfl, hs, h⟩

/-- No name gets a second entry. -/
theorem nodup_insert (h : (m.map Prod.fst).Nodup) (name : String) (r : References) :
    ((m.insert name r).map Prod.fst).Nodup := by
  rw [map_fst_insert]
  split
  · exact h
  · next hn =>
    rw [List.nodup_append]
    refine ⟨h, by simp, fun a ha b hb hab => ?_⟩
    rw [List.mem_singleton] at hb
    exact hn (hb ▸ hab ▸ ha)

/-- Each name is collected once. -/
theorem nodup_collect (hm : (m.map Prod.fst).Nodup) (h : collect scope m ss = some refs) :
    (refs.map Prod.fst).Nodup := by
  induction ss generalizing m with
  | nil =>
    cases h
    exact hm
  | cons s ss ih =>
    rcases collect_cons h with ⟨-, h⟩ | ⟨name, sites, -, -, h⟩
    · exact ih hm h
    · exact ih (nodup_insert hm name _) h

/-- The last specifier for a name decides about its entry; without one the entry is
that of the map to begin with. -/
theorem lookup_collect (h : collect scope m ss = some refs) (name : String) :
    (∃ s sites, ss.reverse.find? (·.importedName? == some name) = some s ∧
      scope.sites? s.binding.id = some sites ∧
      refs.lookup name = some ⟨s.binding.id, sites⟩) ∨
    ss.reverse.find? (·.importedName? == some name) = none ∧ refs.lookup name = m.lookup name := by
  induction ss generalizing m with
  | nil =>
    cases h
    exact .inr ⟨rfl, rfl⟩
  | cons s ss ih =>
    rw [List.reverse_cons, List.find?_append]
    rcases collect_cons h with ⟨hs, h⟩ | ⟨other, sites, hs, hsites, h⟩
    · rcases ih h with ⟨t, sites, ht, hsites, hl⟩ | ⟨hf, hl⟩
      · exact .inl ⟨t, sites, by rw [ht]; rfl, hsites, hl⟩
      · exact .inr ⟨by rw [hf]; simp [hs], hl⟩
    · rcases ih h with ⟨t, sites, ht, hsites, hl⟩ | ⟨hf, hl⟩
      · exact .inl ⟨t, sites, by rw [ht]; rfl, hsites, hl⟩
      · rw [hf, hl]
        by_cases ho : name = other
        · subst ho
          exact .inl ⟨s, sites, by simp [hs], hsites, lookup_insert_self ..⟩
        · exact .inr ⟨by simp [hs, Ne.symm ho], lookup_insert_of_ne ho ..⟩

/-- Without two entries for one name, the entries are what is found. -/
theorem mem_iff_lookup (h : (m.map Prod.fst).Nodup) {name : String} {r : References} :
    (name, r) ∈ m ↔ m.lookup name = some r := by
  induction m with
  | nil => simp
  | cons e m ih =>
    rw [List.map_cons, List.nodup_cons] at h
    rw [List.mem_cons, List.lookup_cons, ih h.2]
    by_cases he : name = e.1
    · subst he
      have hn : m.lookup e.1 = none := by
        rw [List.lookup_eq_none_iff]
        intro p hp
        rw [bne_iff_ne]
        rintro hpe
        exact h.1 (hpe ▸ List.mem_map_of_mem hp)
      simp only [BEq.rfl, hn, reduceCtorEq, or_false, Option.some.injEq]
      exact ⟨fun h => by rw [← h], fun h => by rw [← h]⟩
    · rw [beq_eq_false_iff_ne.2 he]
      refine ⟨fun h => h.resolve_left ?_, .inr⟩
      rintro rfl
      exact he rfl

/-- References that are those of an import declaration in a program. -/
structure IsOf (refs : ReferenceMap) (d : ImportDecl) (ms : List Mention) : Prop where
  nodup : (refs.map Prod.fst).Nodup
  lookup : ∀ name, (refs.lookup name).map (·.binding) = d.binding? name
  isUsed : ∀ name r, refs.lookup name = some r → (r.isUsed = true ↔ Scope.IsUsed r.binding ms)

/-- The references of a declaration, looked up in an index of the program, are its
references in the program. -/
theorem isOf_collect {d : ImportDecl} {p : Program}
    (hu : scope.uses = Scope.Index.usesOf p.mentions)
    (h : collect scope [] d.specifiers = some refs) : refs.IsOf d p.mentions where
  nodup := nodup_collect (m := []) List.nodup_nil h
  lookup name := by
    rw [ImportDecl.binding?]
    rcases lookup_collect h name with ⟨s, sites, hf, -, hl⟩ | ⟨hf, hl⟩
    · rw [hf, hl]; rfl
    · rw [hf, hl]; rfl
  isUsed name r hr := by
    rcases lookup_collect h name with ⟨s, sites, -, hs, hl⟩ | ⟨-, hl⟩
    · rw [hl] at hr
      cases hr
      have hne : References.isUsed ⟨s.binding.id, sites⟩ = true ↔ ∃ span, span ∈ sites := by
        cases sites <;> simp [References.isUsed]
      rw [hne]
      simp only [Scope.Index.mem_sites? hs, hu, Scope.Index.usesOf, List.mem_map, List.mem_filter,
        Prod.mk.injEq, Scope.IsUsed]
      constructor
      · rintro ⟨span, a, ⟨ha, hau⟩, hid, -⟩
        exact ⟨a, ha, hau, hid⟩
      · rintro ⟨a, ha, hau, hid⟩
        exact ⟨_, a, ⟨ha, hau⟩, hid, rfl⟩
    · rw [hl] at hr
      cases hr

end ReferenceMap
end StyleLowering
