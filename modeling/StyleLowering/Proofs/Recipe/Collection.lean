/-
# The bindings that references know of

References have one entry for each imported name.  If all bindings of a declaration are in the
index, there are references (`ReferenceMap.exists_collect`), and each entry is that of the last
specifier for its name.  So a specifier has an entry of its own unless a later one imports the
same name under another binding (`ReferenceMap.collect_lists_iff`).  The binding that lost its
entry is not looked at any more: it counts as unused, and nothing takes its place when the
declaration leaves the module.
-/

import StyleLowering.Proofs.Recipe.References

namespace StyleLowering

/-- The last specifier of a declaration for an imported name. -/
def ImportDecl.lastFor? (d : ImportDecl) (name : String) : Option ImportSpecifier :=
  d.specifiers.reverse.find? (·.importedName? == some name)

/-- A name is bound by the last specifier for it. -/
theorem ImportDecl.binding?_eq_map (d : ImportDecl) (name : String) :
    d.binding? name = (d.lastFor? name).map (·.binding.id) := rfl

/-- There is a last specifier for each name that is imported. -/
theorem ImportDecl.exists_lastFor? {d : ImportDecl} {name : String} {s : ImportSpecifier}
    (hs : s ∈ d.specifiers) (hn : s.importedName? = some name) : ∃ t, d.lastFor? name = some t := by
  rw [← Option.isSome_iff_exists, lastFor?, List.find?_isSome]
  exact ⟨s, List.mem_reverse.2 hs, beq_iff_eq.2 hn⟩

/-- A declared binding has a list of sites, which may be empty. -/
theorem Scope.Index.exists_sites? {i : Index} {x : Id} (h : x ∈ i.declared) :
    ∃ sites, i.sites? x = some sites :=
  ⟨_, if_pos h⟩

namespace ReferenceMap

variable {scope : Scope.Index} {d : ImportDecl} {refs : ReferenceMap}

/-- Whether references have an entry for a specifier: one under the name that it imports, with
its binding and with all places where the index has that binding used. -/
def Lists (refs : ReferenceMap) (scope : Scope.Index) (s : ImportSpecifier) : Prop :=
  ∃ name r, s.importedName? = some name ∧ (name, r) ∈ refs ∧ r.binding = s.binding.id ∧
    scope.sites? s.binding.id = some r.sites

/-- Nothing but a binding that is not declared stands in the way of references. -/
theorem exists_collect (m : ReferenceMap) {ss : List ImportSpecifier}
    (h : ∀ s ∈ ss, s.binding.id ∈ scope.declared) : ∃ refs, collect scope m ss = some refs := by
  induction ss generalizing m with
  | nil => exact ⟨m, rfl⟩
  | cons s ss ih =>
    rw [List.forall_mem_cons] at h
    rw [collect]
    cases s.importedName? with
    | none => exact ih m h.2
    | some name =>
      obtain ⟨sites, hs⟩ := Scope.Index.exists_sites? h.1
      obtain ⟨refs, hrefs⟩ := ih (m.insert name ⟨s.binding.id, sites⟩) h.2
      exact ⟨refs, by dsimp only; rw [hs]; exact hrefs⟩

/-- The entries of references are those of the last specifiers for their names. -/
theorem mem_collect_iff (h : collect scope [] d.specifiers = some refs) {name : String}
    {r : References} :
    (name, r) ∈ refs ↔ ∃ s, d.lastFor? name = some s ∧ r.binding = s.binding.id ∧
      scope.sites? s.binding.id = some r.sites := by
  rw [mem_iff_lookup (nodup_collect (m := []) List.nodup_nil h)]
  rcases lookup_collect h name with ⟨s, sites, hf, hs, hl⟩ | ⟨hf, hl⟩
  · rw [hl, Option.some.injEq]
    constructor
    · rintro rfl
      exact ⟨s, hf, rfl, hs⟩
    · rintro ⟨t, ht, hb, ht'⟩
      cases hf.symm.trans ht
      rw [hs, Option.some.injEq] at ht'
      rw [← hb, ht']
  · rw [hl]
    refine ⟨fun hn => absurd hn (by simp), ?_⟩
    rintro ⟨t, ht, -⟩
    cases hf.symm.trans ht

/-- What references say of a declaration. -/
structure CollectedFrom (refs : ReferenceMap) (scope : Scope.Index) (d : ImportDecl) : Prop where
  /-- There is one entry for each name. -/
  nodup : (refs.map Prod.fst).Nodup
  entries : ∀ name r, (name, r) ∈ refs ↔ ∃ s, d.lastFor? name = some s ∧
    r.binding = s.binding.id ∧ scope.sites? s.binding.id = some r.sites
  /-- A specifier has an entry exactly if the last one for the same name has the same binding. -/
  lists_iff : ∀ s ∈ d.specifiers, refs.Lists scope s ↔
    ∃ name, s.importedName? = some name ∧ d.binding? name = some s.binding.id

/-- **The bindings that references know of.**  If all bindings of a declaration are in the
index, it has references, and they list a specifier exactly if no later one imports the same
name under another binding. -/
theorem collect_lists_iff (hd : ∀ s ∈ d.specifiers, s.binding.id ∈ scope.declared) :
    ∃ refs, collect scope [] d.specifiers = some refs ∧ refs.CollectedFrom scope d := by
  obtain ⟨refs, h⟩ := exists_collect [] hd
  refine ⟨refs, h, nodup_collect (m := []) List.nodup_nil h, fun _ _ => mem_collect_iff h,
    fun s hs => ⟨?_, ?_⟩⟩
  · rintro ⟨name, r, hn, hr, hb, -⟩
    obtain ⟨t, ht, hb', -⟩ := (mem_collect_iff h).1 hr
    exact ⟨name, hn, by rw [ImportDecl.binding?_eq_map, ht, ← hb, hb']; rfl⟩
  · rintro ⟨name, hn, hb⟩
    obtain ⟨t, ht⟩ := ImportDecl.exists_lastFor? hs hn
    rw [ImportDecl.binding?_eq_map, ht, Option.map_some, Option.some.injEq] at hb
    obtain ⟨sites, hsites⟩ := Scope.Index.exists_sites? (hd s hs)
    refine ⟨name, ⟨s.binding.id, sites⟩, hn, (mem_collect_iff h).2 ⟨t, ht, hb.symm, ?_⟩, rfl,
      hsites⟩
    rw [hb]
    exact hsites

/-- `import { css, css as c, cx } from "emotion"`. -/
def cssTwice : ImportDecl where
  span := Span.dummy
  specifiers :=
    let local_ (name : String) : Ident := ⟨Span.dummy, 2, name, false⟩
    [.named Span.dummy (local_ "css") none false,
     .named Span.dummy (local_ "c") (some (.ident (local_ "css"))) false,
     .named Span.dummy (local_ "cx") none false]
  source := ⟨Span.dummy, "emotion", none⟩
  attributes := .absent
  typeOnly := false
  phase := "evaluation"

/-- An index with the bindings of `cssTwice`, in which `css` is used. -/
def cssTwiceIndex : Scope.Index where
  declared := [⟨"css", 2⟩, ⟨"c", 2⟩, ⟨"cx", 2⟩]
  uses := [(⟨"css", 2⟩, ⟨42, 45⟩)]
  stale := false
  generation := 1

/-- Of the two bindings for `css` only the later one is listed. -/
theorem lists_cssTwice :
    (∀ s ∈ cssTwice.specifiers, s.binding.id ∈ cssTwiceIndex.declared) ∧
      ∃ refs, collect cssTwiceIndex [] cssTwice.specifiers = some refs ∧
        ∀ s ∈ cssTwice.specifiers, refs.Lists cssTwiceIndex s ↔ s.binding.name ≠ "css" := by
  have hd : ∀ s ∈ cssTwice.specifiers, s.binding.id ∈ cssTwiceIndex.declared := by decide
  have hlast : ∀ s ∈ cssTwice.specifiers, (∃ name ∈ s.importedName?,
      cssTwice.binding? name = some s.binding.id) ↔ s.binding.name ≠ "css" := by decide
  obtain ⟨refs, h, hrefs⟩ := collect_lists_iff hd
  exact ⟨hd, refs, h, fun s hs => (hrefs.lists_iff s hs).trans (hlast s hs)⟩

/-- References may know nothing of a binding that the declaration has and the module uses. -/
theorem not_forall_lists :
    ¬∀ (scope : Scope.Index) (d : ImportDecl), (∀ s ∈ d.specifiers, s.isStar = false) →
      (∀ s ∈ d.specifiers, s.binding.id ∈ scope.declared) →
      ∃ refs, collect scope [] d.specifiers = some refs ∧
        ∀ s ∈ d.specifiers, refs.Lists scope s := by
  intro h
  obtain ⟨refs, hrefs, hlists⟩ := h cssTwiceIndex cssTwice (by decide) (by decide)
  have heq : refs = [("css", ⟨⟨"c", 2⟩, []⟩), ("cx", ⟨⟨"cx", 2⟩, []⟩)] :=
    Option.some.inj (hrefs.symm.trans rfl)
  obtain ⟨name, r, -, hr, hb, -⟩ := hlists _ (List.mem_cons_self ..)
  subst heq
  have hnot : ∀ e ∈ ([("css", ⟨⟨"c", 2⟩, []⟩), ("cx", ⟨⟨"cx", 2⟩, []⟩)] : ReferenceMap),
      e.2.binding ≠ ⟨"css", 2⟩ := by decide
  exact hnot _ hr hb

end ReferenceMap
end StyleLowering
