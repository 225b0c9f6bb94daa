/-
# The sites of an import are what a rewrite replaces

The index and the rewriting pass both look for the uses of a binding.  Where the
code only uses an import they find the same ones: the sites that the index has
are the places of the identifiers that the pass turns into the replacement
(`Rewriter.module_turnsSites`).

Attributes of the declarations are left out.  The index looks into them, and the
pass leaves imports alone.
-/

import StyleLowering.Proofs.ImportPass.Dangling
import StyleLowering.Proofs.Rewrite.Frame

namespace StyleLowering

/-- What an identifier is turned into where `y` takes the place of `x`. -/
def Mention.turned (x : Id) (y : Ident) (a : Mention) : Mention :=
  if a.ident.id = x then ⟨a.role.replaced, y.moveTo a.ident.span⟩ else a

/-- An identifier that is turned stays in its place. -/
@[simp] theorem Mention.span_turned (x : Id) (y : Ident) (a : Mention) :
    (a.turned x y).ident.span = a.ident.span := by
  unfold turned
  split
  · exact Ident.span_moveTo y _
  · rfl

/-- What is turned into something new can be told by its name. -/
theorem Mention.id_turned_eq_iff {x : Id} {y : Ident} {a : Mention} (ha : a.ident.id ≠ y.id) :
    (a.turned x y).ident.id = y.id ↔ a.ident.id = x := by
  unfold turned
  split
  · next hx => simp [hx]
  · next hx => simp [hx, ha]

/-- Nothing is left of what is turned into something else. -/
theorem Mention.id_turned_ne {x : Id} {y : Ident} (hy : y.id ≠ x) (a : Mention) :
    (a.turned x y).ident.id ≠ x := by
  unfold turned
  split
  · exact hy
  · next hx => exact hx

namespace Module

/-- The code of a module uses a binding and does nothing else to it: it neither declares it
again nor assigns it, and no label and no outer name of an export is taken for it. -/
def OnlyUses (m : Module) (x : Id) : Prop :=
  ∀ a ∈ m.outside, a.ident.id = x → a.role ∉ [Role.binding, .label, .exported]

/-- The attributes of imports do not mention a binding. -/
def AttributesAvoid (m : Module) (x : Id) : Prop :=
  ∀ d ∈ m.imports, ∀ a ∈ d.attributes.mentions, a.ident.id ≠ x

instance (m : Module) (x : Id) : Decidable (m.OnlyUses x) :=
  inferInstanceAs (Decidable (∀ a ∈ m.outside, _ → _))

instance (m : Module) (x : Id) : Decidable (m.AttributesAvoid x) :=
  inferInstanceAs (Decidable (∀ d ∈ m.imports, ∀ a ∈ d.attributes.mentions, _))

/-- The places where the code of a module mentions a binding, in their order. -/
def sitesOutside (m : Module) (x : Id) : List Span :=
  (m.outside.filter fun a => a.ident.id = x).map (·.ident.span)

end Module

/-- An identifier that is no binding, no label and no exported name is a use. -/
theorem Scope.isUse_of_role {a : Mention} (h : a.role ∉ [Role.binding, .label, .exported]) :
    isUse a = true := by
  unfold isUse
  cases hr : a.role <;> simp_all

/-- **What the index has for an import** is where the code mentions it. -/
theorem Scope.Index.sites?_ofProgram {m : Module} {x : Id} (hx : x ∈ m.importBindings)
    (hu : m.OnlyUses x) (ha : m.AttributesAvoid x) :
    (ofProgram (.module m)).sites? x = some (m.sitesOutside x) := by
  have hdeclared : x ∈ (ofProgram (.module m)).declared := by
    obtain ⟨d, hd, hx⟩ := Module.mem_importBindings.1 hx
    obtain ⟨sp, hsp, rfl⟩ := List.mem_map.1 hx
    refine List.mem_map.2 ⟨⟨.binding, sp.binding⟩, List.mem_filter.2 ⟨?_, rfl⟩, rfl⟩
    refine Module.mem_mentions.2 (.inr ⟨d, hd, List.mem_append_left _ ?_⟩)
    exact List.mem_map.2 ⟨sp, hsp, rfl⟩
  have huses : ((ofProgram (.module m)).uses.filter fun u => u.1 = x).map Prod.snd =
      (m.mentions.filter fun a => a.ident.id = x && isUse a).map (·.ident.span) := by
    show ((usesOf m.mentions).filter fun u => u.1 = x).map Prod.snd = _
    rw [usesOf, List.filter_map, List.map_map, List.filter_filter]
    rfl
  have hitems : (m.mentions.filter fun a => a.ident.id = x && isUse a) =
      m.outside.filter fun a => a.ident.id = x := by
    rw [Module.mentions, Module.outside, List.filter_flatMap, List.filter_flatMap]
    refine List.flatMap_congr fun i hi => ?_
    cases i with
    | importing d =>
      have hd : d ∈ m.imports := Module.mem_imports.2 hi
      show d.mentions.filter _ = []
      rw [List.filter_eq_nil_iff]
      intro a hmem
      rw [Bool.and_eq_true, decide_eq_true_iff]
      rintro ⟨hax, hause⟩
      -- A declaration mentions its bindings, which are no uses, and its attributes, which avoid
      -- `x`.
      rcases List.mem_append.1 hmem with hmem | hmem
      · obtain ⟨sp, -, rfl⟩ := List.mem_map.1 hmem
        exact absurd hause Bool.false_ne_true
      · exact ha d hd a hmem hax
    | node n =>
      refine List.filter_congr fun a hmem => ?_
      have hrole := hu a (List.mem_flatMap.2 ⟨.node n, hi, hmem⟩)
      by_cases hax : a.ident.id = x
      · have hause : isUse a = true := isUse_of_role (hrole hax)
        rw [hause, Bool.and_true]
      · rw [decide_eq_false hax, Bool.false_and]
  rw [sites?, if_pos hdeclared, huses, hitems, Module.sitesOutside]

namespace Rewriter

open Rewrite

/-- What a rewrite whose only target puts `y` in the place of `x` does to the places of `x`. -/
structure TurnsSites (x : Id) (y : Ident) (treatment : Treatment) (sites : List Span)
    (m m' : Module) : Prop where
  /-- The code keeps its identifiers in their order, those of `x` turned into `y` in the same
  place; besides come outer names of exports and the global `Object`. -/
  turned : ∃ added, (m.outside.map (Mention.turned x y)).Sublist m'.outside ∧
    m'.outside.Perm (m.outside.map (Mention.turned x y) ++ added) ∧
      ∀ b ∈ added, Targets.Adds [(x, ⟨some y, treatment⟩)] b
  /-- The sites are the places of the identifiers that were turned. -/
  places : sites = ((m.outside.filter fun a => a.ident.id = x).map (Mention.turned x y)).map
    (·.ident.span)
  /-- They are the places of `y`, if `y` is new to the code. -/
  new : (∀ a ∈ m.outside, a.ident.id ≠ y.id) → x.context ≠ Context.unresolved →
    y.id ≠ ⟨x.name, Context.empty⟩ → y.id ≠ (Ident.global "Object").id →
      ((m'.outside.filter fun b => b.ident.id = y.id).map (·.ident.span)).Perm sites
  /-- There are none exactly if nothing changes. -/
  unchanged : y.id ≠ x → (sites = [] ↔ m' = m)

variable {x : Id} {y : Ident} {treatment : Treatment} {m m' : Module}

/-- In a table with one target, only its binding is replaced. -/
theorem replacement?_single (a : Ident) :
    Targets.replacement? [(x, ⟨some y, treatment⟩)] a =
      if a.id = x then some (y.moveTo a.span) else none := by
  rw [Targets.replacement?_cons]
  rfl

/-- A single target turns what it is for, and leaves all else alone. -/
theorem eq_turned_of_renames {a b : Mention} (ha : a.ident.id = x → a.role ≠ .exported)
    (h : Targets.Renames [(x, ⟨some y, treatment⟩)] a b) : b = a.turned x y := by
  unfold Mention.turned
  cases h with
  | kept h =>
    rw [replacement?_single] at h
    split at h
    · cases h
    · next hne => rw [if_neg hne]
  | @exported z =>
    have hne : z.id ≠ x := fun hz => ha hz rfl
    rw [if_neg hne]
  | replaced h =>
    rw [replacement?_single] at h
    split at h
    · next heq =>
      cases h
      rw [if_pos heq]
    · cases h

/-- **Identifiers that are renamed by one target are turned**, each in its place. -/
theorem map_turned_of_renames {as bs : List Mention}
    (has : ∀ a ∈ as, a.ident.id = x → a.role ≠ .exported)
    (h : List.Forall₂ (Targets.Renames [(x, ⟨some y, treatment⟩)]) as bs) :
    bs = as.map (Mention.turned x y) := by
  induction h with
  | nil => rfl
  | cons h _ ih =>
    rw [List.forall_mem_cons] at has
    rw [List.map_cons, ← eq_turned_of_renames has.1 h, ← ih has.2]

/-- What comes in is no new name. -/
theorem ne_of_adds {b : Mention} (h : Targets.Adds [(x, ⟨some y, treatment⟩)] b)
    (hx : x.context ≠ Context.unresolved) (hy : y.id ≠ ⟨x.name, Context.empty⟩)
    (hobject : y.id ≠ (Ident.global "Object").id) : b.ident.id ≠ y.id := by
  cases h with
  | @exported z _ h =>
    rw [replacement?_single] at h
    split at h
    · next hz =>
      rintro heq
      refine hy (heq.symm.trans ?_)
      rw [← hz]
      rfl
    · cases h
  | object =>
    have hne : (Ident.global "Object").id ≠ x := by
      rintro rfl
      exact hx rfl
    rw [replacement?_single, if_neg hne]
    exact hobject.symm

/-- **The sites of an import are what a rewrite replaces.**  Of an import that the code only
uses, and that no attributes of imports mention, the index has the places of the identifiers
that a rewrite turns into the replacement. -/
theorem module_turnsSites (hm : m.wellShaped true = true) (hx : x ∈ m.importBindings)
    (hu : m.OnlyUses x) (ha : m.AttributesAvoid x) (info : FileInfo) (y : Ident)
    (treatment : Treatment) (s : Nat) :
    ∃ sites, (Scope.Index.ofProgram (.module m)).sites? x = some sites ∧
      TurnsSites x y treatment sites m
        ((⟨info, [(x, ⟨some y, treatment⟩)]⟩ : Rewriter).module m s).1 := by
  let r : Rewriter := ⟨info, [(x, ⟨some y, treatment⟩)]⟩
  have hexported : ∀ a ∈ m.outside, a.ident.id = x → a.role ≠ .exported := by
    intro a hmem hax hr
    refine hu a hmem hax ?_
    rw [hr]
    decide
  obtain ⟨image, added, hf, hsub, hperm, hadds⟩ := (r.trace_module hm s).exists_image
  obtain rfl : image = m.outside.map (Mention.turned x y) := map_turned_of_renames hexported hf
  refine ⟨_, Scope.Index.sites?_ofProgram hx hu ha, ⟨added, hsub, hperm, hadds⟩, ?_, ?_, ?_⟩
  -- Turning does not move anything, so the places are the same.
  · rw [Module.sitesOutside, List.map_map]
    exact List.map_congr_left fun a _ => (a.span_turned x y).symm
  -- Nothing else has the new name: not what was there, and not what was added.
  · intro hnew hcontext hname hobject
    have hadded : added.filter (fun b => b.ident.id = y.id) = [] := by
      rw [List.filter_eq_nil_iff]
      intro b hb
      rw [decide_eq_true_iff]
      exact ne_of_adds (hadds b hb) hcontext hname hobject
    have hturned : (m.outside.map (Mention.turned x y)).filter (fun b => b.ident.id = y.id) =
        (m.outside.filter fun a => a.ident.id = x).map (Mention.turned x y) := by
      rw [List.filter_map]
      refine congrArg _ (List.filter_congr fun a hmem => ?_)
      exact decide_eq_decide.2 (Mention.id_turned_eq_iff (hnew a hmem))
    have hfilter := hperm.filter fun b => b.ident.id = y.id
    rw [List.filter_append, hadded, List.append_nil, hturned] at hfilter
    refine (hfilter.map (·.ident.span)).trans (List.Perm.of_eq ?_)
    rw [Module.sitesOutside, List.map_map]
    exact List.map_congr_left fun a _ => a.span_turned x y
  · intro hne
    rw [Module.sitesOutside, List.map_eq_nil_iff, List.filter_eq_nil_iff]
    constructor
    · intro hsites
      have havoids : r.targets.Avoids m.outside := by
        intro a hmem
        have hax : a.ident.id ≠ x := fun hax => hsites a hmem (decide_eq_true hax)
        show List.lookup a.ident.id [(x, _)] = none
        rw [List.lookup_cons, beq_eq_false_iff_ne.2 hax, List.lookup_nil]
      show (r.module m s).1 = m
      rw [r.module_of_avoids havoids]
    -- Where the module is as it was, the counts leave no room for additions, so every identifier
    -- has been turned from one.
    · intro heq a hmem
      rw [decide_eq_true_iff]
      intro hax
      have heq' : (r.module m s).1.outside = m.outside := congrArg Module.outside heq
      rw [heq'] at hperm
      have hlength := hperm.length_eq
      rw [List.length_append, List.length_map] at hlength
      obtain rfl : added = [] := List.length_eq_zero_iff.1 (by omega)
      rw [List.append_nil] at hperm
      obtain ⟨b, -, hb⟩ := List.mem_map.1 (hperm.mem_iff.1 hmem)
      refine Mention.id_turned_ne hne b ?_
      rw [hb, hax]

/-- The module `import css from "@emotion/css"; css;`, with attributes of the import. -/
def importCss (attributes : Node) : Module where
  head := Head.empty
  body :=
    [.importing ⟨Span.dummy, [.default Span.dummy ⟨⟨8, 11⟩, 2, "css", false⟩],
      ⟨Span.dummy, "@emotion/css", none⟩, attributes, false, "evaluation"⟩,
     .node (.inner .expressionStatement Head.empty
      [.ident .reference ⟨⟨46, 49⟩, 2, "css", false⟩])]

/-- A module that imports `css` and uses it once. -/
theorem turnsSites_importCss :
    (Scope.Index.ofProgram (.module (importCss .absent))).sites? ⟨"css", 2⟩ = some [⟨46, 49⟩] ∧
      TurnsSites ⟨"css", 2⟩ (.generated "_css") (.styles true) [⟨46, 49⟩] (importCss .absent)
        (cssRewriter.module (importCss .absent) 0).1 := by
  have hsites : (Scope.Index.ofProgram (.module (importCss .absent))).sites? ⟨"css", 2⟩ =
      some [⟨46, 49⟩] := by decide
  obtain ⟨sites, hi, h⟩ := module_turnsSites (m := importCss .absent) (x := ⟨"css", 2⟩) (by decide)
    (by decide) (by decide) (by decide) cssRewriter.info (.generated "_css") (.styles true) 0
  rw [hsites, Option.some_inj] at hi
  subst hi
  exact ⟨hsites, h⟩

/-- **The index looks where the pass does not:** in `import css from "@emotion/css" with { css };`
the attribute is a site and stays.  And where a binding is replaced by itself, nothing changes
though it has sites. -/
theorem not_forall_turnsSites :
    (¬∀ (r : Rewriter) (m : Module) (x : Id) (y : Ident) (treatment : Treatment)
        (sites : List Span) (s : Nat), r.targets = [(x, ⟨some y, treatment⟩)] →
      m.wellShaped true = true → x ∈ m.importBindings → m.OnlyUses x →
      (∀ a ∈ m.mentions, a.ident.id ≠ y.id) →
      (Scope.Index.ofProgram (.module m)).sites? x = some sites →
      (((r.module m s).1.mentions.filter fun b => b.ident.id = y.id).map (·.ident.span)).Perm
        sites) ∧
    ¬∀ (r : Rewriter) (m : Module) (x : Id) (y : Ident) (treatment : Treatment)
        (sites : List Span) (s : Nat), r.targets = [(x, ⟨some y, treatment⟩)] →
      m.wellShaped true = true → x ∈ m.importBindings → m.OnlyUses x → m.AttributesAvoid x →
      (Scope.Index.ofProgram (.module m)).sites? x = some sites →
      (sites = [] ↔ (r.module m s).1 = m) := by
  constructor
  · intro h
    have hperm := h cssRewriter
      (importCss (.object Head.empty [.ident .shorthand ⟨⟨38, 41⟩, 2, "css", false⟩]))
      ⟨"css", 2⟩ (.generated "_css") (.styles true) [⟨38, 41⟩, ⟨46, 49⟩] 0 rfl (by decide)
      (by decide) (by decide) (by decide) (by decide)
    exact absurd hperm.length_eq (by decide)
  · intro h
    have hiff := h ⟨cssRewriter.info, [(⟨"css", 2⟩, ⟨some ⟨Span.dummy, 2, "css", false⟩, .plain⟩)]⟩
      (importCss .absent) ⟨"css", 2⟩ ⟨Span.dummy, 2, "css", false⟩ .plain [⟨46, 49⟩] 0 rfl
      (by decide) (by decide) (by decide) (by decide) (by decide)
    exact absurd (hiff.2 rfl) (List.cons_ne_nil _ _)

end Rewriter
end StyleLowering
