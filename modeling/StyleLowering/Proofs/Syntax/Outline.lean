/-
# What a renaming leaves alone

A pass that only gives identifiers other names may still take arguments, calls
and templates apart.  `Node.Outlines` says what it makes of one node, given what it
makes of the parts: an identifier gets its other name, a shorthand property is
spelled out, and inner nodes that are not taken apart stay, with other parts.
From that alone, the names that are exported and the keys of properties stay
(`Node.IsRenaming.exportEntries_eq`, `Node.IsRenaming.propertyKey_eq`), whatever
pass it is.
-/

import StyleLowering.Proofs.Syntax.Exports
import StyleLowering.Proofs.Syntax.Reading

namespace StyleLowering

/-- A function that is the same on related elements is the same on related lists. -/
theorem map_eq_of_forall₂ {α β : Type} {R : α → α → Prop} {f : α → β} {as bs : List α}
    (h : List.Forall₂ R as bs) (hf : ∀ a ∈ as, ∀ b, R a b → f b = f a) : bs.map f = as.map f := by
  induction h with
  | nil => rfl
  | cons hab _ ih =>
    rw [List.forall_mem_cons] at hf
    rw [List.map_cons, List.map_cons, hf.1 _ hab, ih hf.2]

/-- What is read off related items alike is read off related lists alike. -/
theorem flatMap_eq_of_forall₂ {α β : Type} {R : α → α → Prop} {f : α → List β} {as bs : List α}
    (h : List.Forall₂ R as bs) (hf : ∀ a ∈ as, ∀ b, R a b → f b = f a) :
    bs.flatMap f = as.flatMap f := by
  rw [List.flatMap_def, List.flatMap_def, map_eq_of_forall₂ h hf]

/-- What a renaming makes of one node, if it makes of the parts what `R` says; `ren` are
the other names. -/
inductive Node.Outlines (ren : Ident → Option Ident) (R : Node → Node → Prop) :
    Node → Node → Prop where
  | leaf {a : Leaf} (ha : ∀ role x, a ≠ .ident role x) : Outlines ren R (.leaf a) (.leaf a)
  | ident {role : Role} {x : Ident} (h : role = .shorthand → ren x = none) :
      Outlines ren R (.ident role x) (.ident role ((ren x).getD x))
  | shorthand {x y : Ident} (h : ren x = some y) :
      Outlines ren R (.ident .shorthand x)
        (.keyValue Head.empty (.word ⟨x.span, x.name⟩) (Build.reference y))
  | run {ns ms : List Node} (h : List.Forall₂ R ns ms) : Outlines ren R (.run ns) (.run ms)
  /-- Nodes that are taken apart; an export specifier has its outer name afterwards. -/
  | frame {k k' : Kind} {h h' : Head} {ps qs : List Node} (hk : k.isFrame = true)
      (hk' : k'.isFrame = true)
      (he : (Node.inner k' h' qs).entryOfSpecifier? = (Node.inner k h ps).entryOfSpecifier?) :
      Outlines ren R (.inner k h ps) (.inner k' h' qs)
  | inner {k : Kind} {h : Head} {ps qs : List Node} (hk : k.isFrame = false)
      (hp : List.Forall₂ R ps qs) : Outlines ren R (.inner k h ps) (.inner k h qs)

/-- Whether `R` is what a renaming makes of trees. -/
def Node.IsRenaming (ren : Ident → Option Ident) (R : Node → Node → Prop) : Prop :=
  ∀ n m, R n m → Node.Outlines ren R n m

/-- A node that the passes take apart binds nothing. -/
theorem Kind.bindingParts_of_isFrame {α : Type} {k : Kind} (hk : k.isFrame = true) (ps : List α) :
    k.bindingParts ps = [] := by
  cases k <;> first | rfl | cases hk

/-- A node that the passes take apart exports nothing. -/
theorem Kind.exportEntries_of_isFrame {k : Kind} (hk : k.isFrame = true) (ps : List Node) :
    k.exportEntries ps = [] := by
  cases k <;> first | rfl | cases hk

namespace Node

/-- A node that the passes take apart is no key. -/
theorem asKey_of_isFrame {k : Kind} (hk : k.isFrame = true) (h : Head) (ps : List Node) :
    (Node.inner k h ps).asKey = .none := by
  cases k <;> first | rfl | cases hk

/-- A node that the passes take apart is no property. -/
theorem propertyKey_of_isFrame {k : Kind} (hk : k.isFrame = true) (h : Head) (ps : List Node) :
    (Node.inner k h ps).propertyKey = .none := by
  have hkey : k.hasKey = false := by
    cases k <;> first | rfl | cases hk
  cases ps with
  | nil => rfl
  | cons p ps =>
    rw [propertyKey, hkey]
    rfl

/-- Only the two kinds of export specifiers have an entry. -/
theorem entryOfSpecifier?_of_ne {k : Kind} (hs : k ≠ .exportSpecifier) (hn : k ≠ .exportNamespace)
    (h : Head) (ps : List Node) : (Node.inner k h ps).entryOfSpecifier? = none := by
  unfold entryOfSpecifier?
  split
  · next heq =>
    cases heq
    exact absurd rfl hs
  · next heq =>
    cases heq
    exact absurd rfl hn
  · rfl

/-- Of the nodes that the passes take apart, only a specifier has an entry. -/
theorem entryOfSpecifier?_of_isFrame {k : Kind} (hk : k.isFrame = true)
    (hs : k ≠ .exportSpecifier) (h : Head) (ps : List Node) :
    (Node.inner k h ps).entryOfSpecifier? = none := by
  refine entryOfSpecifier?_of_ne hs ?_ h ps
  rintro rfl
  cases hk

namespace IsRenaming

variable {ren : Ident → Option Ident} {R : Node → Node → Prop} (hR : IsRenaming ren R)
  {n m : Node}

include hR

/-! ### Leaves, runs and literals -/

/-- Leaves that are no identifiers stay, and none comes in. -/
theorem literal?_eq (h : R n m) : m.literal? = n.literal? := by
  cases hR n m h <;> rfl

/-- Only a run comes out as a run. -/
theorem exists_run {ms : List Node} (h : R n (.run ms)) : ∃ ns, n = .run ns := by
  cases hR _ _ h with
  | run => exact ⟨_, rfl⟩

/-- An object literal was one before. -/
theorem exists_object {hd : Head} {ms : List Node} (h : R n (.object hd ms)) :
    ∃ ns, n = .object hd ns := by
  cases hR _ _ h with
  | frame _ hk' => cases hk'
  | inner _ hp =>
    cases hp with
    | cons hrun hnil =>
      cases hnil
      obtain ⟨ns, rfl⟩ := hR.exists_run hrun
      exact ⟨ns, rfl⟩

/-! ### Keys -/

/-- A key comes out as the same key. -/
theorem asKey_eq (h : R n m) : m.asKey = n.asKey := by
  cases hR n m h with
  | frame hk hk' => rw [asKey_of_isFrame hk, asKey_of_isFrame hk']
  | _ => rfl

/-- **Properties keep their keys,** also those whose value is spelled out. -/
theorem propertyKey_eq (h : R n m) : m.propertyKey = n.propertyKey := by
  cases hR n m h with
  | leaf | run | shorthand => rfl
  | @ident role x hx =>
    cases role with
    | shorthand => rw [hx rfl, Option.getD_none]
    | _ => rfl
  | frame hk hk' => rw [propertyKey_of_isFrame hk, propertyKey_of_isFrame hk']
  | inner hk hp =>
    cases hp with
    | nil => rfl
    | cons hkey _ => rw [propertyKey, propertyKey, hR.asKey_eq hkey]

/-- The keys of an object literal come out as they were. -/
theorem propertyKeys_eq (h : R n m) : m.propertyKeys = n.propertyKeys := by
  cases hR n m h with
  | run hp => exact map_eq_of_forall₂ hp fun _ _ _ => hR.propertyKey_eq
  | _ => rfl

/-! ### Exported names -/

/-- What is bound stays if it has no other name. -/
theorem bound_eq (h : R n m) (hn : ∀ x ∈ n.bound, ren x = none) : m.bound = n.bound := by
  -- The frame nodes that a pass takes apart or builds bind nothing; all others keep their parts.
  induction n generalizing m with
  | leaf a =>
    cases hR _ m h with
    | leaf => rfl
    | @ident role x =>
      cases role with
      | binding => rw [hn x (List.mem_singleton_self x), Option.getD_none]
      | _ => rfl
    | shorthand => rfl
  | run ns ih =>
    cases hR _ m h with
    | run hp =>
      rw [bound_run] at hn
      rw [bound_run, bound_run]
      exact flatMap_eq_of_forall₂ hp fun n hmem _ hnm =>
        ih n hmem hnm fun x hx => hn x (List.mem_flatMap_of_mem hmem hx)
  | inner k hd ps ih =>
    cases hR _ m h with
    | frame hk hk' =>
      rw [bound_inner, bound_inner, Kind.bindingParts_of_isFrame hk,
        Kind.bindingParts_of_isFrame hk']
    | inner hk hp =>
      rw [bound_inner] at hn
      rw [bound_inner, bound_inner]
      exact flatMap_eq_of_forall₂ (Kind.forall₂_bindingParts hp k) fun n hmem _ hnm =>
        ih n (k.bindingParts_subset ps hmem) hnm fun x hx =>
          hn x (List.mem_flatMap_of_mem hmem hx)

/-- The entry of a namespace export comes out as it was, unless its name is replaced. -/
theorem entryOfNamespace?_eq (h : R n m) (hn : ∀ x, n.entryOfNamespace? = some (.declared x) →
    ren x = none) : m.entryOfNamespace? = n.entryOfNamespace? := by
  cases hR n m h with
  | @ident role x => rw [hn x rfl, Option.getD_none]
  | shorthand hx => rw [hn _ rfl] at hx; cases hx
  | _ => rfl

/-- The entry of a specifier comes out as it was, unless its name is replaced. -/
theorem entryOfSpecifier?_eq (h : R n m) (hn : ∀ x, n.entryOfSpecifier? = some (.declared x) →
    ren x = none) : m.entryOfSpecifier? = n.entryOfSpecifier? := by
  cases hR n m h with
  | frame _ _ he => exact he
  | @inner k hd ps qs hk hp =>
    have hs : k ≠ .exportSpecifier := by
      rintro rfl
      cases hk
    by_cases hns : k = .exportNamespace
    · subst hns
      cases hp with
      | nil => rfl
      | cons hname _ => exact hR.entryOfNamespace?_eq hname hn
    · rw [entryOfSpecifier?_of_ne hs hns, entryOfSpecifier?_of_ne hs hns]
  | _ => rfl

/-- The entries of a list of specifiers come out as they were, unless a name is replaced. -/
theorem specifierEntries_eq (h : R n m) (hn : ∀ x, .declared x ∈ n.specifierEntries →
    ren x = none) : m.specifierEntries = n.specifierEntries := by
  cases hR n m h with
  | run hp =>
    refine flatMap_eq_of_forall₂ hp fun n hmem _ hnm => ?_
    rw [hR.entryOfSpecifier?_eq hnm fun x hx =>
      hn x (List.mem_flatMap_of_mem hmem (Option.mem_toList.2 hx))]
  | _ => rfl

/-- The entries that come from another module come out as they were. -/
theorem sourceEntries_eq (h : R n m) : m.sourceEntries = n.sourceEntries := by
  cases hR n m h <;> rfl

/-- **Exported names stay** if those that an export declaration declares have no other
name. -/
theorem exportEntries_eq (h : R n m) (hn : ∀ x, .declared x ∈ n.exportEntries → ren x = none) :
    m.exportEntries = n.exportEntries := by
  cases hR n m h with
  | frame hk hk' =>
    rw [exportEntries, exportEntries, Kind.exportEntries_of_isFrame hk,
      Kind.exportEntries_of_isFrame hk']
  | @inner k hd ps qs hk hp =>
    rw [exportEntries] at hn
    rw [exportEntries, exportEntries]
    have hfirst := List.forall₂_take 1 hp
    cases k with
    | exportDeclaration =>
      have hbound : qs.flatMap bound = ps.flatMap bound :=
        flatMap_eq_of_forall₂ hp fun p hmem _ hpq => hR.bound_eq hpq fun x hx =>
          hn x (List.mem_map_of_mem (List.mem_flatMap_of_mem hmem hx))
      rw [Kind.exportEntries, Kind.exportEntries, hbound]
    | exportNamed =>
      exact flatMap_eq_of_forall₂ hfirst fun p hmem _ hpq => hR.specifierEntries_eq hpq fun x hx =>
        hn x (List.mem_flatMap_of_mem hmem hx)
    | exportAll => exact flatMap_eq_of_forall₂ hfirst fun _ _ _ => hR.sourceEntries_eq
    | _ => rfl
  | _ => rfl

end IsRenaming
end Node
end StyleLowering
