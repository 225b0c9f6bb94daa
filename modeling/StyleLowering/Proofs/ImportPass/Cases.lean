/-
# What the import pass does to one declaration

There are five ways in which the pass can deal with an import declaration, and
`ImportPass.importDecl_cases` lists them with all that is known in each.  Only in the last one,
where the recipe of its source is followed, does anything happen to the module.
-/

import StyleLowering.ImportPass

namespace StyleLowering
namespace ImportPass

open Stateful

variable (d : ImportDecl) (m : Module) (s : FileState)

/-- The state of a file in which a source has got its recipe, if it is a configured instance. -/
def registered : FileState := (registerInstance d.source.value s).2

/-- Registering an instance changes nothing but the registry. -/
theorem registered_eq : registered d s = { s with registry := (registered d s).registry } := by
  simp only [registered, registerInstance, modify_apply]
  split
  · rfl
  · split <;> rfl

/-- Registering a recipe leaves the facts of the file. -/
@[simp] theorem info_registered : (registered d s).info = s.info := by rw [registered_eq]

/-- Registering a recipe leaves the index. -/
@[simp] theorem scope_registered : (registered d s).scope = s.scope := by rw [registered_eq]

/-- Registering a recipe leaves the injected imports. -/
@[simp] theorem imports_registered : (registered d s).imports = s.imports := by rw [registered_eq]

/-- Registering a recipe leaves the counter. -/
@[simp] theorem targets_registered : (registered d s).targets = s.targets := by rw [registered_eq]

/-- The recipe of a declaration, as it is known once its source has been registered. -/
def recipeOf? : Option Recipe := (registered d s).registry.get? d.source.value

/-- The state in which the references of a declaration are looked up. -/
def refreshed : FileState :=
  { registered d s with scope := (registered d s).scope.refresh (.module m) }

/-- The state in which the recipe of a declaration is followed. -/
def rebuilt : FileState :=
  { refreshed d m s with scope := (refreshed d m s).scope.rebuild (.module m) }

/-- The references of a declaration, `none` if one of its bindings is not declared. -/
def references? : Option ReferenceMap :=
  ReferenceMap.collect (refreshed d m s).scope [] d.specifiers

/-- What the pass does to a declaration, with the state it does it in. -/
theorem importDecl_apply :
    importDecl d m s =
      match recipeOf? d s with
      | none => ((.noRecipe, m), registered d s)
      | some recipe =>
        if d.specifiers.any (·.isStar) then ((.skipped .starImport, m), registered d s)
        else
          match references? d m s with
          | none => ((.skipped .unresolvedBinding, m), refreshed d m s)
          | some refs =>
            if refs.all fun e => !e.2.isUsed then ((.skipped .unused, m), refreshed d m s)
            else
              ((.expanded recipe.keepsImport, (recipe.expand refs true m (rebuilt d m s)).1),
                (FileState.invalidate (recipe.expand refs true m (rebuilt d m s)).2).2) := by
  have hrecipe : (registerInstance d.source.value s).2.registry.get? d.source.value =
      recipeOf? d s := rfl
  simp only [importDecl, bind_apply, get_apply, hrecipe]
  cases recipeOf? d s with
  | none => rfl
  | some recipe =>
    have hreferences : ReferenceMap.collect ((registerInstance d.source.value s).2.scope.refresh
        (.module m)) [] d.specifiers = references? d m s := rfl
    dsimp only
    simp only [ite_apply, bind_apply, get_apply, modify_apply, pure_apply, hreferences]
    cases references? d m s with
    | none => rfl
    | some refs =>
      dsimp only
      simp only [ite_apply, bind_apply, modify_apply, pure_apply]
      rfl

/-- **The five ways of dealing with a declaration.**  It is left alone if its source has no
recipe, if it imports everything at once, if one of its bindings is not declared, and if none
is used.  Otherwise its recipe is followed, and the index is marked as stale. -/
theorem importDecl_cases {P : (Outcome × Module) × FileState → Prop}
    (noRecipe : recipeOf? d s = none → P ((.noRecipe, m), registered d s))
    (starImport : ∀ recipe, recipeOf? d s = some recipe →
      d.specifiers.any (·.isStar) = true → P ((.skipped .starImport, m), registered d s))
    (unresolved : ∀ recipe, recipeOf? d s = some recipe →
      d.specifiers.any (·.isStar) = false → references? d m s = none →
      P ((.skipped .unresolvedBinding, m), refreshed d m s))
    (unused : ∀ recipe refs, recipeOf? d s = some recipe →
      d.specifiers.any (·.isStar) = false → references? d m s = some refs →
      (refs.all fun e => !e.2.isUsed) = true → P ((.skipped .unused, m), refreshed d m s))
    (expanded : ∀ recipe refs, recipeOf? d s = some recipe →
      d.specifiers.any (·.isStar) = false → references? d m s = some refs →
      (refs.all fun e => !e.2.isUsed) = false →
      let q := recipe.expand refs true m (rebuilt d m s)
      P ((.expanded recipe.keepsImport, q.1), (FileState.invalidate q.2).2)) :
    P (importDecl d m s) := by
  rw [importDecl_apply]
  cases hr : recipeOf? d s with
  | none => exact noRecipe hr
  | some recipe =>
    dsimp only
    split
    · next hstar => exact starImport recipe hr hstar
    · next hstar =>
      rw [Bool.not_eq_true] at hstar
      cases hrefs : references? d m s with
      | none => exact unresolved recipe hr hstar hrefs
      | some refs =>
        dsimp only
        split
        · next hused => exact unused recipe refs hr hstar hrefs hused
        · next hused => exact expanded recipe refs hr hstar hrefs (Bool.not_eq_true _ ▸ hused)

/-- Dealing with a declaration neither adds nor removes items of the module. -/
theorem length_body_importDecl (d : ImportDecl) (m : Module) (s : FileState) :
    (importDecl d m s).1.2.body.length = m.body.length := by
  refine importDecl_cases d m s (P := fun p => p.1.2.body.length = m.body.length) ?_ ?_ ?_ ?_ ?_
  · exact fun _ => rfl
  · exact fun _ _ _ => rfl
  · exact fun _ _ _ _ => rfl
  · exact fun _ _ _ _ _ _ => rfl
  · exact fun recipe refs _ _ _ _ => recipe.length_body_expand ..

end ImportPass
end StyleLowering
