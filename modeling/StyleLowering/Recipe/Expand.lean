/-
# Following a recipe

A recipe decides which of the imported bindings are targets and what takes
their places; runtime imports are injected for the replacements, and one pass
over the program rewrites all uses.
-/

import StyleLowering.File.State
import StyleLowering.Recipe.References
import StyleLowering.Rewrite.Rewriter

namespace StyleLowering
namespace Recipe

/-- What happens to the calls and templates of an export of the whole runtime. -/
def treatmentOf (name : String) : Rewrite.Treatment :=
  if name = "css" then .styles true
  else if name = "keyframes" ∨ name = "injectGlobal" then .styles false
  else .plain

/-- The targets for the used exports of the whole runtime, with the imports of
their replacements. -/
def runtimeTargets (path : String) (ts : Rewrite.Targets) : ReferenceMap → FileM Rewrite.Targets
  | [] => pure ts
  | (name, refs) :: m => do
    let x ← FileState.inject (Injector.addExport · path name)
    runtimeTargets path ((refs.binding, ⟨some x, treatmentOf name⟩) :: ts) m

/-- The targets of a recipe, with the imports of their replacements. -/
def targets (m : ReferenceMap) : Recipe → FileM Rewrite.Targets
  | .css =>
    match m.used? "default" with
    | some refs => do
      let x ← FileState.inject (Injector.addDefault · "@emotion/css" "css")
      return [(refs.binding, ⟨some x, .styles true⟩)]
    | none => pure []
  | .styled target =>
    match m.used? "default" with
    | some refs => do
      let x ← FileState.inject (Injector.addDefault · target.importPath "styled")
      return [(refs.binding, ⟨some x, .styled target⟩)]
    | none => pure []
  | .core =>
    match m.used? "css" with
    | some refs => pure [(refs.binding, ⟨none, .styles true⟩)]
    | none => pure []
  | .emotion path => runtimeTargets path [] m.used

/-- Outside of an import, a recipe for the whole runtime turns source maps on for
the file, whatever the options say. -/
def prepare (r : Recipe) (fromImport : Bool) : FileM Unit :=
  match r, fromImport with
  | .emotion _, false => modify fun s => { s with info := { s.info with sourceMaps := true } }
  | _, _ => pure ()

/-- A module with the imported bindings dealt with. -/
def expand (r : Recipe) (refs : ReferenceMap) (fromImport : Bool) (m : Module) :
    FileM Module := do
  r.prepare fromImport
  let ts ← r.targets refs
  if ts.isEmpty then return m
  FileState.count fun info => (Rewriter.mk info ts).module m

/-- A recipe neither adds nor removes items of the module. -/
theorem length_body_expand (r : Recipe) (refs : ReferenceMap) (fromImport : Bool) (m : Module)
    (s : FileState) : (r.expand refs fromImport m s).1.body.length = m.body.length := by
  simp only [expand, Stateful.bind_apply]
  split
  · rfl
  · exact Rewriter.length_items _ m.body _

end Recipe
end StyleLowering
