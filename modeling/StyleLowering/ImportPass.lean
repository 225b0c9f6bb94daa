/-
# The import pass

The import declarations of a module are dealt with one after the other.  One
whose source has a recipe and whose bindings are used is expanded, and then it
leaves the module unless its recipe keeps it.  A source that resolves to a
configured instance gets a recipe when it is first met.
-/

import StyleLowering.Recipe.Expand

namespace StyleLowering

/-- Why an import with a recipe was left alone. -/
inductive SkipReason where
  /-- It imports all exports as one object. -/
  | starImport
  /-- One of its bindings is not in the scope index. -/
  | unresolvedBinding
  /-- None of its bindings is used. -/
  | unused
  deriving DecidableEq, Repr

/-- What happened to an import declaration. -/
inductive Outcome where
  /-- Its source has no recipe. -/
  | noRecipe
  | skipped (reason : SkipReason)
  | expanded (keep : Bool)
  deriving DecidableEq, Repr

namespace ImportPass

/-- Gives a source that resolves to a configured instance its recipe, unless the
source has one already. -/
def registerInstance (source : String) : FileM Unit :=
  modify fun s =>
    if s.registry.contains source then s
    else if s.info.instancePaths.contains (s.info.resolve source) then
      { s with registry := s.registry.register source (.emotion source) }
    else s

/-- Deals with one import declaration of a module. -/
def importDecl (d : ImportDecl) (m : Module) : FileM (Outcome × Module) := do
  registerInstance d.source.value
  match (← get).registry.get? d.source.value with
  | none => return (.noRecipe, m)
  | some recipe =>
    if d.specifiers.any (·.isStar) then return (.skipped .starImport, m)
    modify fun s => { s with scope := s.scope.refresh (.module m) }
    match ReferenceMap.collect (← get).scope [] d.specifiers with
    | none => return (.skipped .unresolvedBinding, m)
    | some refs =>
      if refs.all fun e => !e.2.isUsed then return (.skipped .unused, m)
      modify fun s => { s with scope := s.scope.rebuild (.module m) }
      let m ← recipe.expand refs true m
      FileState.invalidate
      return (.expanded recipe.keepsImport, m)

/-- Deals with the last `n` items of a module.  Rewriting never changes how many
items there are, so the item to look at next is the `n`-th from the end. -/
def remaining : (n : Nat) → Module → FileM (List Outcome × Module)
  | 0, m => pure ([], m)
  | n + 1, m =>
    let i := m.body.length - (n + 1)
    match m.body[i]? with
    | some (.importing d) => do
      let (o, m) ← importDecl d m
      if o = .expanded false then
        FileState.invalidate
        let (os, m) ← remaining n { m with body := m.body.eraseIdx i }
        return (o :: os, m)
      else
        let (os, m) ← remaining n m
        return (o :: os, m)
    | _ => remaining n m

/-- Deals with all import declarations of a module, in their order. -/
def module (m : Module) : FileM (List Outcome × Module) := remaining m.body.length m

end ImportPass
end StyleLowering
