/-
# The state of a file

What the rewrites of one file share: the facts about it, its recipes, its scope
index, the imports injected so far, and a counter for class names.
-/

import StyleLowering.File.Info
import StyleLowering.Imports.Flush
import StyleLowering.Recipe.Basic
import StyleLowering.Stateful

namespace StyleLowering

/-- The state of a file. -/
structure FileState where
  info : FileInfo
  registry : Registry
  scope : Scope.Index
  imports : Injector
  /-- The identifier that compiled css props call, once there is one. -/
  cssBinding : Option Ident
  /-- The number of class names given out. -/
  targets : Nat
  deriving Repr

/-- Computations on the state of a file. -/
abbrev FileM := StateM FileState

/-- Whether a module imports `jsx` from the core package. -/
def Module.importsCoreJsx (m : Module) : Bool :=
  m.body.any fun
    | .importing d => d.source.value == "@emotion/core" && d.specifiers.any fun
        | .named span x imported typeOnly =>
          (ImportSpecifier.named span x imported typeOnly).importedName? == some "jsx"
        | _ => false
    | .node _ => false

namespace FileState

/-- The state in which a program is entered. -/
def start (o : Options) (env : FileEnv) (compilesCssProp : Bool) (p : Program) : FileState where
  info := FileInfo.ofOptions o env compilesCssProp
  registry := Registry.builtin
  scope := Scope.Index.ofProgram p
  imports := Injector.empty
  cssBinding := none
  targets := 0

/-- The state in which a program is entered.  Unless the options decide, the css
props of a module are compiled when it imports `jsx` from the core package, and
those of a script are not. -/
def ofProgram (o : Options) (env : FileEnv) (p : Program) : FileState :=
  match p with
  | .module m => start o env (o.cssPropOptimization.getD m.importsCoreJsx) p
  | .script _ => start o env (o.cssPropOptimization.getD false) p

/-- A computation on the injected imports that looks at the scope index. -/
def inject {α : Type} (f : Scope.Index → StateM Injector α) : FileM α := fun s =>
  let (a, imports) := f s.scope s.imports
  (a, { s with imports })

/-- A computation on the counter for class names. -/
def count {α : Type} (f : FileInfo → StateM Nat α) : FileM α := fun s =>
  let (a, targets) := f s.info s.targets
  (a, { s with targets })

/-- Marks the scope index as stale. -/
def invalidate : FileM Unit := modify fun s => { s with scope := s.scope.invalidate }

/-- The identifier that compiled css props call, injected the first time. -/
def cssIdentifier : FileM Ident := do
  match (← get).cssBinding with
  | some x => return x
  | none =>
    let x ← inject (Injector.addDefault · "@emotion/css" "css")
    modify fun s => { s with cssBinding := some x }
    return x

/-- Puts the waiting declarations into the program. -/
def flush (p : Program) : FileM Program := fun s =>
  (s.imports.flush p, { s with imports := s.imports.clear })

end FileState
end StyleLowering
