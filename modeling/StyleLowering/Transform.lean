/-
# The transform

A run over one program: the import pass deals with the imports of a module, the
last pass goes over the tree, and the injected imports are put in.  A transform
is good for one program; it has no effect on a second one, nor on an expression
by itself, which belongs to no file.
-/

import StyleLowering.ImportPass
import StyleLowering.Walk

namespace StyleLowering

/-- A transform before and after its run. -/
inductive Transform where
  | ready (options : Options) (env : FileEnv)
  /-- It has been over a program. -/
  | spent (file : FileState) (diagnostics : List Diagnostic)
  deriving Repr

namespace Transform

/-- Deals with the imports of a program, if it can have any. -/
def importPass : Program → FileM Program
  | .module m => do
    let (_, m) ← ImportPass.module m
    return .module m
  | .script s => return .script s

/-- A program rewritten from one end to the other, with the state of the file at
the end and the reports. -/
def run (o : Options) (env : FileEnv) (p : Program) : Program × Walk :=
  let (p, file) := importPass p (FileState.ofProgram o env p)
  let (p, walk) := Walk.program p ⟨file, []⟩
  let (p, file) := FileState.flush p walk.file
  (p, { walk with file })

/-- The transform takes a program. -/
def program (t : Transform) (p : Program) : Program × Transform :=
  match t with
  | .ready o env =>
    let (p, walk) := run o env p
    (p, .spent walk.file walk.diagnostics)
  | .spent _ _ => (p, t)

/-- The transform takes the same program a number of times. -/
def programTimes (t : Transform) : Nat → Program → Program × Transform
  | 0, p => (p, t)
  | n + 1, p =>
    let (p, t) := t.program p
    t.programTimes n p

/-- The state of the file, once a program has been entered. -/
def file? : Transform → Option FileState
  | .ready _ _ => none
  | .spent file _ => some file

/-- The reports so far. -/
def diagnostics : Transform → List Diagnostic
  | .ready _ _ => []
  | .spent _ ds => ds

/-- The transform takes an expression that belongs to no file. -/
def expression (t : Transform) (e : Node) : Node × Transform := (e, t)

/-- The transform as a host runs it that knows nothing about the file: with the
default options, without a name and a directory. -/
def bare (p : Program) : Program × Walk := run {} ⟨none, "", none⟩ p

end Transform
end StyleLowering
