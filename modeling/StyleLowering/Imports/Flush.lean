/-
# Putting injected imports into a program

In a module the declarations go to the front.  In a script they are statements
that call `require`, and they go behind the directives, the leading statements
that are nothing but a string.
-/

import StyleLowering.Imports.Injector

namespace StyleLowering

/-- A statement that is nothing but a string. -/
def Node.isDirective : Node → Bool
  | .inner .expressionStatement _ [.text _] => true
  | _ => false

namespace Injector

/-- The module with the waiting declarations. -/
def flushModule (j : Injector) (m : Module) : Module :=
  { m with body := j.pending.map (.importing ·.toImport) ++ m.body }

/-- The script with the waiting declarations. -/
def flushScript (j : Injector) (s : Script) : Script :=
  { s with
    body := s.body.takeWhile Node.isDirective ++ j.pending.map Injection.toRequire ++
      s.body.dropWhile Node.isDirective }

/-- The program with the waiting declarations. -/
def flush (j : Injector) : Program → Program
  | .module m => .module (j.flushModule m)
  | .script s => .script (j.flushScript s)

end Injector
end StyleLowering
