/-
# Injected imports

The runtime imports that the rewrites ask for.  The name of an import is handed
out at once, and the same export of the same source gets the same name each
time; the declarations wait until the end and then go to the front of the
program, in the order in which they were first asked for.
-/

import StyleLowering.Imports.Naming
import StyleLowering.Path.Component
import StyleLowering.Scope.Index
import StyleLowering.Syntax.Build

namespace StyleLowering

/-- What is imported from a source. -/
inductive Export where
  | default
  | named (name : String)
  deriving DecidableEq, Repr

/-- The name of an export. -/
def Export.name : Export → String
  | .default => "default"
  | .named name => name

/-- An injected import: the export of a source, and the name it has here. -/
structure Injection where
  source : String
  exported : Export
  binding : Ident
  deriving DecidableEq, Repr

namespace Injection

/-- The source as a literal. -/
def sourceLiteral (i : Injection) : StringLiteral := ⟨Span.dummy, i.source, none⟩

/-- The specifier of an injected import. -/
def specifier (i : Injection) : ImportSpecifier :=
  match i.exported with
  | .default => .default Span.dummy i.binding
  | .named name => .named Span.dummy i.binding (some (.ident (.generated name))) false

/-- An injected import as a declaration. -/
def toImport (i : Injection) : ImportDecl :=
  ⟨Span.dummy, [i.specifier], i.sourceLiteral, .absent, false, "evaluation"⟩

/-- An injected import as a statement that calls the global `require`. -/
def toRequire (i : Injection) : Node :=
  Build.declaration i.binding
    (Build.member
      (Build.call Span.dummy (Build.reference (.global "require"))
        [Build.argument (.text i.sourceLiteral)])
      i.exported.name)

end Injection

/-- The imports injected into a file. -/
structure Injector where
  injected : List Injection
  pending : List Injection
  /-- The names that have been handed out. -/
  taken : List String
  deriving DecidableEq, Repr

namespace Injector

/-- No imports. -/
def empty : Injector := ⟨[], [], []⟩

/-- The import of an export that has been injected before. -/
def find? (j : Injector) (source : String) (exported : Export) : Option Injection :=
  j.injected.find? fun i => i.source == source && i.exported == exported

/-- A name for an import: the first one made of the hint that is not in the
program, as far as the index knows, and has not been handed out. -/
def freshName (j : Injector) (scope : Scope.Index) (hint : String) : String :=
  Imports.firstFree (Imports.baseName hint) (scope.names ++ j.taken)

/-- The name of an export, injected if it has not been before. -/
def add (scope : Scope.Index) (source : String) (exported : Export) (hint : String) :
    StateM Injector Ident := do
  let j ← get
  match j.find? source exported with
  | some i => return i.binding
  | none =>
    let name := j.freshName scope hint
    let i : Injection := ⟨source, exported, .generated name⟩
    set (⟨j.injected ++ [i], j.pending ++ [i], j.taken ++ [name]⟩ : Injector)
    return i.binding

/-- The name of a default export. -/
def addDefault (scope : Scope.Index) (source hint : String) : StateM Injector Ident :=
  add scope source .default hint

/-- The name of a named export. -/
def addNamed (scope : Scope.Index) (source name : String) : StateM Injector Ident :=
  add scope source (.named name) name

/-- What follows the last slash of a source. -/
def lastPiece (source : String) : String :=
  String.ofList (((Path.pieces source.toList).getLast?).getD [])

/-- The name of an export given by its name; `default` is the default one. -/
def addExport (scope : Scope.Index) (source name : String) : StateM Injector Ident :=
  if name = "default" then addDefault scope source (lastPiece source)
  else addNamed scope source name

/-- Whether declarations are waiting. -/
def hasPending (j : Injector) : Bool := !j.pending.isEmpty

/-- The injector after its declarations have been put into the program. -/
def clear (j : Injector) : Injector := { j with pending := [] }

/-- Once the imports are put in, none waits. -/
@[simp] theorem hasPending_clear (j : Injector) : j.clear.hasPending = false := rfl

/-- Imports that are put in are still found. -/
@[simp] theorem find?_clear (j : Injector) (source : String) (exported : Export) :
    j.clear.find? source exported = j.find? source exported := rfl

end Injector
end StyleLowering
