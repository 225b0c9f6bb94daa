/-
# Programs

A module is a list of items, the import declarations among them set apart from
all else; a script is a list of statements and has no imports.
-/

import StyleLowering.Syntax.Node

namespace StyleLowering

/-- The name of an export, which may be any text. -/
inductive ExportName where
  | ident (x : Ident)
  | text (s : StringLiteral)
  deriving DecidableEq, Repr

/-- The name itself. -/
def ExportName.name : ExportName → String
  | .ident x => x.name
  | .text s => s.value

/-- One binding of an import declaration. -/
inductive ImportSpecifier where
  /-- The default export. -/
  | default (span : Span) (binding : Ident)
  /-- A named export, under its own name if no other is given. -/
  | named (span : Span) (binding : Ident) (imported : Option ExportName) (typeOnly : Bool)
  /-- All exports as one object. -/
  | star (span : Span) (binding : Ident)
  deriving DecidableEq, Repr

namespace ImportSpecifier

/-- The identifier that a specifier declares. -/
def binding : ImportSpecifier → Ident
  | .default _ x | .named _ x _ _ | .star _ x => x

/-- The name of the imported export, `default` for the default one and none for
all exports at once. -/
def importedName? : ImportSpecifier → Option String
  | .default _ _ => some "default"
  | .named _ x imported _ => some ((imported.map ExportName.name).getD x.name)
  | .star _ _ => none

/-- Whether the specifier names all exports at once. -/
def isStar : ImportSpecifier → Bool
  | .star _ _ => true
  | _ => false

end ImportSpecifier

/-- An import declaration. -/
structure ImportDecl where
  span : Span
  specifiers : List ImportSpecifier
  source : StringLiteral
  /-- The import attributes, an object literal, or nothing. -/
  attributes : Node
  typeOnly : Bool
  phase : String
  deriving Repr

/-- An item of a module. -/
inductive Item where
  | importing (d : ImportDecl)
  | node (n : Node)
  deriving Repr

/-- A module. -/
structure Module where
  head : Head
  body : List Item
  deriving Repr

/-- A script. -/
structure Script where
  head : Head
  body : List Node
  deriving Repr

/-- A program. -/
inductive Program where
  | module (m : Module)
  | script (s : Script)
  deriving Repr

end StyleLowering
