/-
# What is known about a file

The facts about the file that is compiled, which no rewrite of its contents
changes: its name, its text, the directory of the run and the choices made for
it.
-/

import StyleLowering.Options
import StyleLowering.Path.Relative
import StyleLowering.Path.Resolve
import StyleLowering.SourceMap.Comment
import StyleLowering.Syntax.Ident

namespace StyleLowering

/-- What the host says about a file. -/
structure FileEnv where
  filename : Option String
  cwd : String
  /-- The text of the file, if the host hands it out. -/
  source : Option String
  deriving DecidableEq, Repr

/-- A text without the byte order mark at its start. -/
def withoutByteOrderMark (text : String) : String :=
  match text.toList with
  | '\ufeff' :: rest => String.ofList rest
  | _ => text

/-- The facts about a file. -/
structure FileInfo where
  filename : Option String
  cwd : String
  /-- The text that places of the file are counted in. -/
  source : Option String
  /-- The configured instances, as keys that resolved specifiers are compared with. -/
  instancePaths : List String
  /-- Whether css props are compiled. -/
  compilesCssProp : Bool
  /-- Whether source-map comments are added. -/
  sourceMaps : Bool
  /-- Whether labels are added. -/
  autoLabel : Bool
  deriving DecidableEq, Repr

namespace FileInfo

/-- The facts about a file, given whether its css props are compiled.  An empty
name and the name `unknown` are as good as none, and a byte order mark is no part
of the text. -/
def ofOptions (o : Options) (env : FileEnv) (compilesCssProp : Bool) : FileInfo where
  filename := env.filename.filter fun f => f ≠ "" ∧ f ≠ "unknown"
  cwd := env.cwd
  source := env.source.map withoutByteOrderMark
  instancePaths := o.instances.map (Path.resolve · env.cwd)
  compilesCssProp := compilesCssProp
  sourceMaps := o.sourceMap
  autoLabel := o.autoLabel

/-- The directory that relative imports of the file start from. -/
def importBaseDir (f : FileInfo) : String :=
  match f.filename.bind (Path.parent? ·.toList) with
  | some dir => String.ofList (Path.join f.cwd.toList dir)
  | none => f.cwd

/-- The key of an import source of the file. -/
def resolve (f : FileInfo) (source : String) : String := Path.resolve source f.importBaseDir

/-- The source-map comment for a stretch of the file; generated nodes and files
without a name or a text have none. -/
def comment? (f : FileInfo) (span : Span) : Option String :=
  if span.isDummy then none
  else do
    let filename ← f.filename
    let source ← f.source
    return SourceMap.comment filename source (SourceMap.locate source (span.start - 1))

/-- The path that names the file in class names: as seen from the directory of
the run where that is possible, with slashes only, and empty for a file without
a name. -/
def hashedPath (f : FileInfo) : String :=
  match f.filename with
  | none => ""
  | some name =>
    String.ofList <|
      ((Path.relative? name.toList f.cwd.toList).getD name.toList).map fun c =>
        if c = '\\' then '/' else c

end FileInfo
end StyleLowering
