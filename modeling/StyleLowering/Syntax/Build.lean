/-
# Generated nodes

The nodes that a pass adds to a tree.  They carry the dummy place and the empty
context unless they take the place of a node of the source.
-/

import StyleLowering.Syntax.Node

namespace StyleLowering
namespace Build

/-- A use of a binding. -/
def reference (x : Ident) : Node := .ident .reference x

/-- A string literal. -/
def text (value : String) : Node := .text ⟨Span.dummy, value, none⟩

/-- A name that stands for itself. -/
def word (name : String) : Node := .word ⟨Span.dummy, name⟩

/-- An argument. -/
def argument (e : Node) : Node := .argument Head.empty e

/-- A string literal as an argument. -/
def textArgument (value : String) : Node := argument (text value)

/-- A call. -/
def call (span : Span) (callee : Node) (args : List Node) : Node :=
  .call (Head.ofSpanEmpty span) callee args

/-- A member access by name. -/
def member (object : Node) (name : String) : Node :=
  .member (Head.ofSpan Span.dummy) object (word name)

/-- An object literal. -/
def object (properties : List Node) : Node := .object (Head.ofSpan Span.dummy) properties

/-- A property whose value is a string literal. -/
def property (name value : String) : Node := .keyValue Head.empty (word name) (text value)

/-- The statement that declares a variable with an initial value. -/
def declaration (x : Ident) (init : Node) : Node :=
  .inner .variableDeclaration
    ⟨some Span.dummy, some Context.empty, [("declare", .flag false), ("kind", .text "var")]⟩
    [.run [.inner .declarator
      ⟨some Span.dummy, none, [("definite", .flag false)]⟩ [.ident .binding x, init]]]

end Build
end StyleLowering
