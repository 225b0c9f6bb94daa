/-
# Syntax trees

A tree has three shapes: a leaf, a run of nodes (the arguments of a call, the
statements of a block), and an inner node of some kind with its parts.  A part
that is left out, and a hole in an array, is the leaf `absent`.  What else a
node says (its operator, whether it is asynchronous) are attributes, which the
passes carry along.

`Node.induct` is the induction principle of the tree: a statement holds of a
run or an inner node if it holds of each of its parts.
-/

import StyleLowering.Syntax.Kind

namespace StyleLowering

/-- A leaf of a tree. -/
inductive Leaf where
  /-- A part that is left out. -/
  | absent
  | ident (role : Role) (x : Ident)
  | word (w : Word)
  | text (s : StringLiteral)
  | quasi (q : Quasi)
  deriving DecidableEq, Repr

/-- The value of an attribute: a truth value, a text, or anything else in its
written form. -/
inductive Datum where
  | flag (b : Bool)
  | text (s : String)
  | written (json : String)
  deriving DecidableEq, Repr

/-- What a node says about itself, its parts apart. -/
structure Head where
  span : Option Span
  context : Option Context
  attributes : List (String × Datum)
  deriving DecidableEq, Repr

namespace Head

/-- The head of a node that has nothing but a place. -/
def ofSpan (span : Span) : Head := ⟨some span, none, []⟩

/-- The head of a node that has a place and an empty context. -/
def ofSpanEmpty (span : Span) : Head := ⟨some span, some Context.empty, []⟩

/-- The head of a node without a place. -/
def empty : Head := ⟨none, none, []⟩

/-- The place of a node. -/
def place (h : Head) : Span := h.span.getD Span.dummy

/-- An attribute that is a text. -/
def text? (h : Head) (name : String) : Option String :=
  match h.attributes.lookup name with
  | some (.text s) => some s
  | _ => none

/-- The operator of a unary or binary expression. -/
def operator? (h : Head) : Option String := h.text? "operator"

end Head

/-- A syntax tree. -/
inductive Node where
  | leaf (a : Leaf)
  | run (items : List Node)
  | inner (kind : Kind) (head : Head) (parts : List Node)
  deriving Repr, Inhabited

namespace Node

/-- **Induction on trees.**  What holds of the leaves, and of a run and of an
inner node whenever it holds of all their parts, holds of every tree. -/
@[elab_as_elim, induction_eliminator]
theorem induct {motive : Node → Prop}
    (leaf : ∀ a, motive (.leaf a))
    (run : ∀ items, (∀ n ∈ items, motive n) → motive (.run items))
    (inner : ∀ kind head parts, (∀ n ∈ parts, motive n) → motive (.inner kind head parts))
    (n : Node) : motive n :=
  @Node.rec motive (fun ns => ∀ n ∈ ns, motive n) leaf run inner (by simp)
    (fun n ns hn hns m hm => by
      rcases List.mem_cons.1 hm with rfl | hm
      · exact hn
      · exact hns m hm) n

/-- An identifier. -/
@[match_pattern] abbrev ident (role : Role) (x : Ident) : Node := .leaf (.ident role x)

/-- A name that stands for itself. -/
@[match_pattern] abbrev word (w : Word) : Node := .leaf (.word w)

/-- A string literal. -/
@[match_pattern] abbrev text (s : StringLiteral) : Node := .leaf (.text s)

/-- A part that is left out. -/
@[match_pattern] abbrev absent : Node := .leaf .absent

/-- An argument. -/
@[match_pattern] abbrev argument (h : Head) (e : Node) : Node := .inner .argument h [e]

/-- A call. -/
@[match_pattern] abbrev call (h : Head) (callee : Node) (args : List Node) : Node :=
  .inner .call h [callee, .run args]

/-- A member access. -/
@[match_pattern] abbrev member (h : Head) (object property : Node) : Node :=
  .inner .member h [object, property]

/-- An object literal. -/
@[match_pattern] abbrev object (h : Head) (properties : List Node) : Node :=
  .inner .object h [.run properties]

/-- A property with its value. -/
@[match_pattern] abbrev keyValue (h : Head) (key value : Node) : Node :=
  .inner .keyValue h [key, value]

/-- A template behind a tag. -/
@[match_pattern] abbrev tagged (h : Head) (tag : Node) (ht : Head)
    (expressions quasis : List Node) : Node :=
  .inner .tagged h [tag, .inner .template ht [.run expressions, .run quasis]]

/-- A JSX attribute. -/
@[match_pattern] abbrev jsxAttribute (h : Head) (name value : Node) : Node :=
  .inner .jsxAttribute h [name, value]

/-- An expression in braces inside JSX. -/
@[match_pattern] abbrev container (h : Head) (e : Node) : Node := .inner .container h [e]

end Node
end StyleLowering
