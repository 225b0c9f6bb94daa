/-
# Rewriting references

One pass over a tree that deals with all uses of the targets.  Identifiers get
their replacements and keep their places, also where they are the value of a
shorthand property or the local name of an export, whose outer name stays.
Templates and calls of a style target become annotated calls; styled targets
become calls of the runtime with generated options.

The pass reads the facts about the file, and the counter for class names is all
that it changes besides the tree.
-/

import StyleLowering.Css.Call
import StyleLowering.LabelStack
import StyleLowering.Rewrite.Target
import StyleLowering.Stateful
import StyleLowering.Styled
import StyleLowering.Syntax.Program

namespace StyleLowering

/-- The bindings a rewrite looks for, and the file it works on. -/
structure Rewriter where
  info : FileInfo
  targets : Rewrite.Targets

namespace Rewriter

/-- A leaf with its identifier replaced.  A replaced shorthand property becomes
one with a value, under the name it had. -/
def leaf (r : Rewriter) : Leaf → Node
  | .ident .shorthand x =>
    match r.targets.replacement? x with
    | some y => .keyValue Head.empty (.word ⟨x.span, x.name⟩) (Build.reference y)
    | none => .ident .shorthand x
  | .ident role x => .ident role ((r.targets.replacement? x).getD x)
  | a => .leaf a

/-- An export specifier with its local name replaced.  The outer name stays, or
becomes what the local name was. -/
def exportParts (r : Rewriter) : List Node → List Node
  | [.ident role x, exported] =>
    match r.targets.replacement? x with
    | none => [.ident role x, exported]
    | some y =>
      [.ident role y,
        match exported with
        | .absent => .ident .exported (.generated x.name)
        | e => e]
  | parts => parts

/-- The call that `styled.tag` becomes. -/
def tagCall (r : Rewriter) (labels : LabelStack) (span : Span) (runtime : Ident) (name : String)
    (target : StyledTarget) : StateM Nat Node := do
  let options ← Styled.options r.info none labels.current target.isWeb
  return Build.call span (Build.reference runtime)
    (Build.textArgument name :: (options.map Build.argument).toList)

/-- The function that merges options, as this pass leaves it behind. -/
def objectAssign (r : Rewriter) (labels : LabelStack) : StateM Nat Node :=
  let object := Ident.global "Object"
  match Rewrite.Usage.ofMember r.targets (Build.reference object) (Build.word "assign") with
  | .tag runtime name target => r.tagCall labels Span.dummy runtime name target
  | _ => pure (Build.member (r.leaf (.ident .reference object)) "assign")

/-- The function that merges generated options into arguments, if one is needed.
It stands in front of the options of the user, and is visited before them. -/
def mergeFunction (r : Rewriter) (labels : LabelStack) (args options : List Node) :
    StateM Nat Node :=
  if Styled.needsAssign (Styled.secondArgument args) options then r.objectAssign labels
  else pure Styled.objectAssign

/-- A style call or template, after its parts are visited. -/
def styles (r : Rewriter) (labels : LabelStack) (label : Bool) (k : Kind) (h : Head)
    (parts : List Node) : Node :=
  Css.annotate r.info (if label then labels.current else none)
    (Css.callOfTemplate (.inner k h parts))

mutual

/-- A tree with its references rewritten; `labels` are the names of the
declarations around it. -/
def node (r : Rewriter) (labels : LabelStack) : Node → StateM Nat Node
  | .leaf a => pure (r.leaf a)
  | .run ns => .run <$> r.nodes labels ns
  | .inner k h parts =>
    if k = .exportSpecifier then pure (.inner k h (r.exportParts parts))
    else
      match Rewrite.Usage.of r.targets k parts, parts with
      | .tag runtime name target, _ => r.tagCall labels h.place runtime name target
      | .component target, [callee, .run (a :: rest)] => do
        let options ← Styled.generated r.info labels.current target.isWeb
        let callee ← r.node labels callee
        let first ← r.node labels a
        let assign ← r.mergeFunction labels (a :: rest) options
        let rest ← r.nodes labels rest
        return .call h callee (Styled.addOptions assign options (first :: rest))
      | .styles label, parts => do
        let parts ← r.nodes (labels.enter k parts) parts
        return r.styles labels label k h parts
      | _, parts => do
        let parts ← r.nodes (labels.enter k parts) parts
        return .inner k h parts

/-- Several trees with their references rewritten, from the first to the last. -/
def nodes (r : Rewriter) (labels : LabelStack) : List Node → StateM Nat (List Node)
  | [] => pure []
  | n :: ns => do
    let n ← r.node labels n
    let ns ← r.nodes labels ns
    return n :: ns

end

/-- An item with its references rewritten; import declarations are left alone. -/
def item (r : Rewriter) : Item → StateM Nat Item
  | .importing d => pure (.importing d)
  | .node n => .node <$> r.node LabelStack.empty n

/-- Items with their references rewritten. -/
def items (r : Rewriter) : List Item → StateM Nat (List Item)
  | [] => pure []
  | i :: is => do
    let i ← r.item i
    let is ← r.items is
    return i :: is

/-- A module with its references rewritten. -/
def module (r : Rewriter) (m : Module) : StateM Nat Module := do
  return { m with body := ← r.items m.body }

/-- A program with its references rewritten. -/
def program (r : Rewriter) : Program → StateM Nat Program
  | .module m => .module <$> r.module m
  | .script s => do return .script { s with body := ← r.nodes LabelStack.empty s.body }

/-- There are as many trees after the pass as before. -/
theorem length_nodes (r : Rewriter) (labels : LabelStack) (ns : List Node) (s : Nat) :
    (r.nodes labels ns s).1.length = ns.length := by
  induction ns generalizing s with
  | nil => rw [nodes, Stateful.pure_apply]
  | cons n ns ih =>
    simp only [nodes, Stateful.bind_apply, Stateful.pure_apply, List.length_cons, ih]

/-- There are as many items after the pass as before. -/
theorem length_items (r : Rewriter) (is : List Item) (s : Nat) :
    (r.items is s).1.length = is.length := by
  induction is generalizing s with
  | nil => rfl
  | cons i is ih =>
    simp only [items, Stateful.bind_apply, Stateful.pure_apply, List.length_cons, ih]

end Rewriter
end StyleLowering
