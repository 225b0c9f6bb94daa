/-
# The identifiers of a tree

All identifiers of a tree with what they do at their places, in the order in
which the tree is visited.  Words are not among them.
-/

import StyleLowering.Syntax.Program

namespace StyleLowering

/-- An identifier and what it does at its place. -/
structure Mention where
  role : Role
  ident : Ident
  deriving DecidableEq, Repr

/-- The identifier of a leaf. -/
def Leaf.mentions : Leaf → List Mention
  | .ident role x => [⟨role, x⟩]
  | _ => []

mutual

/-- The identifiers of a tree. -/
def Node.mentions : Node → List Mention
  | .leaf a => a.mentions
  | .run ns => Node.mentionsAll ns
  | .inner _ _ ns => Node.mentionsAll ns

/-- The identifiers of several trees. -/
def Node.mentionsAll : List Node → List Mention
  | [] => []
  | n :: ns => n.mentions ++ Node.mentionsAll ns

end

namespace Node

/-- The identifier of a leaf is the leaf, if it is one. -/
@[simp] theorem mentions_leaf (a : Leaf) : (Node.leaf a).mentions = a.mentions := by
  rw [mentions]

/-- The identifiers of a run are those of its items. -/
@[simp] theorem mentions_run (ns : List Node) : (Node.run ns).mentions = mentionsAll ns := by
  rw [mentions]

/-- The identifiers of a node are those of its parts. -/
@[simp] theorem mentions_inner (k : Kind) (h : Head) (ns : List Node) :
    (Node.inner k h ns).mentions = mentionsAll ns := by
  rw [mentions]

/-- No trees, no identifiers. -/
@[simp] theorem mentionsAll_nil : mentionsAll [] = [] := by
  rw [mentionsAll]

/-- The identifiers of several trees are those of the first, then those of the others. -/
@[simp] theorem mentionsAll_cons (n : Node) (ns : List Node) :
    mentionsAll (n :: ns) = n.mentions ++ mentionsAll ns := by
  rw [mentionsAll]

/-- Several trees are read one after another. -/
theorem mentionsAll_eq_flatMap (ns : List Node) : mentionsAll ns = ns.flatMap mentions := by
  induction ns with
  | nil => simp
  | cons n ns ih => simp [ih]

/-- The identifiers of joined lists of trees are joined. -/
@[simp] theorem mentionsAll_append (ns ms : List Node) :
    mentionsAll (ns ++ ms) = mentionsAll ns ++ mentionsAll ms := by
  simp [mentionsAll_eq_flatMap]

end Node

/-- The identifiers of an import declaration: the bindings it declares and those
in its attributes.  The names of the imported exports are not among them. -/
def ImportDecl.mentions (d : ImportDecl) : List Mention :=
  d.specifiers.map (⟨.binding, ·.binding⟩) ++ d.attributes.mentions

/-- The identifiers of an item. -/
def Item.mentions : Item → List Mention
  | .importing d => d.mentions
  | .node n => n.mentions

/-- The identifiers of a module. -/
def Module.mentions (m : Module) : List Mention := m.body.flatMap Item.mentions

/-- The identifiers of a script. -/
def Script.mentions (s : Script) : List Mention := Node.mentionsAll s.body

/-- The identifiers of a program. -/
def Program.mentions : Program → List Mention
  | .module m => m.mentions
  | .script s => s.mentions

end StyleLowering
