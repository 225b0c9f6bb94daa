/-
# Reading something off a tree

A reading takes something off each inner node of a tree: its keys off an object
literal, a statement as a whole.  What is read off a tree is read off all of its
nodes, in no order, because the passes build some nodes in front of others that
they visit later.

The passes take calls, members, templates, arguments, attributes and export
specifiers apart and build other ones, so nothing is to be read off these
(`Kind.isFrame`), nor off a shorthand property with its value spelled out.
-/

import StyleLowering.Proofs.Css.Call
import StyleLowering.Proofs.Syntax.Imports
import Mathlib.Algebra.Order.Group.Multiset

namespace StyleLowering

/-- Nodes that the passes take apart and build. -/
def Kind.isFrame : Kind → Bool
  | .argument | .spreadArgument | .call | .member | .tagged | .template | .exportSpecifier
  | .jsxAttribute | .container => true
  | _ => false

/-- A leaf that is no identifier. -/
def Node.literal? : Node → Option Leaf
  | .leaf (.ident _ _) => none
  | .leaf a => some a
  | _ => none

/-- Every leaf but an identifier is literal. -/
theorem Node.literal?_eq_some {n : Node} {a : Leaf} :
    n.literal? = some a ↔ n = .leaf a ∧ ∀ role x, a ≠ .ident role x := by
  constructor
  · intro h
    unfold literal? at h
    split at h
    · cases h
    · next hne =>
      cases h
      exact ⟨rfl, hne⟩
    · cases h
  · rintro ⟨rfl, hne⟩
    unfold literal?
    split
    · next heq =>
      cases heq
      exact absurd rfl (hne _ _)
    · next heq =>
      cases heq
      rfl
    · next hleaf => exact absurd rfl (hleaf a)

/-- What is read off each inner node. -/
structure Reading (α : Type) where
  own : Kind → Head → List Node → Multiset α
  own_frame : ∀ {k : Kind}, k.isFrame = true → ∀ h parts, own k h parts = 0
  own_shorthand : ∀ w x, own .keyValue Head.empty [.word w, Build.reference x] = 0

variable {α : Type} (c : Reading α)

mutual

/-- What is read off a tree. -/
def Node.read : Node → Multiset α
  | .leaf _ => 0
  | .run ns => Node.readAll ns
  | .inner k h ns => c.own k h ns + Node.readAll ns

/-- What is read off several trees. -/
def Node.readAll : List Node → Multiset α
  | [] => 0
  | n :: ns => n.read + Node.readAll ns

end

namespace Node

/-- Nothing is read off a leaf. -/
@[simp] theorem read_leaf (a : Leaf) : (Node.leaf a).read c = 0 := by
  rw [read]

/-- What is read off a run is read off its items. -/
@[simp] theorem read_run (ns : List Node) : (Node.run ns).read c = readAll c ns := by
  rw [read]

/-- Something may be read off a node, and off its parts. -/
theorem read_inner (k : Kind) (h : Head) (ns : List Node) :
    (Node.inner k h ns).read c = c.own k h ns + readAll c ns := by
  rw [read]

/-- Off a node that the passes take apart, only what is in its parts is read. -/
theorem read_inner_of_isFrame {k : Kind} (hk : k.isFrame = true) (h : Head) (ns : List Node) :
    (Node.inner k h ns).read c = readAll c ns := by
  rw [read_inner, c.own_frame hk, zero_add]

/-- Nothing is read off no trees. -/
@[simp] theorem readAll_nil : readAll c [] = 0 := by
  rw [readAll]

/-- What is read off several trees is read off the first and off the others. -/
@[simp] theorem readAll_cons (n : Node) (ns : List Node) :
    readAll c (n :: ns) = n.read c + readAll c ns := by
  rw [readAll]

/-- What is read off joined lists of trees is read off each of them. -/
@[simp] theorem readAll_append (ns ms : List Node) :
    readAll c (ns ++ ms) = readAll c ns + readAll c ms := by
  induction ns with
  | nil => simp
  | cons n ns ih => rw [List.cons_append, readAll_cons, readAll_cons, ih, add_assoc]

/-- Nothing is read off trees that have nothing to read. -/
theorem readAll_eq_zero {ns : List Node} (h : ∀ n ∈ ns, n.read c = 0) : readAll c ns = 0 := by
  induction ns with
  | nil => exact readAll_nil c
  | cons n ns ih =>
    rw [List.forall_mem_cons] at h
    rw [readAll_cons, h.1, ih h.2, add_zero]

/-! ### Arguments, calls and templates -/

/-- What is read off an argument is read off its expression. -/
@[simp] theorem read_argument (h : Head) (e : Node) : (Node.argument h e).read c = e.read c := by
  rw [read_inner_of_isFrame c rfl, readAll_cons, readAll_nil, add_zero]

/-- What is read off a call is read off its callee and its arguments. -/
@[simp] theorem read_call (h : Head) (callee : Node) (args : List Node) :
    (Node.call h callee args).read c = callee.read c + readAll c args := by
  rw [read_inner_of_isFrame c rfl, readAll_cons, readAll_cons, readAll_nil, add_zero, read_run]

/-- What is read off a member access is read off its object and the name. -/
@[simp] theorem read_member (h : Head) (object property : Node) :
    (Node.member h object property).read c = object.read c + property.read c := by
  rw [read_inner_of_isFrame c rfl, readAll_cons, readAll_cons, readAll_nil, add_zero]

/-- Something may be read off an object literal, and off its properties. -/
theorem read_object (h : Head) (ps : List Node) :
    (Node.object h ps).read c = c.own .object h [.run ps] + readAll c ps := by
  rw [read_inner, readAll_cons, readAll_nil, add_zero, read_run]

/-- Nothing is read off a generated string. -/
@[simp] theorem read_textArgument (value : String) : (Build.textArgument value).read c = 0 := by
  rw [Build.textArgument, Build.argument, read_argument, Build.text, read_leaf]

/-- Nothing is read off a label or a source-map comment. -/
theorem read_annotate (f : FileInfo) (name : Option String) (h : Head) (callee : Node)
    (args : List Node) :
    (Css.annotate f name (.call h callee args)).read c = (Node.call h callee args).read c := by
  obtain ⟨before, after, label, comment, rfl, he, -⟩ := Css.exists_annotated f name h.place args
  rw [Css.annotate, read_call, read_call, he]
  cases label <;> cases comment <;> simp

/-- Nothing is read off the text of a template. -/
theorem readAll_textArguments (first last : Bool) (q : Node) :
    readAll c (Css.textArguments first last q) = 0 := by
  refine readAll_eq_zero c fun a ha => ?_
  obtain ⟨text, rfl⟩ := Css.mem_textArguments ha
  exact read_textArgument c text

/-- A template that becomes arguments keeps its expressions if it has a text for each. -/
theorem readAll_templateArguments (first : Bool) {qs es : List Node}
    (h : es.length ≤ qs.length) :
    readAll c (Css.templateArguments first qs es) = readAll c es := by
  induction qs generalizing first es with
  | nil => rw [List.length_eq_zero_iff.1 (Nat.le_zero.1 h), Css.templateArguments]
  | cons q qs ih =>
    cases es with
    | nil =>
      rw [Css.templateArguments, readAll_append, readAll_textArguments, zero_add]
      exact ih false (Nat.zero_le _)
    | cons e es =>
      rw [Css.templateArguments, readAll_append, readAll_textArguments, zero_add, readAll_cons,
        readAll_cons, Build.argument, read_argument, ih false (Nat.le_of_succ_le_succ h)]

/-- A style that becomes an annotated call keeps all that can be read off it. -/
theorem read_annotate_callOfTemplate (f : FileInfo) (name : Option String) {k : Kind} {h : Head}
    {parts : List Node} (hk : k = .tagged ∨ k = .call)
    (hn : (Node.inner k h parts).wellShaped true = true) :
    (Css.annotate f name (Css.callOfTemplate (.inner k h parts))).read c =
      (Node.inner k h parts).read c := by
  rcases hk with rfl | rfl
  · obtain ⟨tag, ht, es, qs, rfl, -, -, hq, hlength⟩ := exists_of_wellShaped_tagged hn
    have hle : es.length ≤ qs.length := by
      have := hlength rfl
      omega
    have hquasis : readAll c qs = 0 := by
      refine readAll_eq_zero c fun q hmem => ?_
      obtain ⟨t, rfl⟩ := isQuasi_iff.1 (hq q hmem)
      exact read_leaf c _
    have hcall : Css.callOfTemplate (.tagged h tag ht es qs) =
        .call (Head.ofSpanEmpty h.place) tag (Css.templateArguments true qs es) := rfl
    rw [hcall, read_annotate, read_call, readAll_templateArguments c true hle,
      read_inner_of_isFrame c rfl, readAll_cons, readAll_cons, read_inner_of_isFrame c rfl]
    simp [hquasis]
  · obtain ⟨callee, args, rfl, -⟩ := Kind.allows_call.1 (wellShaped_inner.1 hn).1
    exact read_annotate c f name h callee args

end Node

/-- What is read off an item that is not an import declaration. -/
def Item.readOutside : Item → Multiset α
  | .importing _ => 0
  | .node n => n.read c

/-- What is read off an item; of an import declaration these are its attributes. -/
def Item.read : Item → Multiset α
  | .importing d => d.attributes.read c
  | .node n => n.read c

/-- What is read off a program outside of its import declarations. -/
def Program.readOutside : Program → Multiset α
  | .module m => (m.body.map (Item.readOutside c)).sum
  | .script s => Node.readAll c s.body

/-- What is read off a program. -/
def Program.read : Program → Multiset α
  | .module m => (m.body.map (Item.read c)).sum
  | .script s => Node.readAll c s.body

/-- What is read off the attributes of import declarations. -/
def readAttributes (ds : List ImportDecl) : Multiset α :=
  (ds.map fun d => d.attributes.read c).sum

/-- A program is read outside of its imports and in their attributes. -/
theorem Program.read_eq (p : Program) :
    p.read c = p.readOutside c + readAttributes c p.imports := by
  cases p with
  | script s => exact (add_zero _).symm
  | module m =>
    obtain ⟨h, body⟩ := m
    rw [read, readOutside, Program.imports, Module.imports, readAttributes]
    induction body with
    | nil => rfl
    | cons i is ih =>
      cases i with
      | importing d =>
        simp only [List.map_cons, List.sum_cons, List.filterMap_cons, Item.import?, Item.read,
          Item.readOutside, zero_add] at ih ⊢
        rw [ih, add_left_comm]
      | node n =>
        simp only [List.map_cons, List.sum_cons, List.filterMap_cons, Item.import?, Item.read,
          Item.readOutside] at ih ⊢
        rw [ih, add_assoc]

end StyleLowering
