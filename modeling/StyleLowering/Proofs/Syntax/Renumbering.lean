/-
# Other numbers for syntax contexts

The numbers of the syntax contexts say nothing but which identifiers belong together.  A
renumbering gives them other numbers (`Renumbering`); only the two that generated identifiers
carry stay as they are.  Here are a program under other numbers and what does not change about
it: its labels, what is pure in it, and the shape of what is generated.
-/

import StyleLowering.Imports.Flush
import StyleLowering.Scope.Purity
import StyleLowering.LabelStack
import StyleLowering.Syntax.Build
import Mathlib.Logic.Equiv.Basic

namespace StyleLowering

/-- Other numbers for the syntax contexts.  Different contexts stay different, and the contexts
that generated identifiers carry keep their numbers. -/
structure Renumbering where
  context : Context → Context
  injective : Function.Injective context
  empty : context Context.empty = Context.empty
  unresolved : context Context.unresolved = Context.unresolved

/-- The numbers as they are. -/
def Renumbering.refl : Renumbering := ⟨id, Function.injective_id, rfl, rfl⟩

/-- Two numbers exchanged, neither of them one that generated identifiers carry. -/
def Renumbering.exchange (a b : Context) (ha : Context.unresolved < a)
    (hb : Context.unresolved < b) : Renumbering where
  context := Equiv.swap a b
  injective := (Equiv.swap a b).injective
  empty := Equiv.swap_apply_of_ne_of_ne (Nat.ne_of_lt (Nat.zero_lt_of_lt ha))
    (Nat.ne_of_lt (Nat.zero_lt_of_lt hb))
  unresolved := Equiv.swap_apply_of_ne_of_ne (Nat.ne_of_lt ha) (Nat.ne_of_lt hb)

variable (c : Renumbering)

/-! ### Programs under other numbers -/

/-- A binding under other numbers. -/
def Id.renumber (x : Id) : Id := ⟨x.name, c.context x.context⟩

/-- An identifier under other numbers. -/
def Ident.renumber (x : Ident) : Ident := { x with context := c.context x.context }

/-- A leaf under other numbers. -/
def Leaf.renumber : Leaf → Leaf
  | .ident role x => .ident role (x.renumber c)
  | a => a

/-- What a node says about itself under other numbers. -/
def Head.renumber (h : Head) : Head := { h with context := h.context.map c.context }

mutual

/-- A tree under other numbers. -/
def Node.renumber : Node → Node
  | .leaf a => .leaf (a.renumber c)
  | .run ns => .run (Node.renumberAll ns)
  | .inner k h ns => .inner k (h.renumber c) (Node.renumberAll ns)

/-- Several trees under other numbers. -/
def Node.renumberAll : List Node → List Node
  | [] => []
  | n :: ns => n.renumber :: Node.renumberAll ns

end

/-- The name of an export under other numbers. -/
def ExportName.renumber : ExportName → ExportName
  | .ident x => .ident (x.renumber c)
  | .text s => .text s

/-- A binding of an import declaration under other numbers. -/
def ImportSpecifier.renumber : ImportSpecifier → ImportSpecifier
  | .default span x => .default span (x.renumber c)
  | .named span x imported typeOnly =>
    .named span (x.renumber c) (imported.map (ExportName.renumber c)) typeOnly
  | .star span x => .star span (x.renumber c)

/-- An import declaration under other numbers. -/
def ImportDecl.renumber (d : ImportDecl) : ImportDecl :=
  { d with
    specifiers := d.specifiers.map (ImportSpecifier.renumber c)
    attributes := d.attributes.renumber c }

/-- An item under other numbers. -/
def Item.renumber : Item → Item
  | .importing d => .importing (d.renumber c)
  | .node n => .node (n.renumber c)

/-- A module under other numbers. -/
def Module.renumber (m : Module) : Module :=
  ⟨m.head.renumber c, m.body.map (Item.renumber c)⟩

/-- A script under other numbers. -/
def Script.renumber (s : Script) : Script :=
  ⟨s.head.renumber c, s.body.map (Node.renumber c)⟩

/-- A program under other numbers. -/
def Program.renumber : Program → Program
  | .module m => .module (m.renumber c)
  | .script s => .script (s.renumber c)

/-- An identifier and what it does, under other numbers. -/
def Mention.renumber (m : Mention) : Mention := { m with ident := m.ident.renumber c }

/-! ### What there is in a tree -/

/-- Different contexts have different numbers again. -/
@[simp] theorem Renumbering.context_eq_iff {a b : Context} :
    c.context a = c.context b ↔ a = b :=
  c.injective.eq_iff

/-- The context of generated identifiers keeps its number. -/
@[simp] theorem Renumbering.context_empty : c.context Context.empty = Context.empty := c.empty

/-- Only what no scope binds is bound by no scope under other numbers. -/
@[simp] theorem Renumbering.context_eq_unresolved_iff {a : Context} :
    c.context a = Context.unresolved ↔ a = Context.unresolved := by
  rw [← c.context_eq_iff (a := a), c.unresolved]

/-- Different bindings stay different. -/
@[simp] theorem Id.renumber_inj {x y : Id} : x.renumber c = y.renumber c ↔ x = y := by
  cases x
  cases y
  simp [Id.renumber]

namespace Ident

variable (x : Ident)

/-- The name of an identifier is not a number. -/
@[simp] theorem name_renumber : (x.renumber c).name = x.name := rfl

/-- An identifier stays in its place. -/
@[simp] theorem span_renumber : (x.renumber c).span = x.span := rfl

/-- The binding that an identifier means is renumbered with it. -/
@[simp] theorem id_renumber : (x.renumber c).id = x.id.renumber c := rfl

/-- It does not matter whether an identifier is moved or renumbered first. -/
@[simp] theorem renumber_moveTo (span : Span) :
    (x.moveTo span).renumber c = (x.renumber c).moveTo span := rfl

/-- A generated identifier is the same under all numbers. -/
@[simp] theorem renumber_generated (name : String) :
    (generated name).renumber c = generated name := by
  rw [generated, renumber, c.empty]

/-- A name that no scope binds is the same under all numbers. -/
@[simp] theorem renumber_global (name : String) : (global name).renumber c = global name := by
  rw [global, renumber, c.unresolved]

end Ident

namespace Head

/-- A node stays in its place. -/
@[simp] theorem place_renumber (h : Head) : (h.renumber c).place = h.place := rfl

/-- An operator is no context. -/
@[simp] theorem operator?_renumber (h : Head) : (h.renumber c).operator? = h.operator? := rfl

/-- A node that says nothing about itself has no context. -/
@[simp] theorem renumber_empty : empty.renumber c = empty := rfl

/-- A node that has nothing but a place has no context. -/
@[simp] theorem renumber_ofSpan (span : Span) : (ofSpan span).renumber c = ofSpan span := rfl

/-- A generated node has the empty context, which keeps its number. -/
@[simp] theorem renumber_ofSpanEmpty (span : Span) :
    (ofSpanEmpty span).renumber c = ofSpanEmpty span := by
  rw [ofSpanEmpty, renumber, Option.map_some, c.empty]

end Head

namespace Leaf

variable {c} {a : Leaf}

/-- An identifier is the one leaf that has a context. -/
@[simp] theorem renumber_ident (role : Role) (x : Ident) :
    (ident role x).renumber c = ident role (x.renumber c) := rfl

/-- A part that is left out stays left out. -/
@[simp] theorem renumber_absent : absent.renumber c = absent := rfl

/-- A word has no context. -/
@[simp] theorem renumber_word (w : Word) : (word w).renumber c = word w := rfl

/-- A string literal has no context. -/
@[simp] theorem renumber_text (t : StringLiteral) : (text t).renumber c = text t := rfl

/-- The text of a template has no context. -/
@[simp] theorem renumber_quasi (q : Quasi) : (quasi q).renumber c = quasi q := rfl

/-- Only identifiers become identifiers. -/
@[simp] theorem renumber_eq_ident_iff {role : Role} {y : Ident} :
    a.renumber c = .ident role y ↔ ∃ x, a = .ident role x ∧ x.renumber c = y := by
  constructor
  · intro he
    cases a with
    | ident _ x =>
      cases he
      exact ⟨x, rfl, rfl⟩
    | _ => cases he
  · rintro ⟨x, rfl, rfl⟩
    rfl

/-- A leaf that is no identifier comes from itself alone. -/
@[simp] theorem renumber_eq_iff_of_ne {b : Leaf} (h : ∀ role x, b ≠ .ident role x) :
    a.renumber c = b ↔ a = b := by
  cases a with
  | ident role x => exact iff_of_false (fun he => h _ _ he.symm) fun he => h _ _ he.symm
  | _ => rfl

end Leaf

namespace Node

variable {c} {n : Node}

/-- A leaf stays a leaf. -/
@[simp] theorem renumber_leaf (a : Leaf) : (leaf a).renumber c = .leaf (a.renumber c) := by
  rw [renumber]

/-- Several trees are renumbered one by one. -/
theorem renumberAll_eq_map (ns : List Node) : renumberAll c ns = ns.map (renumber c) := by
  induction ns with
  | nil => rw [renumberAll, List.map_nil]
  | cons n ns ih => rw [renumberAll, ih, List.map_cons]

/-- A run stays a run, and its items are renumbered. -/
@[simp] theorem renumber_run (ns : List Node) :
    (run ns).renumber c = .run (ns.map (renumber c)) := by
  rw [renumber, renumberAll_eq_map]

/-- A node keeps its kind; what it says about itself and its parts are renumbered. -/
@[simp] theorem renumber_inner (k : Kind) (h : Head) (ns : List Node) :
    (inner k h ns).renumber c = .inner k (h.renumber c) (ns.map (renumber c)) := by
  rw [renumber, renumberAll_eq_map]

/-- Only leaves become leaves. -/
@[simp] theorem renumber_eq_leaf_iff {b : Leaf} :
    n.renumber c = .leaf b ↔ ∃ a, n = .leaf a ∧ a.renumber c = b := by
  cases n <;> simp

/-- Only runs become runs. -/
@[simp] theorem renumber_eq_run_iff {ms : List Node} :
    n.renumber c = .run ms ↔ ∃ ns, n = .run ns ∧ ns.map (renumber c) = ms := by
  cases n <;> simp

/-- Only nodes of a kind become nodes of that kind. -/
@[simp] theorem renumber_eq_inner_iff {k : Kind} {h' : Head} {ms : List Node} :
    n.renumber c = .inner k h' ms ↔
      ∃ h ns, n = .inner k h ns ∧ h.renumber c = h' ∧ ns.map (renumber c) = ms := by
  constructor
  · intro he
    cases n with
    | inner _ h ns =>
      rw [renumber_inner] at he
      cases he
      exact ⟨h, ns, rfl, rfl, rfl⟩
    | leaf a => simp at he
    | run ns => simp at he
  · rintro ⟨h, ns, rfl, rfl, rfl⟩
    exact renumber_inner k h ns

/-- The name that a declarator gives to labels is no context. -/
@[simp] theorem patternLabel?_renumber : (n.renumber c).patternLabel? = n.patternLabel? := by
  rw [patternLabel?.eq_def n]
  split
  · simp [patternLabel?]
  · rename_i hother
    unfold patternLabel?
    split
    · rename_i hn
      simp only [renumber_eq_leaf_iff, Leaf.renumber_eq_ident_iff] at hn
      obtain ⟨_, rfl, x, rfl, -⟩ := hn
      exact absurd rfl (hother x)
    · rfl

/-- The name that a key gives to labels is no context. -/
@[simp] theorem keyLabel?_renumber : (n.renumber c).keyLabel? = n.keyLabel? := by
  rw [keyLabel?.eq_def n]
  split
  · simp [keyLabel?]
  · simp [keyLabel?]
  · unfold keyLabel?
    split <;> simp_all

/-- Object literals are the same nodes under other numbers. -/
theorem exists_object_renumber :
    (∃ h ps, n.renumber c = .object h ps) ↔ ∃ h ps, n = .object h ps := by
  constructor
  · rintro ⟨h, ps, he⟩
    simp only [renumber_eq_inner_iff, List.map_eq_singleton_iff, renumber_eq_run_iff] at he
    obtain ⟨h, _, rfl, -, _, rfl, ps, rfl, -⟩ := he
    exact ⟨h, ps, rfl⟩
  · rintro ⟨h, ps, rfl⟩
    exact ⟨h.renumber c, ps.map (renumber c), by simp⟩

/-- A statement of nothing but a string stays one, and no other becomes one. -/
@[simp] theorem isDirective_renumber : (n.renumber c).isDirective = n.isDirective := by
  rw [isDirective.eq_def n]
  split
  · simp [isDirective]
  · unfold isDirective
    split
    · simp_all [List.map_eq_cons_iff]
    · rfl

/-- The identifiers of several trees are renumbered if those of each of them are. -/
theorem mentionsAll_renumber {ns : List Node}
    (h : ∀ n ∈ ns, (n.renumber c).mentions = n.mentions.map (Mention.renumber c)) :
    mentionsAll (ns.map (renumber c)) = (mentionsAll ns).map (Mention.renumber c) := by
  induction ns with
  | nil => simp
  | cons n ns ih =>
    rw [List.forall_mem_cons] at h
    simp [h.1, ih h.2]

/-- The identifiers of a tree are renumbered with it, in their order. -/
@[simp] theorem mentions_renumber :
    (n.renumber c).mentions = n.mentions.map (Mention.renumber c) := by
  induction n with
  | leaf a => cases a <;> rfl
  | run ns ih => simp [mentionsAll_renumber ih]
  | inner k h ns ih => simp [mentionsAll_renumber ih]

end Node

/-- The identifiers of an item are renumbered with it, in their order. -/
@[simp] theorem Item.mentions_renumber (i : Item) :
    (i.renumber c).mentions = i.mentions.map (Mention.renumber c) := by
  cases i with
  | node n => exact Node.mentions_renumber
  | importing d =>
    have hbinding : ∀ s : ImportSpecifier, (s.renumber c).binding = s.binding.renumber c := by
      intro s
      cases s <;> rfl
    simp [renumber, mentions, ImportDecl.mentions, ImportDecl.renumber, Mention.renumber,
      Function.comp_def, hbinding]

/-- The same names are pushed on the way into a tree. -/
@[simp] theorem LabelStack.enter_renumber (l : LabelStack) (k : Kind) (ps : List Node) :
    l.enter k (ps.map (Node.renumber c)) = l.enter k ps := by
  cases ps with
  | nil => rfl
  | cons p ps => cases k <;> simp [enter]

namespace Scope

variable {c}

/-- Several trees are as pure as before if each of them is. -/
theorem arePure_renumber {ns : List Node}
    (h : ∀ n ∈ ns, isPure Context.unresolved (n.renumber c) = isPure Context.unresolved n) :
    arePure Context.unresolved (ns.map (Node.renumber c)) = arePure Context.unresolved ns := by
  rw [arePure_eq_all, arePure_eq_all, List.all_map, Bool.eq_iff_iff, List.all_eq_true,
    List.all_eq_true]
  exact forall₂_congr fun n hn => Bool.eq_iff_iff.1 (h n hn)

/-- Which leaves are pure depends on nothing but which names are bound. -/
@[simp] theorem isPureLeaf_renumber (a : Leaf) :
    isPureLeaf Context.unresolved (a.renumber c) = isPureLeaf Context.unresolved a := by
  cases a with
  | ident role x =>
    rw [Leaf.renumber, isPureLeaf, isPureLeaf, Bool.eq_iff_iff, bne_iff_ne, bne_iff_ne]
    exact not_congr c.context_eq_unresolved_iff
  | _ => rfl

/-- Whether a node is looked into depends on its kind and its operator. -/
theorem isTransparent_renumber (h : Head) (k : Kind) :
    isTransparent (h.renumber c) k = isTransparent h k := by
  simp only [isTransparent, Head.operator?_renumber]

/-- **Purity does not depend on the numbers.** -/
@[simp] theorem isPure_renumber (n : Node) :
    isPure Context.unresolved (n.renumber c) = isPure Context.unresolved n := by
  induction n with
  | leaf a => rw [Node.renumber_leaf, isPure, isPure, isPureLeaf_renumber]
  | run ns ih => rw [Node.renumber_run, isPure, isPure, arePure_renumber ih]
  | inner k h ns ih =>
    rw [Node.renumber_inner]
    by_cases hm : ∃ key rest, k = .method ∧ ns = key :: rest
    · obtain ⟨key, rest, rfl, rfl⟩ := hm
      rw [List.map_cons, isPure, isPure]
      exact ih key (List.mem_cons_self ..)
    · have hm' : ∀ key rest, ¬(k = .method ∧ ns.map (Node.renumber c) = key :: rest) := by
        rintro key rest ⟨hk, hns⟩
        obtain ⟨key, rest, rfl, -⟩ := List.map_eq_cons_iff.1 hns
        exact hm ⟨key, rest, hk, rfl⟩
      rw [isPure_inner _ _ hm', isPure_inner _ _ fun key rest h => hm ⟨key, rest, h⟩,
        isTransparent_renumber, arePure_renumber ih]

end Scope

/-! ### Generated nodes -/

namespace Build

variable {c}

/-- A generated use is renumbered with its identifier. -/
@[simp] theorem renumber_reference (x : Ident) :
    (reference x).renumber c = reference (x.renumber c) := by
  simp [reference]

/-- A generated argument is renumbered with its expression. -/
@[simp] theorem renumber_argument (e : Node) :
    (argument e).renumber c = argument (e.renumber c) := by
  simp [argument]

/-- A generated string is the same under all numbers. -/
@[simp] theorem renumber_text (value : String) : (text value).renumber c = text value := by
  simp [text]

/-- A generated string as an argument is the same under all numbers. -/
@[simp] theorem renumber_textArgument (value : String) :
    (textArgument value).renumber c = textArgument value := by
  simp [textArgument]

/-- A generated call is renumbered with its callee and its arguments. -/
@[simp] theorem renumber_call (span : Span) (callee : Node) (args : List Node) :
    (call span callee args).renumber c =
      call span (callee.renumber c) (args.map (Node.renumber c)) := by
  simp [call]

/-- A generated member access is renumbered with its object. -/
@[simp] theorem renumber_member (object : Node) (name : String) :
    (member object name).renumber c = member (object.renumber c) name := by
  simp [member, word]

/-- A generated object literal is renumbered with its properties. -/
@[simp] theorem renumber_object (properties : List Node) :
    (object properties).renumber c = object (properties.map (Node.renumber c)) := by
  simp [object]

/-- A generated property has a text as its value, and is the same under all numbers. -/
@[simp] theorem renumber_property (name value : String) :
    (property name value).renumber c = property name value := by
  simp [property, word]

/-- A generated declaration is renumbered with its name and its initial value. -/
@[simp] theorem renumber_declaration (x : Ident) (init : Node) :
    (declaration x init).renumber c = declaration (x.renumber c) (init.renumber c) := by
  simp [declaration, Head.renumber]

end Build

/-! ### The numbers as they are -/

/-- With the numbers as they are, a node says the same about itself. -/
@[simp] theorem Head.renumber_refl (h : Head) : h.renumber .refl = h :=
  congrArg (fun context => { h with context }) Option.map_id_apply

/-- With the numbers as they are, a tree is the same. -/
@[simp] theorem Node.renumber_refl (n : Node) : n.renumber .refl = n := by
  induction n with
  | leaf a => cases a <;> rw [renumber_leaf] <;> rfl
  | run ns ih => rw [renumber_run, (List.map_congr_left ih).trans (List.map_id ns)]
  | inner k h ns ih =>
    rw [renumber_inner, Head.renumber_refl, (List.map_congr_left ih).trans (List.map_id ns)]

/-- With the numbers as they are, a script is the same. -/
theorem Script.renumber_refl (s : Script) : s.renumber .refl = s := by
  rw [renumber, Head.renumber_refl, List.map_id'' Node.renumber_refl]

/-- With the numbers as they are, a binding of an import is the same. -/
theorem ImportSpecifier.renumber_refl (s : ImportSpecifier) : s.renumber .refl = s := by
  cases s with
  | named span x imported typeOnly =>
    cases imported with
    | none => rfl
    | some e => cases e <;> rfl
  | _ => rfl

/-- With the numbers as they are, a module is the same. -/
theorem Module.renumber_refl (m : Module) : m.renumber .refl = m := by
  have hitem : ∀ i : Item, i.renumber .refl = i := by
    intro i
    cases i with
    | node n => rw [Item.renumber, Node.renumber_refl]
    | importing d =>
      rw [Item.renumber, ImportDecl.renumber, Node.renumber_refl,
        List.map_id'' ImportSpecifier.renumber_refl]
  rw [renumber, Head.renumber_refl, List.map_id'' hitem]

end StyleLowering
