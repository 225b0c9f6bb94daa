/-
# The names in a program

The names that a program spells: those of its identifiers and of the words that stand for
themselves, and those under which its import declarations import something, unless they are
string literals (`Program.names`).

A name of the language has a first character that may start a name, and others that may follow.
Of the characters beyond ASCII the tables of Unicode say what they may do; they are left open.
-/

import StyleLowering.Proofs.Syntax.Imports
import StyleLowering.Syntax.Build

namespace StyleLowering

/-! ### Names of the language -/

/-- Whether a character may stand in a name, as the first one or behind it.  `beyond` decides
about the characters beyond ASCII. -/
def isIdentifierChar (beyond : Bool → Char → Bool) (first : Bool) (c : Char) : Bool :=
  if c.toNat < 128 then c.isAlpha || c == '_' || c == '$' || (c.isDigit && !first)
  else beyond first c

/-- Whether a text is a name of the language; keywords are names as well. -/
def isIdentifierName (beyond : Bool → Char → Bool) (name : String) : Bool :=
  match name.toList with
  | [] => false
  | c :: cs => isIdentifierChar beyond true c && cs.all (isIdentifierChar beyond false)

example : isIdentifierName (fun _ _ => false) "$a1" = true ∧
    isIdentifierName (fun _ _ => false) "1a" = false ∧
    isIdentifierName (fun _ _ => false) "a-b" = false ∧
    isIdentifierName (fun _ _ => false) "default" = true := by
  decide

/-! ### Names of a tree -/

/-- The name of an identifier or a word. -/
def Leaf.name? : Leaf → Option String
  | .ident _ x => some x.name
  | .word w => some w.text
  | _ => none

mutual

/-- The names in a tree. -/
def Node.names : Node → List String
  | .leaf a => a.name?.toList
  | .run ns => Node.namesAll ns
  | .inner _ _ ns => Node.namesAll ns

/-- The names in several trees. -/
def Node.namesAll : List Node → List String
  | [] => []
  | n :: ns => n.names ++ Node.namesAll ns

end

/-- The names of a specifier: its binding, and the identifier under which that is exported. -/
def ImportSpecifier.names : ImportSpecifier → List String
  | .named _ x (some (.ident y)) _ => [x.name, y.name]
  | s => [s.binding.name]

/-- The name under which something is imported, if it is a string literal. -/
def ImportSpecifier.textName? : ImportSpecifier → Option String
  | .named _ _ (some (.text s)) _ => some s.value
  | _ => none

/-- The names in an import declaration. -/
def ImportDecl.names (d : ImportDecl) : List String :=
  d.specifiers.flatMap ImportSpecifier.names ++ d.attributes.names

/-- The names in an item. -/
def Item.names : Item → List String
  | .importing d => d.names
  | .node n => n.names

/-- The names in a program. -/
def Program.names : Program → List String
  | .module m => m.body.flatMap Item.names
  | .script t => Node.namesAll t.body

variable {P : String → Prop}

/-- The names under which a declaration imports something that are string literals. -/
def ImportDecl.textNames (d : ImportDecl) : List String :=
  d.specifiers.filterMap ImportSpecifier.textName?

/-- What a specifier imports has the default name, or one in the program, or a string literal. -/
theorem ImportSpecifier.mem_names_or_textName?_eq {s : ImportSpecifier} {name : String}
    (h : s.importedName? = some name) :
    name = "default" ∨ name ∈ s.names ∨ s.textName? = some name := by
  cases s with
  | default => exact .inl (Option.some.inj h).symm
  | named span x imported typeOnly =>
    rw [importedName?, Option.some.injEq] at h
    match imported, h with
    | none, rfl => exact .inr (.inl List.mem_cons_self)
    | some (.ident y), rfl => exact .inr (.inl (List.mem_cons_of_mem _ List.mem_cons_self))
    | some (.text s), rfl => exact .inr (.inr rfl)
  | star => cases h

/-- All names in a tree are of some sort. -/
def Node.Spelled (P : String → Prop) (n : Node) : Prop := ∀ name ∈ n.names, P name

/-- All names in an item are of some sort. -/
def Item.Spelled (P : String → Prop) (i : Item) : Prop := ∀ name ∈ i.names, P name

/-- All names in a program are of some sort. -/
def Program.Spelled (P : String → Prop) (p : Program) : Prop := ∀ name ∈ p.names, P name

namespace Node

/-- A name in several trees is in one of them. -/
theorem mem_namesAll {ns : List Node} {name : String} :
    name ∈ namesAll ns ↔ ∃ n ∈ ns, name ∈ n.names := by
  induction ns with
  | nil => simp [namesAll]
  | cons n ns ih => rw [namesAll, List.mem_append, ih, List.exists_mem_cons_iff]

/-- What holds of the names in several trees holds of those in each of them. -/
theorem forall_mem_namesAll {ns : List Node} :
    (∀ name ∈ namesAll ns, P name) ↔ ∀ n ∈ ns, n.Spelled P := by
  simp only [mem_namesAll]
  exact ⟨fun h n hn name hname => h name ⟨n, hn, hname⟩,
    fun h name ⟨n, hn, hname⟩ => h n hn name hname⟩

/-- A leaf is spelled as its name is, if it has one. -/
theorem spelled_leaf {a : Leaf} : (Node.leaf a).Spelled P ↔ ∀ name ∈ a.name?, P name := by
  rw [Spelled, names]
  simp

/-- A run is spelled as its items are. -/
@[simp] theorem spelled_run {ns : List Node} : (Node.run ns).Spelled P ↔ ∀ n ∈ ns, n.Spelled P := by
  rw [Spelled, names, forall_mem_namesAll]

/-- A node is spelled as its parts are. -/
@[simp] theorem spelled_inner {k : Kind} {h : Head} {ns : List Node} :
    (Node.inner k h ns).Spelled P ↔ ∀ n ∈ ns, n.Spelled P := by
  rw [Spelled, names, forall_mem_namesAll]

/-- An identifier is spelled as its name is. -/
@[simp] theorem spelled_ident {role : Role} {x : Ident} :
    (Node.ident role x).Spelled P ↔ P x.name := by
  simp [spelled_leaf, Leaf.name?]

/-- A word is spelled as its text is. -/
@[simp] theorem spelled_word {w : Word} : (Node.word w).Spelled P ↔ P w.text := by
  simp [spelled_leaf, Leaf.name?]

/-- A string literal spells no name. -/
@[simp] theorem spelled_text (s : StringLiteral) : (Node.text s).Spelled P := by
  simp [spelled_leaf, Leaf.name?]

/-- A call is spelled as its callee and its arguments are. -/
theorem spelled_call {h : Head} {callee : Node} {args : List Node} :
    (Node.call h callee args).Spelled P ↔ callee.Spelled P ∧ ∀ a ∈ args, a.Spelled P := by
  simp

/-- An object literal is spelled as its properties are. -/
theorem spelled_object {h : Head} {ps : List Node} :
    (Node.object h ps).Spelled P ↔ ∀ p ∈ ps, p.Spelled P := by
  simp

/-- An argument is spelled as its expression is. -/
theorem spelled_argument {e : Node} : (Build.argument e).Spelled P ↔ e.Spelled P := by
  simp [Build.argument]

/-- A generated string spells no name. -/
theorem spelled_textArgument (value : String) : (Build.textArgument value).Spelled P :=
  spelled_argument.2 (spelled_text _)

/-- A generated property spells its key. -/
theorem spelled_property {key value : String} : (Build.property key value).Spelled P ↔ P key := by
  simp [Build.property, Build.word, Build.text]

/-- A generated member access spells its object and the name behind the dot. -/
theorem spelled_member {object : Node} {name : String} :
    (Build.member object name).Spelled P ↔ object.Spelled P ∧ P name := by
  simp [Build.member, Build.word]

end Node

/-- A module is spelled as its items are. -/
theorem Program.spelled_module {m : Module} :
    (Program.module m).Spelled P ↔ ∀ i ∈ m.body, i.Spelled P := by
  rw [Spelled, names]
  simp only [List.mem_flatMap]
  exact ⟨fun h i hi name hname => h name ⟨i, hi, hname⟩,
    fun h name ⟨i, hi, hname⟩ => h i hi name hname⟩

/-- A script is spelled as its statements are. -/
theorem Program.spelled_script {t : Script} :
    (Program.script t).Spelled P ↔ ∀ n ∈ t.body, n.Spelled P :=
  Node.forall_mem_namesAll

/-- An import declaration is spelled as its specifiers and its attributes are. -/
theorem Item.spelled_importing {d : ImportDecl} :
    (Item.importing d).Spelled P ↔
      (∀ s ∈ d.specifiers, ∀ name ∈ s.names, P name) ∧ d.attributes.Spelled P := by
  rw [Spelled, names, ImportDecl.names]
  simp only [List.mem_append, List.mem_flatMap, or_imp, forall_and]
  exact and_congr_left fun _ => ⟨fun h s hs name hname => h name ⟨s, hs, hname⟩,
    fun h name ⟨s, hs, hname⟩ => h s hs name hname⟩

/-- The imports of a program are spelled as the program is. -/
theorem Program.Spelled.importing {p : Program} (h : p.Spelled P) {d : ImportDecl}
    (hd : d ∈ p.imports) : (Item.importing d).Spelled P := by
  cases p with
  | module m => exact Program.spelled_module.1 h _ (Module.mem_imports.1 hd)
  | script t => exact absurd hd List.not_mem_nil

end StyleLowering
