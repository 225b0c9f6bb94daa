/-
# Labels and nesting

A pass takes the labels of styles from a stack of names, which it keeps on its way through
the tree.  What the label at a place ought to be can be said without a stack: the name of the
nearest node around it that declares one (`nearestName?`).

To compare the two, a pass is written down once more as a visitor that carries the stack
along, puts a name on it where it goes into a declaration, takes it off on the way back, and
keeps a record of each time it asks for the label.  `LabelsNest` says that such a visitor does
what the pass does, leaves the stack as it has found it, asks where it ought to ask, and gets
the name of the nearest declaration.  It is proved step by step, through `Tracks`.
-/

import StyleLowering.LabelStack
import StyleLowering.Stateful
import StyleLowering.Syntax.Program

namespace StyleLowering

open Stateful

/-! ### Places -/

/-- The name that a node declares: that of a variable declarator with nothing but an identifier,
of a property with a value whose key is an identifier or a string, of a function or of a class.
A destructuring declarator declares no name, nor does a computed or numeric key. -/
def Node.declaredName? : Node → Option String
  | .inner .declarator _ (.ident .binding x :: _) => some x.name
  | .inner .keyValue _ (.word w :: _) => some w.text
  | .inner .keyValue _ (.text s :: _) => some s.value
  | .inner .functionDeclaration _ (.ident .binding x :: _) => some x.name
  | .inner .classDeclaration _ (.ident .binding x :: _) => some x.name
  | _ => none

/-- The name of the nearest declaration among the nodes around a place, which are listed from
the inside to the outside. -/
def nearestName? (above : List Node) : Option String := above.findSome? Node.declaredName?

/-- In `const card = { [key]: value }`, what stands behind the computed key is named after the
declarator. -/
example (value : Node) :
    let property := Node.keyValue Head.empty
      (.inner .computed Head.empty [.ident .reference (.global "key")]) value
    nearestName? [property, .object Head.empty [property],
      .inner .declarator Head.empty
        [.ident .binding (.global "card"), .object Head.empty [property]]] = some "card" := rfl

/-- The innermost node that declares a name gives it. -/
theorem nearestName?_cons (n : Node) (above : List Node) :
    nearestName? (n :: above) = n.declaredName?.or (nearestName? above) := by
  rw [nearestName?, nearestName?, List.findSome?_cons]
  cases n.declaredName? <;> rfl

/-- A place in a tree: an inner node, and the inner nodes around it from the inside to the
outside. -/
structure Site where
  above : List Node
  node : Node

mutual

/-- The places in a tree that stands inside of the nodes `above`. -/
def Node.sites (above : List Node) : Node → List Site
  | .leaf _ => []
  | .run ns => Node.sitesAll above ns
  | .inner k h ps => ⟨above, .inner k h ps⟩ :: Node.sitesAll (.inner k h ps :: above) ps

/-- The places in several trees that stand inside of the nodes `above`. -/
def Node.sitesAll (above : List Node) : List Node → List Site
  | [] => []
  | n :: ns => n.sites above ++ Node.sitesAll above ns

end

/-- The places in a program, if those in an item are given. -/
def Program.sites (sitesOf : Item → List Site) : Program → List Site
  | .module m => m.body.flatMap sitesOf
  | .script t => Node.sitesAll [] t.body

namespace Node

/-- A leaf is visited, but is no site. -/
@[simp] theorem sites_leaf (above : List Node) (a : Leaf) : (Node.leaf a).sites above = [] := by
  rw [sites]

/-- A run is no site; its items are visited in order. -/
@[simp] theorem sites_run (above ns : List Node) :
    (Node.run ns).sites above = sitesAll above ns := by
  rw [sites]

/-- A node is a site, and so are the nodes inside of it, which have it above them. -/
@[simp] theorem sites_inner (above : List Node) (k : Kind) (h : Head) (ps : List Node) :
    (Node.inner k h ps).sites above =
      ⟨above, .inner k h ps⟩ :: sitesAll (.inner k h ps :: above) ps := by
  rw [sites]

/-- No trees, no sites. -/
@[simp] theorem sitesAll_nil (above : List Node) : sitesAll above [] = [] := by
  rw [sitesAll]

/-- The first of several trees is visited first. -/
@[simp] theorem sitesAll_cons (above : List Node) (n : Node) (ns : List Node) :
    sitesAll above (n :: ns) = n.sites above ++ sitesAll above ns := by
  rw [sitesAll]

/-- Several trees are visited one after another, from the same place. -/
theorem sitesAll_eq_flatMap (above ns : List Node) :
    sitesAll above ns = ns.flatMap (sites above) := by
  induction ns with
  | nil => rw [sitesAll_nil, List.flatMap_nil]
  | cons n ns ih => rw [sitesAll_cons, ih, List.flatMap_cons]

/-- A place inside of some nodes has these nodes around it. -/
theorem subset_above_of_mem_sites {n : Node} {above : List Node} {s : Site}
    (hs : s ∈ n.sites above) : above ⊆ s.above := by
  induction n generalizing above with
  | leaf a =>
    rw [sites_leaf] at hs
    exact absurd hs List.not_mem_nil
  | run ns ih =>
    rw [sites_run, sitesAll_eq_flatMap] at hs
    obtain ⟨n, hn, hs⟩ := List.mem_flatMap.1 hs
    exact ih n hn hs
  | inner k h ps ih =>
    rw [sites_inner, sitesAll_eq_flatMap] at hs
    rcases List.mem_cons.1 hs with rfl | hs
    · exact List.Subset.refl _
    · obtain ⟨n, hn, hs⟩ := List.mem_flatMap.1 hs
      exact fun a ha => ih n hn hs (List.mem_cons_of_mem _ ha)

/-- An inner node is where all places in it are, or around them. -/
theorem mem_cons_above_of_mem_sites {k : Kind} {h : Head} {ps above : List Node} {s : Site}
    (hs : s ∈ (Node.inner k h ps).sites above) : .inner k h ps ∈ s.node :: s.above := by
  rw [sites_inner, sitesAll_eq_flatMap] at hs
  rcases List.mem_cons.1 hs with rfl | hs
  · exact List.mem_cons_self ..
  · obtain ⟨n, -, hs⟩ := List.mem_flatMap.1 hs
    exact List.mem_cons_of_mem _ (subset_above_of_mem_sites hs (List.mem_cons_self ..))

end Node

/-! ### Visitors with a stack -/

/-- The state of a visitor with a stack of names: the stack, the places where it has asked for
the label with what it got, and the state of the pass itself. -/
structure Tracker (σ : Type) where
  labels : LabelStack
  log : List (Site × Option String)
  own : σ

/-- The name that is put on the stack when a node is entered, `none` if the stack stays. -/
def LabelStack.pushed? : Kind → List Node → Option (Option String)
  | .declarator, pattern :: _ => some pattern.patternLabel?
  | .functionDeclaration, name :: _ | .classDeclaration, name :: _ => some name.patternLabel?
  | .keyValue, key :: _ => some key.keyLabel?
  | _, _ => none

/-- A stack with nothing but one name, or without one. -/
def LabelStack.ofName (name : Option String) : LabelStack := ⟨[name]⟩

/-- On a stack of one name, that name is the label. -/
@[simp] theorem LabelStack.current_ofName (name : Option String) :
    (ofName name).current = name := by
  cases name <;> rfl

/-- A name is pushed where the node has one to push. -/
theorem LabelStack.enter_eq (l : LabelStack) (k : Kind) (parts : List Node) :
    l.enter k parts = ((pushed? k parts).map l.push).getD l := by
  unfold pushed?
  split
  · rfl
  · rfl
  · rfl
  · rfl
  · unfold enter
    split <;> simp_all

/-- A name that is pushed is the label; without one the label is what it was. -/
theorem LabelStack.current_push (l : LabelStack) (name : Option String) :
    (l.push name).current = name.or l.current := by
  cases name <;> rfl

/-- A declarator, a function or a class declares the name that it binds. -/
theorem Node.declaredName?_of_pattern {k : Kind}
    (hk : k = .declarator ∨ k = .functionDeclaration ∨ k = .classDeclaration) (h : Head)
    (pattern : Node) (rest : List Node) :
    (Node.inner k h (pattern :: rest)).declaredName? = pattern.patternLabel? := by
  rcases hk with rfl | rfl | rfl
  all_goals
    cases pattern with
    | leaf a =>
      cases a with
      | ident role x => cases role <;> rfl
      | _ => rfl
    | _ => rfl

/-- A property declares its key. -/
theorem Node.declaredName?_of_key (h : Head) (key : Node) (rest : List Node) :
    (Node.inner .keyValue h (key :: rest)).declaredName? = key.keyLabel? := by
  cases key with
  | leaf a => cases a <;> rfl
  | _ => rfl

/-- What is put on the stack is the name that the node declares. -/
theorem LabelStack.join_pushed? (k : Kind) (h : Head) (parts : List Node) :
    (pushed? k parts).join = (Node.inner k h parts).declaredName? := by
  unfold pushed?
  split
  · exact (Node.declaredName?_of_pattern (.inl rfl) h _ _).symm
  · exact (Node.declaredName?_of_pattern (.inr (.inl rfl)) h _ _).symm
  · exact (Node.declaredName?_of_pattern (.inr (.inr rfl)) h _ _).symm
  · exact (Node.declaredName?_of_key h _ _).symm
  · unfold Node.declaredName?
    split <;> simp_all

/-- Inside of a node that declares a name the label is that name, and inside of any other node
it is what it was outside. -/
theorem LabelStack.current_enter (l : LabelStack) (k : Kind) (h : Head) (parts : List Node) :
    (l.enter k parts).current = ((Node.inner k h parts).declaredName?).or l.current := by
  rw [l.enter_eq, ← join_pushed? k h parts]
  cases pushed? k parts with
  | none => rfl
  | some name => exact l.current_push name

/-- If the label outside is the name of the nearest declaration, so is the label inside. -/
theorem LabelStack.current_enter_of_nearest {l : LabelStack} {above : List Node}
    (hl : l.current = nearestName? above) (k : Kind) (h : Head) (parts : List Node) :
    (l.enter k parts).current = nearestName? (.inner k h parts :: above) := by
  rw [current_enter l k h, hl, nearestName?_cons]

namespace Tracker

/-- Computations of a visitor with a stack. -/
abbrev M (σ : Type) := StateM (Tracker σ)

variable {σ α β : Type}

/-- A visitor at the beginning. -/
def start (s : σ) : Tracker σ := ⟨LabelStack.empty, [], s⟩

/-- A step of the pass that does not look at the stack. -/
def onOwn (f : StateM σ α) : M σ α := fun t =>
  let (a, own) := f t.own
  (a, { t with own })

/-- Asks for the label at a place. -/
def ask (s : Site) : M σ (Option String) := fun t =>
  (t.labels.current, { t with log := t.log ++ [(s, t.labels.current)] })

/-- Visits the parts of a node, with the name of the node on the stack meanwhile. -/
def within (k : Kind) (parts : List Node) (x : M σ α) : M σ α :=
  match LabelStack.pushed? k parts with
  | some name => do
    modify fun t => { t with labels := t.labels.push name }
    let a ← x
    modify fun t => { t with labels := t.labels.pop }
    return a
  | none => x

/-- Items, one after the other. -/
def visitItems (visitItem : Item → M σ Item) : List Item → M σ (List Item)
  | [] => pure []
  | i :: is => do
    let i ← visitItem i
    let is ← visitItems visitItem is
    return i :: is

/-- A program with its items or statements visited. -/
def visitBody (visitItem : Item → M σ Item) (visitAll : List Node → M σ (List Node)) :
    Program → M σ Program
  | .module m => (fun body => .module { m with body }) <$> visitItems visitItem m.body
  | .script t => (fun body => .script { t with body }) <$> visitAll t.body

/-- A step `x` of a visitor that stands inside of the nodes `above` with the stack `l` and visits
`sites`, against the step `f` of the pass. -/
structure Tracks (asks : Site → Prop) (above : List Node) (sites : List Site) (l : LabelStack)
    (x : M σ α) (f : StateM σ α) : Prop where
  /-- The stack is left as it was. -/
  labels : ∀ t, t.labels = l → (x t).2.labels = l
  /-- What comes out is what comes out of the pass. -/
  own : ∀ t, t.labels = l → ((x t).1, (x t).2.own) = f t.own
  /-- If the label outside is the name of the nearest declaration, each label that is asked for
  is; and where it ought to be asked for, it is. -/
  log : l.current = nearestName? above → ∀ t, t.labels = l → ∃ es, (x t).2.log = t.log ++ es ∧
    (∀ e ∈ es, e.1 ∈ sites ∧ e.2 = nearestName? e.1.above) ∧
    ∀ s ∈ sites, asks s → s ∈ es.map Prod.fst

variable {asks : Site → Prop} {above : List Node} {sites sites' : List Site} {l : LabelStack}
  {x : M σ α} {f : StateM σ α}

/-- A step that does not touch the stack and asks for no label. -/
theorem tracks_onOwn (f : StateM σ α) : Tracks asks above [] l (onOwn f) f where
  labels _ ht := ht
  own _ _ := rfl
  log _ _ _ := ⟨[], (List.append_nil _).symm, fun _ he => absurd he List.not_mem_nil,
    fun _ hs => absurd hs List.not_mem_nil⟩

/-- A step that does nothing tracks one that does nothing. -/
theorem tracks_pure (a : α) : Tracks asks above [] l (pure a : M σ α) (pure a) :=
  tracks_onOwn (pure a)

/-- To ask for the label tracks reading it from the top of the stack. -/
theorem tracks_ask (n : Node) :
    Tracks asks above [⟨above, n⟩] l (ask ⟨above, n⟩ : M σ (Option String))
      (pure l.current) where
  labels _ ht := ht
  own t ht := by
    rw [← ht]
    rfl
  log hl t ht := ⟨[(⟨above, n⟩, t.labels.current)], rfl,
    List.forall_mem_singleton.2 ⟨List.mem_singleton_self _, ht ▸ hl⟩, fun _ hs _ => hs⟩

/-- One step after the other. -/
theorem Tracks.bind {y : α → M σ β} {g : α → StateM σ β} (hx : Tracks asks above sites l x f)
    (hy : ∀ a, Tracks asks above sites' l (y a) (g a)) :
    Tracks asks above (sites ++ sites') l (x >>= y) (f >>= g) where
  labels t ht := (hy _).labels _ (hx.labels t ht)
  own t ht := by
    rw [bind_apply, bind_apply, ← hx.own t ht]
    exact (hy _).own _ (hx.labels t ht)
  log hl t ht := by
    obtain ⟨es, he, hes, hall⟩ := hx.log hl t ht
    obtain ⟨es', he', hes', hall'⟩ := (hy (x t).1).log hl (x t).2 (hx.labels t ht)
    refine ⟨es ++ es', ?_, fun e hmem => ?_, fun s hmem hs => ?_⟩
    · rw [bind_apply, he', he, List.append_assoc]
    · rcases List.mem_append.1 hmem with hmem | hmem
      · exact ⟨List.mem_append_left _ (hes e hmem).1, (hes e hmem).2⟩
      · exact ⟨List.mem_append_right _ (hes' e hmem).1, (hes' e hmem).2⟩
    · rw [List.map_append]
      rcases List.mem_append.1 hmem with hmem | hmem
      · exact List.mem_append_left _ (hall s hmem hs)
      · exact List.mem_append_right _ (hall' s hmem hs)

/-- What is made of the result is made of it in both. -/
theorem Tracks.map (hx : Tracks asks above sites l x f) (g : α → β) :
    Tracks asks above sites l (g <$> x) (g <$> f) where
  labels := hx.labels
  own t ht := by rw [map_apply, map_apply, ← hx.own t ht]
  log := hx.log

/-- Places may be left out in which nobody ought to ask for the label. -/
theorem Tracks.mono (hx : Tracks asks above sites l x f) (hsub : sites ⊆ sites')
    (hasks : ∀ s ∈ sites', asks s → s ∈ sites) : Tracks asks above sites' l x f where
  labels := hx.labels
  own := hx.own
  log hl t ht := by
    obtain ⟨es, he, hes, hall⟩ := hx.log hl t ht
    exact ⟨es, he, fun e hmem => ⟨hsub (hes e hmem).1, (hes e hmem).2⟩,
      fun s hmem hs => hall s (hasks s hmem hs) hs⟩

/-- The places may be listed in another order, and more than once. -/
theorem Tracks.of_mem_iff (hx : Tracks asks above sites l x f) (h : ∀ s, s ∈ sites ↔ s ∈ sites') :
    Tracks asks above sites' l x f :=
  hx.mono (fun s => (h s).1) fun s hs _ => (h s).2 hs

/-- The parts of a node: its name is on the stack while they are visited. -/
theorem Tracks.within {k : Kind} {h : Head} {parts : List Node}
    (hx : Tracks asks (.inner k h parts :: above) sites (l.enter k parts) x f) :
    Tracks asks above sites l (within k parts x) f := by
  have hcurrent (hl : l.current = nearestName? above) :
      (l.enter k parts).current = nearestName? (.inner k h parts :: above) :=
    LabelStack.current_enter_of_nearest hl k h parts
  unfold Tracker.within
  cases hp : LabelStack.pushed? k parts with
  | none =>
    have henter : l.enter k parts = l := by rw [l.enter_eq, hp]; rfl
    rw [henter] at hx hcurrent
    exact ⟨hx.labels, hx.own, fun hl => hx.log (hcurrent hl)⟩
  | some name =>
    have henter : l.enter k parts = l.push name := by rw [l.enter_eq, hp]; rfl
    rw [henter] at hx hcurrent
    refine ⟨fun t ht => ?_, fun t ht => ?_, fun hl t ht => ?_⟩
    · have hstack := hx.labels { t with labels := t.labels.push name } (by rw [ht])
      simp only [bind_apply, modify_apply, pure_apply, hstack, LabelStack.pop_push]
    · exact hx.own { t with labels := t.labels.push name } (by rw [ht])
    · exact hx.log (hcurrent hl) { t with labels := t.labels.push name } (by rw [ht])

/-- Items are visited in their order, as a pass goes through them. -/
theorem tracks_visitItems (items : List Item → StateM σ (List Item))
    {visitItem : Item → M σ Item} {item : Item → StateM σ Item} {sitesOf : Item → List Site}
    (hnil : items [] = pure [])
    (hcons : ∀ i is, items (i :: is) = item i >>= fun i => (i :: ·) <$> items is)
    (hitem : ∀ i, Tracks asks [] (sitesOf i) .empty (visitItem i) (item i)) (is : List Item) :
    Tracks asks [] (is.flatMap sitesOf) .empty (visitItems visitItem is) (items is) := by
  induction is with
  | nil =>
    rw [hnil]
    exact tracks_pure []
  | cons i is ih =>
    rw [hcons]
    exact (hitem i).bind fun i => ih.map (i :: ·)

/-- Labels follow the nesting of declarations: `visit` and `visitProgram` are the visitor with a
stack for the pass given by `node` and `program`, which asks for labels at some of the
`sites`. -/
structure LabelsNest (visit : List Node → Node → M σ Node)
    (node : LabelStack → Node → StateM σ Node) (visitProgram : Program → M σ Program)
    (program : Program → StateM σ Program) (sites : Program → List Site) (asks : Site → Prop) :
    Prop where
  /-- Visiting a node leaves the stack exactly as it was. -/
  labels : ∀ above n t, (visit above n t).2.labels = t.labels
  node_eq : ∀ above n t,
    ((visit above n t).1, (visit above n t).2.own) = node t.labels n t.own
  program_eq : ∀ p s,
    ((visitProgram p (start s)).1, (visitProgram p (start s)).2.own) = program p s
  /-- Each label is the name of the nearest declaration around the place. -/
  nearest : ∀ p s, ∀ e ∈ (visitProgram p (start s)).2.log,
    e.1 ∈ sites p ∧ e.2 = nearestName? e.1.above
  /-- No place is left out. -/
  asked : ∀ p s, ∀ site ∈ sites p, asks site →
    site ∈ (visitProgram p (start s)).2.log.map Prod.fst

/-- **The labels nest** if each visit of the visitor tracks the pass. -/
theorem labelsNest_of_tracks {visit : List Node → Node → M σ Node}
    {node : LabelStack → Node → StateM σ Node} {visitProgram : Program → M σ Program}
    {program : Program → StateM σ Program} {sites : Program → List Site}
    (hnode : ∀ n above l, Tracks asks above (n.sites above) l (visit above n) (node l n))
    (hprogram : ∀ p, Tracks asks [] (sites p) .empty (visitProgram p) (program p)) :
    LabelsNest visit node visitProgram program sites asks where
  labels above n t := (hnode n above t.labels).labels t rfl
  node_eq above n t := (hnode n above t.labels).own t rfl
  program_eq p s := (hprogram p).own (start s) rfl
  nearest p s := by
    obtain ⟨es, he, hes, -⟩ := (hprogram p).log rfl (start s) rfl
    rw [he]
    exact hes
  asked p s := by
    obtain ⟨es, he, -, hall⟩ := (hprogram p).log rfl (start s) rfl
    rw [he]
    exact hall

end Tracker
end StyleLowering
