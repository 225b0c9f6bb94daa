/-
# Labels in the last pass

The last pass as a visitor with a stack of names (`Walk.tracks_visit`).  With that it is known
of both passes that their labels follow the nesting of declarations
(`Transform.labels_nest`).
-/

import StyleLowering.Proofs.Rewrite.Labels
import StyleLowering.Proofs.Walk.Steps

namespace StyleLowering

open Stateful Tracker

namespace Walk

mutual

/-- A tree after the last pass, by a visitor with a stack of names.  The label of a css prop is
asked for on the way in, and that of a call on the way out. -/
def visit (above : List Node) : Node → Tracker.M Walk Node
  | .leaf a => pure (.leaf a)
  | .run ns => .run <$> visitAll above ns
  | .inner k h parts =>
    let inside := .inner k h parts :: above
    if k = .jsxAttribute then do
      let label ← ask ⟨above, .inner k h parts⟩
      let callee ← onOwn (onFile (CssProp.enter k parts))
      let ps ← within k parts (visitAll inside parts)
      onOwn (leave (.ofName label) callee k h ps)
    else if k = .call then do
      let ps ← within k parts (visitAll inside parts)
      let label ← ask ⟨above, .inner k h parts⟩
      onOwn (leave (.ofName label) none k h ps)
    else do
      let ps ← within k parts (visitAll inside parts)
      return .inner k h ps

/-- Several trees after the last pass, by a visitor with a stack of names. -/
def visitAll (above : List Node) : List Node → Tracker.M Walk (List Node)
  | [] => pure []
  | n :: ns => do
    let n ← visit above n
    let ns ← visitAll above ns
    return n :: ns

end

/-- An item, by a visitor with a stack of names. -/
def visitItem : Item → Tracker.M Walk Item
  | .importing d => (fun attributes => .importing { d with attributes }) <$> visit [] d.attributes
  | .node n => .node <$> visit [] n

/-- A program, by a visitor with a stack of names. -/
def visitProgram : Program → Tracker.M Walk Program := visitBody visitItem (visitAll [])

/-- The places where the pass ought to ask for the label: attributes, css props among them, and
calls, those of `withComponent` among them. -/
def Asks (s : Site) : Prop :=
  ∃ k h parts, s.node = .inner k h parts ∧ (k = .jsxAttribute ∨ k = .call)

/-- The places in an item, those in the attributes of an import declaration among them. -/
def sitesOf : Item → List Site
  | .importing d => d.attributes.sites []
  | .node n => n.sites []

/-- Of the labels, only the current one matters on the way back. -/
theorem leave_ofName (l : LabelStack) : leave (.ofName l.current) = leave l := by
  unfold leave
  simp only [LabelStack.current_ofName]

/-- Going through several trees is tracked if each of the visits is. -/
theorem tracks_visitAll {ns : List Node}
    (h : ∀ n ∈ ns, ∀ above l, Tracks Asks above (n.sites above) l (visit above n) (node l n))
    (above : List Node) (l : LabelStack) :
    Tracks Asks above (Node.sitesAll above ns) l (visitAll above ns) (nodes l ns) := by
  induction ns with
  | nil =>
    rw [visitAll, nodes, Node.sitesAll_nil]
    exact tracks_pure []
  | cons n ns ih =>
    rw [List.forall_mem_cons] at h
    rw [visitAll, nodes, Node.sitesAll_cons]
    exact (h.1 above l).bind fun n => (ih h.2).map (n :: ·)

/-- **The last pass, one node.** -/
theorem tracks_visit (n : Node) (above : List Node) (l : LabelStack) :
    Tracks Asks above (n.sites above) l (visit above n) (node l n) := by
  induction n generalizing above l with
  | leaf a =>
    rw [visit, node, Node.sites_leaf]
    exact tracks_pure _
  | run ns ih =>
    rw [visit, node, Node.sites_run]
    exact (tracks_visitAll ih above l).map Node.run
  | inner k h parts ih =>
    have hparts := (tracks_visitAll ih (.inner k h parts :: above) (l.enter k parts)).within
    have hask : Tracks Asks above [⟨above, .inner k h parts⟩] l (ask ⟨above, .inner k h parts⟩)
        (pure l.current : StateM Walk (Option String)) := tracks_ask _
    rw [visit, node, Node.sites_inner]
    by_cases hattribute : k = .jsxAttribute
    · rw [if_pos hattribute]
      have hsteps := hask.bind fun label =>
        (tracks_onOwn (onFile (CssProp.enter k parts))).bind fun callee =>
          hparts.bind fun ps => tracks_onOwn (leave (.ofName label) callee k h ps)
      simp only [pure_bind, leave_ofName] at hsteps
      refine hsteps.of_mem_iff fun s => ?_
      rw [List.append_nil]
      rfl
    -- there is nothing to compile in any other node
    have henter : onFile (CssProp.enter k parts) = pure none :=
      funext fun w => by rw [onFile_apply, enter_of_ne hattribute, pure_apply]
    rw [if_neg hattribute, henter, pure_bind]
    by_cases hcall : k = .call
    · rw [if_pos hcall]
      have hsteps := hparts.bind fun ps =>
        hask.bind fun label => tracks_onOwn (leave (.ofName label) none k h ps)
      simp only [pure_bind, leave_ofName] at hsteps
      refine hsteps.of_mem_iff fun s => ?_
      rw [List.append_nil, List.mem_append, List.mem_singleton, List.mem_cons, or_comm]
    · rw [if_neg hcall]
      have hleave : ∀ ps, leave l none k h ps = pure (.inner k h ps) := fun ps =>
        funext fun w => leave_of_ne l w hcall h ps
      simp only [hleave]
      refine (hparts.map _).mono (List.subset_cons_self _ _) fun s hs hasks => ?_
      refine (List.mem_cons.1 hs).resolve_left ?_
      rintro rfl
      obtain ⟨_, _, _, he, hk⟩ := hasks
      cases he
      exact hk.elim hattribute hcall

/-- Going through an item is tracked, from outside of all declarations. -/
theorem tracks_visitItem (i : Item) :
    Tracks Asks [] (sitesOf i) .empty (visitItem i) (item i) := by
  cases i with
  | importing d =>
    exact (tracks_visit d.attributes [] .empty).map
      fun attributes => Item.importing { d with attributes }
  | node n => exact (tracks_visit n [] .empty).map Item.node

/-- **The last pass, a whole program.** -/
theorem tracks_visitProgram (p : Program) :
    Tracks Asks [] (p.sites sitesOf) .empty (visitProgram p) (program p) := by
  cases p with
  | module m =>
    exact (tracks_visitItems items rfl (fun _ _ => rfl) tracks_visitItem m.body).map
      fun body => Program.module { m with body }
  | script t =>
    exact (tracks_visitAll (fun n _ => tracks_visit n) [] .empty).map
      fun body => Program.script { t with body }

end Walk

/-- **Labels follow the nesting of declarations,** in the rewriting pass and in the last one.
Visiting a node leaves the stack of names as it was, and the label of a style call, of the
options of a styled component, of a css prop and of a `withComponent` call is the name of the
nearest declaration around it that has a simple one, if there is any. -/
theorem Transform.labels_nest :
    (∀ r : Rewriter, LabelsNest r.visit r.node r.visitProgram r.program
      (Program.sites Rewriter.sitesOf) r.Asks) ∧
    LabelsNest Walk.visit Walk.node Walk.visitProgram Walk.program
      (Program.sites Walk.sitesOf) Walk.Asks :=
  ⟨fun r => labelsNest_of_tracks r.tracks_visit r.tracks_visitProgram,
    labelsNest_of_tracks Walk.tracks_visit Walk.tracks_visitProgram⟩

end StyleLowering
