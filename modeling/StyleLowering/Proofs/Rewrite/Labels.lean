/-
# Labels in the rewriting pass

The rewriting pass as a visitor with a stack of names.  Templates and calls get their labels
when their parts are done, and the options of a styled component before; at both times the
stack is the same (`Rewriter.tracks_visit`).
-/

import StyleLowering.Proofs.Labels
import StyleLowering.Proofs.Rewrite.Cases

namespace StyleLowering

open Stateful Tracker

/-- Whether a node is the specifier of an export. -/
def Node.isExportSpecifier : Node → Bool
  | .inner k _ _ => k == .exportSpecifier
  | _ => false

namespace Rewriter

mutual

/-- A tree with its references rewritten, by a visitor with a stack of names. -/
def visit (r : Rewriter) (above : List Node) : Node → Tracker.M Nat Node
  | .leaf a => pure (r.leaf a)
  | .run ns => .run <$> r.visitAll above ns
  | .inner k h parts =>
    let inside := .inner k h parts :: above
    if k = .exportSpecifier then pure (.inner k h (r.exportParts parts))
    else
      match Rewrite.Usage.of r.targets k parts, parts with
      | .tag runtime name target, _ => do
        let label ← ask ⟨above, .inner k h parts⟩
        onOwn (r.tagCall (.ofName label) h.place runtime name target)
      | .component target, [callee, .run (a :: rest)] => do
        let label ← ask ⟨above, .inner k h parts⟩
        let options ← onOwn (Styled.generated r.info label target.isWeb)
        let callee ← r.visit inside callee
        let first ← r.visit inside a
        let label ← ask ⟨above, .inner k h parts⟩
        let assign ← onOwn (r.mergeFunction (.ofName label) (a :: rest) options)
        let rest ← r.visitAll inside rest
        return .call h callee (Styled.addOptions assign options (first :: rest))
      | .styles true, ps => do
        let ps ← within k ps (r.visitAll inside ps)
        let label ← ask ⟨above, .inner k h parts⟩
        return r.styles (.ofName label) true k h ps
      | .styles false, ps => do
        let ps ← within k ps (r.visitAll inside ps)
        return r.styles .empty false k h ps
      | _, ps => do
        let ps ← within k ps (r.visitAll inside ps)
        return .inner k h ps

/-- Several trees with their references rewritten, by a visitor with a stack of names. -/
def visitAll (r : Rewriter) (above : List Node) : List Node → Tracker.M Nat (List Node)
  | [] => pure []
  | n :: ns => do
    let n ← r.visit above n
    let ns ← r.visitAll above ns
    return n :: ns

end

/-- An item, by a visitor with a stack of names; import declarations are left alone. -/
def visitItem (r : Rewriter) : Item → Tracker.M Nat Item
  | .importing d => pure (.importing d)
  | .node n => .node <$> r.visit [] n

/-- A program, by a visitor with a stack of names. -/
def visitProgram (r : Rewriter) : Program → Tracker.M Nat Program :=
  visitBody r.visitItem (r.visitAll [])

/-- Whether a node gets a label: a style call or template that takes one, or a styled component
with its options. -/
def isLabelled (r : Rewriter) : Node → Bool
  | .inner k _ parts =>
    match Rewrite.Usage.of r.targets k parts with
    | .styles label => label
    | .component _ | .tag _ _ _ => true
    | .unrelated => false
  | _ => false

/-- The places where the pass ought to ask for the label, none of them in the specifier of an
export. -/
def Asks (r : Rewriter) (s : Site) : Prop :=
  r.isLabelled s.node = true ∧ ∀ n ∈ s.node :: s.above, n.isExportSpecifier = false

/-- The places in an item. -/
def sitesOf : Item → List Site
  | .importing _ => []
  | .node n => n.sites []

/-- Of the labels, only the current one matters for the call that a tag becomes. -/
theorem tagCall_ofName (r : Rewriter) (l : LabelStack) :
    r.tagCall (.ofName l.current) = r.tagCall l := by
  unfold tagCall
  rw [LabelStack.current_ofName]

/-- Of the labels, only the current one matters for the function that merges options. -/
theorem mergeFunction_ofName (r : Rewriter) (l : LabelStack) :
    r.mergeFunction (.ofName l.current) = r.mergeFunction l := by
  unfold mergeFunction objectAssign
  rw [tagCall_ofName]

/-- Of the labels, only the current one matters for a style. -/
theorem styles_ofName (r : Rewriter) (l : LabelStack) (label : Bool) :
    r.styles (.ofName l.current) label = r.styles l label := by
  unfold styles
  rw [LabelStack.current_ofName]

/-- Going through several trees is tracked if each of the visits is. -/
theorem tracks_visitAll (r : Rewriter) {ns : List Node}
    (h : ∀ n ∈ ns, ∀ above l, Tracks r.Asks above (n.sites above) l (r.visit above n) (r.node l n))
    (above : List Node) (l : LabelStack) :
    Tracks r.Asks above (Node.sitesAll above ns) l (r.visitAll above ns) (r.nodes l ns) := by
  induction ns with
  | nil =>
    rw [visitAll, nodes, Node.sitesAll_nil]
    exact tracks_pure []
  | cons n ns ih =>
    rw [List.forall_mem_cons] at h
    rw [visitAll, nodes, Node.sitesAll_cons]
    exact (h.1 above l).bind fun n => (ih h.2).map (n :: ·)

section Inner

variable (r : Rewriter) {k : Kind} {h : Head} {parts above : List Node} {l : LabelStack}

/-- Nowhere in the specifier of an export does the pass ask. -/
theorem not_asks_exportSpecifier {s : Site}
    (hs : s ∈ (Node.inner .exportSpecifier h parts).sites above) : ¬r.Asks s := fun hasks =>
  Bool.false_ne_true (hasks.2 _ (Node.mem_cons_above_of_mem_sites hs)).symm

/-- In a node that gets no label itself, the pass asks in the parts only. -/
theorem mem_of_asks (hno : r.isLabelled (.inner k h parts) = false) :
    ∀ s ∈ (Node.inner k h parts).sites above,
      r.Asks s → s ∈ Node.sitesAll (.inner k h parts :: above) parts := by
  intro s hs hasks
  rw [Node.sites_inner] at hs
  refine (List.mem_cons.1 hs).resolve_left ?_
  rintro rfl
  exact absurd (hno.symm.trans hasks.1) Bool.false_ne_true

/-- A styled target that is called: the label is asked for at first, and once more for the
function that merges options. -/
theorem tracks_component {callee a : Node} {rest : List Node} (t : StyledTarget)
    (hcallee : ∀ above,
      Tracks r.Asks above (callee.sites above) l (r.visit above callee) (r.node l callee))
    (hfirst : ∀ above, Tracks r.Asks above (a.sites above) l (r.visit above a) (r.node l a))
    (hrest : ∀ above,
      Tracks r.Asks above (Node.sitesAll above rest) l (r.visitAll above rest) (r.nodes l rest)) :
    let n := Node.call h callee (a :: rest)
    Tracks r.Asks above (n.sites above) l
      (do
        let label ← ask ⟨above, n⟩
        let options ← onOwn (Styled.generated r.info label t.isWeb)
        let callee ← r.visit (n :: above) callee
        let first ← r.visit (n :: above) a
        let label ← ask ⟨above, n⟩
        let assign ← onOwn (r.mergeFunction (.ofName label) (a :: rest) options)
        let rest ← r.visitAll (n :: above) rest
        return Node.call h callee (Styled.addOptions assign options (first :: rest)))
      (do
        let options ← Styled.generated r.info l.current t.isWeb
        let callee ← r.node l callee
        let first ← r.node l a
        let assign ← r.mergeFunction l (a :: rest) options
        let rest ← r.nodes l rest
        return Node.call h callee (Styled.addOptions assign options (first :: rest))) := by
  intro n
  have hask : Tracks r.Asks above [⟨above, n⟩] l (ask ⟨above, n⟩)
      (pure l.current : StateM Nat (Option String)) := tracks_ask n
  -- no name is put on the stack for a call
  have hcallee : Tracks r.Asks above _ l (r.visit (n :: above) callee) (r.node l callee) :=
    (hcallee (n :: above)).within
  have hfirst : Tracks r.Asks above _ l (r.visit (n :: above) a) (r.node l a) :=
    (hfirst (n :: above)).within
  have hrest : Tracks r.Asks above _ l (r.visitAll (n :: above) rest) (r.nodes l rest) :=
    (hrest (n :: above)).within
  have hsteps := hask.bind fun label =>
    (tracks_onOwn (Styled.generated r.info label t.isWeb)).bind fun options =>
      hcallee.bind fun callee =>
        hfirst.bind fun first =>
          hask.bind fun label =>
            (tracks_onOwn (r.mergeFunction (.ofName label) (a :: rest) options)).bind fun assign =>
              hrest.map fun rest =>
                Node.call h callee (Styled.addOptions assign options (first :: rest))
  simp only [pure_bind, mergeFunction_ofName] at hsteps
  refine hsteps.of_mem_iff fun s => ?_
  simp only [n, Node.sites_inner, Node.sites_run, Node.sitesAll_cons, Node.sitesAll_nil,
    List.mem_append, List.mem_cons, List.not_mem_nil]
  tauto

end Inner

/-- **The rewriting pass, one node.** -/
theorem tracks_visit (r : Rewriter) (n : Node) (above : List Node) (l : LabelStack) :
    Tracks r.Asks above (n.sites above) l (r.visit above n) (r.node l n) := by
  induction n using Node.induct_through generalizing above l with
  | leaf a =>
    rw [visit, node, Node.sites_leaf]
    exact tracks_pure _
  | run ns ih =>
    rw [visit, node, Node.sites_run]
    exact (r.tracks_visitAll ih above l).map Node.run
  | inner k h parts ih ihruns =>
    have hparts := (r.tracks_visitAll ih (.inner k h parts :: above) (l.enter k parts)).within
    rw [visit.eq_def, node.eq_def]
    dsimp only
    by_cases hk : k = .exportSpecifier
    · subst hk
      exact (tracks_pure _).mono (List.nil_subset _)
        fun s hs hasks => absurd hasks (r.not_asks_exportSpecifier hs)
    -- The cases are those of what the node is used for; only a labelled one asks.
    rw [if_neg hk, if_neg hk]
    have hf := Rewrite.Usage.fits_of r.targets k parts
    generalize hu : Rewrite.Usage.of r.targets k parts = u at hf
    have hask : Tracks r.Asks above [⟨above, .inner k h parts⟩] l (ask ⟨above, .inner k h parts⟩)
        (pure l.current : StateM Nat (Option String)) := tracks_ask _
    have hsub : Node.sitesAll (.inner k h parts :: above) parts ⊆
        (Node.inner k h parts).sites above := by
      rw [Node.sites_inner]
      exact List.subset_cons_self _ _
    cases hf with
    | unrelated =>
      have hno : r.isLabelled (.inner k h parts) = false := by rw [isLabelled, hu]
      exact (hparts.map _).mono hsub (r.mem_of_asks hno)
    | @styles _ _ label hst =>
      cases label with
      | true =>
        -- The parts are visited first, and then the label is asked for: the order of the sites is
        -- another one, and only their set matters.
        have hsteps := hparts.bind fun ps =>
          hask.map fun name => r.styles (.ofName name) true k h ps
        simp only [map_pure, styles_ofName] at hsteps
        refine hsteps.of_mem_iff fun s => ?_
        rw [Node.sites_inner, List.mem_append, List.mem_singleton, List.mem_cons, or_comm]
      | false =>
        have hno : r.isLabelled (.inner k h parts) = false := by rw [isLabelled, hu]
        exact (hparts.map _).mono hsub (r.mem_of_asks hno)
    | @component callee a rest t ht hs =>
      have hrun : Node.run (a :: rest) ∈ [callee, .run (a :: rest)] :=
        List.mem_cons_of_mem _ (List.mem_singleton_self _)
      exact r.tracks_component t (fun above => ih callee (List.mem_cons_self ..) above l)
        (fun above => ihruns _ hrun a (List.mem_cons_self ..) above l)
        (fun above => r.tracks_visitAll
          (fun n hn => ihruns _ hrun n (List.mem_cons_of_mem _ hn)) above l)
    | @tag x y w t ht hw hy =>
      have hsteps := hask.bind fun name =>
        tracks_onOwn (r.tagCall (.ofName name) h.place y w.text t)
      simp only [pure_bind, tagCall_ofName] at hsteps
      refine hsteps.of_mem_iff fun s => ?_
      simp

/-- Going through an item is tracked, from outside of all declarations. -/
theorem tracks_visitItem (r : Rewriter) (i : Item) :
    Tracks r.Asks [] (sitesOf i) .empty (r.visitItem i) (r.item i) := by
  cases i with
  | importing d => exact tracks_pure _
  | node n => exact (r.tracks_visit n [] .empty).map Item.node

/-- **The rewriting pass, a whole program.** -/
theorem tracks_visitProgram (r : Rewriter) (p : Program) :
    Tracks r.Asks [] (p.sites sitesOf) .empty (r.visitProgram p) (r.program p) := by
  cases p with
  | module m =>
    exact (tracks_visitItems r.items rfl (fun _ _ => rfl) r.tracks_visitItem m.body).map
      fun body => Program.module { m with body }
  | script t =>
    exact (r.tracks_visitAll (fun n _ => r.tracks_visit n) [] .empty).map
      fun body => Program.script { t with body }

end Rewriter
end StyleLowering
