/-
# What the last pass leaves alone

A tree without css props that are compiled and without `withComponent` calls is the
same after the last pass, and so is the state (`Walk.node_of_isIdle`).
-/

import StyleLowering.Proofs.Walk.Passage

namespace StyleLowering

/-- A call of a `withComponent` member with one or two arguments. -/
def Kind.isWithComponent : Kind → List Node → Bool
  | .call, [callee, .run args] => WithComponent.applies callee args
  | _, _ => false

/-- Whether the last pass has nothing to do at a node itself. -/
def Kind.isIdle (f : FileInfo) (k : Kind) (ps : List Node) : Bool :=
  !(f.compilesCssProp && (CssProp.literal? k ps).isSome) && !k.isWithComponent ps

mutual

/-- Whether the last pass has nothing to do in a tree. -/
def Node.isIdle (f : FileInfo) : Node → Bool
  | .leaf _ => true
  | .run ns => Node.allIdle f ns
  | .inner k _ ns => k.isIdle f ns && Node.allIdle f ns

/-- Whether the last pass has nothing to do in several trees. -/
def Node.allIdle (f : FileInfo) : List Node → Bool
  | [] => true
  | n :: ns => n.isIdle f && Node.allIdle f ns

end

/-- Whether the last pass has nothing to do in an item. -/
def Item.isIdle (f : FileInfo) : Item → Bool
  | .importing d => d.attributes.isIdle f
  | .node n => n.isIdle f

/-- Whether the last pass has nothing to do in a program. -/
def Program.isIdle (f : FileInfo) : Program → Bool
  | .module m => m.body.all (·.isIdle f)
  | .script s => s.body.all (·.isIdle f)

namespace Node

variable {f : FileInfo}

/-- Several trees are idle if each of them is. -/
theorem allIdle_iff {ns : List Node} : allIdle f ns = true ↔ ∀ n ∈ ns, n.isIdle f = true := by
  induction ns with
  | nil => rw [allIdle]; simp
  | cons n ns ih => rw [allIdle, Bool.and_eq_true, ih, List.forall_mem_cons]

/-- A run is idle if its items are. -/
theorem isIdle_run {ns : List Node} :
    (Node.run ns).isIdle f = true ↔ ∀ n ∈ ns, n.isIdle f = true := by
  rw [isIdle, allIdle_iff]

/-- A node is idle if it is no work for the pass and its parts are idle. -/
theorem isIdle_inner {k : Kind} {h : Head} {ns : List Node} :
    (Node.inner k h ns).isIdle f = true ↔
      k.isIdle f ns = true ∧ ∀ n ∈ ns, n.isIdle f = true := by
  rw [isIdle, Bool.and_eq_true, allIdle_iff]

end Node

namespace Walk

open Stateful

variable {w : Walk}

/-- At an idle node, no import is asked for. -/
theorem enter_of_isIdle {k : Kind} {ps : List Node} {s : FileState}
    (h : k.isIdle s.info ps = true) : CssProp.enter k ps s = (none, s) := by
  rw [Kind.isIdle, Bool.and_eq_true, Bool.not_eq_true'] at h
  rw [enter_apply, h.1]
  rfl

/-- An idle node is not normalised. -/
theorem normalize_of_isIdle {f : FileInfo} {k : Kind} {ps : List Node} (hk : k.isIdle f ps = true)
    (name : Option String) (h : Head) (s : FileState) :
    WithComponent.normalize name (.inner k h ps) s = (.ok (false, .inner k h ps), s) := by
  rw [Kind.isIdle, Bool.and_eq_true, Bool.not_eq_true', Bool.not_eq_true'] at hk
  have hnot : ∀ {h' callee args}, Node.inner k h ps = .call h' callee args →
      WithComponent.applies callee args ≠ true := by
    rintro _ _ _ ⟨⟩
    rw [show WithComponent.applies _ _ = false from hk.2]
    exact Bool.false_ne_true
  exact normalize_cases name _ s (P := (· = _)) rfl
    (fun _ _ _ he happ => absurd happ (hnot he)) fun _ _ _ he happ => absurd happ (hnot he)

/-- An idle node is left as it is. -/
theorem leave_of_isIdle {k : Kind} {ps : List Node} (hk : k.isIdle w.file.info ps = true)
    (labels : LabelStack) (h : Head) : leave labels none k h ps w = (.inner k h ps, w) := by
  by_cases hcall : k = .call
  · subst hcall
    simp only [leave, bind_apply, onFile_apply, normalize_of_isIdle hk]
    rfl
  · exact leave_of_ne labels w hcall h ps

/-- Several trees stay if each of them does. -/
theorem nodes_of_forall (labels : LabelStack) {ns : List Node}
    (h : ∀ n ∈ ns, node labels n w = (n, w)) : nodes labels ns w = (ns, w) := by
  induction ns with
  | nil => rw [nodes_nil]
  | cons n ns ih =>
    rw [List.forall_mem_cons] at h
    rw [nodes_cons, h.1, ih h.2]

/-- **A tree in which there is nothing to do stays,** and so does the state. -/
theorem node_of_isIdle {n : Node} (hn : n.isIdle w.file.info = true) (labels : LabelStack) :
    node labels n w = (n, w) := by
  induction n generalizing labels with
  | leaf a => rw [node_leaf]
  | run ns ih =>
    rw [Node.isIdle_run] at hn
    rw [node_run, nodes_of_forall labels fun n hmem => ih n hmem (hn n hmem) labels]
  | inner k h ps ih =>
    rw [Node.isIdle_inner] at hn
    have hparts := nodes_of_forall (labels.enter k ps) fun n hmem => ih n hmem (hn.2 n hmem) _
    -- the parts are the same when the node is left, so there is still nothing to do
    rw [node_inner_of_enter labels (enter_of_isIdle hn.1), hparts, leave_of_isIdle hn.1]

/-- The pass leaves idle trees alone. -/
theorem nodes_of_isIdle {ns : List Node} (hn : ∀ n ∈ ns, n.isIdle w.file.info = true)
    (labels : LabelStack) : nodes labels ns w = (ns, w) :=
  nodes_of_forall labels fun n hmem => node_of_isIdle (hn n hmem) labels

/-- A program in which there is nothing to do stays. -/
theorem program_of_isIdle {p : Program} (hp : p.isIdle w.file.info = true) :
    program p w = (p, w) := by
  cases p with
  | script t =>
    simp only [program, bind_apply, pure_apply]
    rw [nodes_of_isIdle (List.all_eq_true.1 hp)]
  | module m =>
    have hitems : ∀ is : List Item, (∀ i ∈ is, i.isIdle w.file.info = true) →
        items is w = (is, w) := by
      intro is
      induction is with
      | nil => exact fun _ => rfl
      | cons i is ih =>
        intro h
        rw [List.forall_mem_cons] at h
        have hi : item i w = (i, w) := by
          cases i with
          | importing d =>
            simp only [item, bind_apply, pure_apply]
            rw [node_of_isIdle h.1]
          | node n =>
            rw [item, map_apply]
            rw [node_of_isIdle h.1]
        simp only [items, bind_apply, pure_apply]
        rw [hi, ih h.2]
    simp only [program, bind_apply, pure_apply]
    rw [hitems m.body (List.all_eq_true.1 hp)]

end Walk
end StyleLowering
