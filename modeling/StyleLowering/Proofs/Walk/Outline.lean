/-
# The last pass is a renaming

The last pass gives no identifier another name.  Calls and css props are taken apart;
of all other nodes it keeps the outline (`Walk.isRenaming`).
-/

import StyleLowering.Proofs.Syntax.Outline
import StyleLowering.Proofs.Walk.Origins

namespace StyleLowering
namespace Walk

open Stateful

/-- Where no import is asked for, the parts are visited and the node is left. -/
theorem node_inner_of_enter (labels : LabelStack) {k : Kind} {parts : List Node} {w : Walk}
    (he : CssProp.enter k parts w.file = (none, w.file)) (h : Head) :
    node labels (.inner k h parts) w =
      leave labels none k h (nodes (labels.enter k parts) parts w).1
        (nodes (labels.enter k parts) parts w).2 := by
  rw [node_inner, he]

/-- **The three ways of normalising a node.**  It stays; or it is a call with a spread argument, and
that is an error; or it is a call that gets generated options, the counter goes on, and the index is
stale. -/
theorem normalize_cases (name : Option String) (n : Node) (s : FileState)
    {P : Except StyleError (Bool × Node) × FileState → Prop} (stays : P (.ok (false, n), s))
    (spread : ∀ h callee args, n = .call h callee args → WithComponent.applies callee args = true →
      P (.error .withComponentSpread, s))
    (options : ∀ h callee args, n = .call h callee args → WithComponent.applies callee args = true →
      let g := Styled.generated s.info name true s.targets
      P (.ok (true, .call h callee
          (Styled.setSecond args
            (Styled.merge Styled.objectAssign (Styled.secondArgument args) g.1))),
        { s with targets := g.2, scope := s.scope.invalidate })) :
    P (WithComponent.normalize name n s) := by
  by_cases hcall : ∃ h callee args, n = .call h callee args
  · obtain ⟨h, callee, args, rfl⟩ := hcall
    rw [normalize_apply]
    split
    · exact stays
    · next happ =>
      rw [Bool.not_eq_true', Bool.not_eq_false] at happ
      split
      · exact spread h callee args rfl happ
      · exact options h callee args rfl happ
  · unfold WithComponent.normalize
    split
    · exact absurd ⟨_, _, _, rfl⟩ hcall
    · exact stays

/-- Normalising a node changes nothing but its parts. -/
theorem exists_normalize {name : Option String} {k : Kind} {h : Head} {parts : List Node}
    {s : FileState} {b : Bool × Node}
    (hn : (WithComponent.normalize name (.inner k h parts) s).1 = .ok b) :
    ∃ parts', b.2 = .inner k h parts' := by
  refine normalize_cases name (.inner k h parts) s
    (P := fun p => p.1 = .ok b → ∃ parts', b.2 = .inner k h parts') ?_ ?_ ?_ hn
  · rintro ⟨⟩
    exact ⟨_, rfl⟩
  · rintro _ _ _ - - ⟨⟩
  · rintro _ _ _ ⟨⟩ - g ⟨⟩
    exact ⟨_, rfl⟩

/-- A node keeps its kind and what it says about itself. -/
theorem exists_leave (labels : LabelStack) (callee : Option Ident) (k : Kind) (h : Head)
    (parts : List Node) (w : Walk) :
    ∃ parts', (leave labels callee k h parts w).1 = .inner k h parts' := by
  by_cases hcall : k = .call
  · subst hcall
    simp only [leave, bind_apply, onFile_apply]
    cases hn : (WithComponent.normalize labels.current (.inner .call h parts) w.file).1 with
    | error e => exact ⟨_, rfl⟩
    | ok b => exact exists_normalize hn
  by_cases hattribute : k = .jsxAttribute
  · subst hattribute
    cases callee with
    | none => exact ⟨_, by rw [leave_of_ne _ _ hcall]⟩
    | some callee => exact ⟨_, by rw [leave_cssProp]⟩
  · rw [leave_plain labels hcall fun he => absurd he hattribute]
    exact ⟨_, rfl⟩

/-- **The pass keeps the kind of a node and what it says about itself.** -/
theorem exists_node_inner (labels : LabelStack) (k : Kind) (h : Head) (parts : List Node)
    (w : Walk) : ∃ parts', (node labels (.inner k h parts) w).1 = .inner k h parts' := by
  rw [node_inner]
  exact exists_leave ..

/-- What the pass makes of a tree, whatever the labels and the state. -/
def Makes (n m : Node) : Prop := ∃ labels w, m = (node labels n w).1

/-- What comes of several trees comes of each of them. -/
theorem forall₂_makes (labels : LabelStack) (ns : List Node) (w : Walk) :
    List.Forall₂ Makes ns (nodes labels ns w).1 := by
  induction ns generalizing w with
  | nil =>
    rw [nodes_nil]
    exact .nil
  | cons n ns ih =>
    rw [nodes_cons]
    exact .cons ⟨labels, w, rfl⟩ (ih _)

/-- The names of a specifier are not visited. -/
theorem outerName?_node (labels : LabelStack) (name outer : Node) (w w' : Walk) :
    Node.outerName? (node labels name w).1 (node labels outer w').1 =
      Node.outerName? name outer := by
  have hname : ∀ (n : Node) (w : Walk), (node labels n w).1.exportName? = n.exportName? := by
    intro n w
    cases n with
    | leaf a => rw [node_leaf]
    | run ns =>
      rw [node_run]
      rfl
    | inner k h ps =>
      obtain ⟨qs, he⟩ := exists_node_inner labels k h ps w
      rw [he]
      rfl
  cases outer with
  | leaf a =>
    rw [node_leaf]
    cases a with
    | absent => exact hname name w
    | _ => rfl
  | run ns =>
    rw [node_run]
    rfl
  | inner k h ps =>
    obtain ⟨qs, he⟩ := exists_node_inner labels k h ps w'
    rw [he]
    rfl

/-- A specifier has the same entry once its parts are visited. -/
theorem entryOfSpecifier?_nodes (labels : LabelStack) (h : Head) (ps : List Node) (w : Walk) :
    (Node.inner .exportSpecifier h (nodes labels ps w).1).entryOfSpecifier? =
      (Node.inner .exportSpecifier h ps).entryOfSpecifier? := by
  match ps with
  | [] => rw [nodes_nil]
  | [a] =>
    rw [nodes_cons, nodes_nil]
    rfl
  | [name, outer] =>
    rw [nodes_cons, nodes_cons, nodes_nil, Node.entryOfSpecifier?, Node.entryOfSpecifier?,
      outerName?_node]
  | a :: b :: d :: ps =>
    rw [nodes_cons, nodes_cons, nodes_cons]
    rfl

/-- At a node that is neither a call nor an attribute, only the parts are visited. -/
theorem node_inner_of_ne (labels : LabelStack) {k : Kind} (hcall : k ≠ .call)
    (hattribute : k ≠ .jsxAttribute) (h : Head) (ps : List Node) (w : Walk) :
    (node labels (.inner k h ps) w).1 = .inner k h (nodes (labels.enter k ps) ps w).1 := by
  rw [node_inner_of_enter labels (enter_of_ne hattribute ps w.file), leave_of_ne _ _ hcall]

/-- **The last pass is a renaming** without other names. -/
theorem isRenaming : Node.IsRenaming (fun _ => none) Makes := by
  rintro n _ ⟨labels, w, rfl⟩
  cases n with
  | leaf a =>
    rw [node_leaf]
    cases a with
    | ident role x => exact .ident fun _ => rfl
    | _ => exact .leaf (by rintro _ _ ⟨⟩)
  | run ns =>
    rw [node_run]
    exact .run (forall₂_makes labels ns w)
  | inner k h ps =>
    cases hf : k.isFrame with
    | false =>
      rw [node_inner_of_ne labels (by rintro rfl; cases hf) (by rintro rfl; cases hf)]
      exact .inner hf (forall₂_makes _ ps w)
    | true =>
      by_cases hs : k = .exportSpecifier
      · subst hs
        rw [node_inner_of_ne labels (by decide) (by decide)]
        exact .frame rfl rfl (entryOfSpecifier?_nodes _ h ps w)
      · obtain ⟨qs, he⟩ := exists_node_inner labels k h ps w
        rw [he]
        refine .frame hf hf ?_
        rw [Node.entryOfSpecifier?_of_isFrame hf hs, Node.entryOfSpecifier?_of_isFrame hf hs]

end Walk
end StyleLowering
