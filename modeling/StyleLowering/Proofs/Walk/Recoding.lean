/-
# The last pass over a recoded program

The last pass does the same in a recoded program, and so does the flush at the end: where a css
prop is compiled in the one, it is compiled in the other, with a call of the same import; and
the same `withComponent` calls get their options or are reported (`Walk.follows_program`).
-/

import StyleLowering.Proofs.File.Recoding
import StyleLowering.Proofs.Rewrite.Renumbering
import StyleLowering.Proofs.Walk.Steps

namespace StyleLowering

open Stateful

variable {c : Recoding} {info : FileInfo}

/-! ### One node -/

namespace CssProp

variable {c : Renumbering}

/-- The literal of a css prop is renumbered with the attribute. -/
theorem literal?_renumber (k : Kind) (ps : List Node) :
    literal? k (ps.map (Node.renumber c)) = (literal? k ps).map (Node.renumber c) := by
  rw [literal?.eq_def k ps]
  split
  · next w hc hv k h parts =>
    have hpure := Scope.isPure_renumber (c := c) (.inner k h parts)
    rw [Node.renumber_inner] at hpure
    simp only [literal?, List.map_cons, List.map_nil, Node.renumber_leaf, Leaf.renumber_word,
      Node.renumber_inner, hpure]
    split <;> simp
  · unfold literal?
    split
    · simp_all [List.map_eq_cons_iff]
    · rfl

/-- The place of a tree is no context. -/
theorem placeOf_renumber (n : Node) : placeOf (n.renumber c) = placeOf n := by
  cases n <;> simp [placeOf]

/-- The call around the literal of a css prop is renumbered with the attribute. -/
theorem wrapParts_renumber (f : FileInfo) (name : Option String) (callee : Ident) (h : Head)
    (ps : List Node) :
    wrapParts f name (callee.renumber c) (h.renumber c) (ps.map (Node.renumber c)) =
      (wrapParts f name callee h ps).map (Node.renumber c) := by
  rw [wrapParts.eq_def f name callee h ps]
  split
  · next attr hc value =>
    have hcall : callAround f name (callee.renumber c) h.place (value.renumber c) =
        (callAround f name callee h.place value).renumber c := by
      have hcomment : (if f.sourceMaps then ((f.comment? h.place).map Build.textArgument).toList
          else []).map (Node.renumber c) =
            if f.sourceMaps then ((f.comment? h.place).map Build.textArgument).toList else [] := by
        split
        · cases f.comment? h.place <;> simp
        · rfl
      rw [callAround, callAround, ← Css.annotate_renumber, placeOf_renumber, Build.renumber_call,
        Build.renumber_reference, List.map_cons, Build.renumber_argument, hcomment]
    simp [wrapParts, hcall]
  · unfold wrapParts
    split
    · simp_all [List.map_eq_cons_iff]
    · rfl

end CssProp

/-- The callee of a css prop is wanted under other numbers as well, and injected alike. -/
theorem CssProp.follows_enter (k : Kind) (ps : List Node) :
    Follows (FileState.Recodes c info) (Option.map (Ident.renumber c)) (CssProp.enter k ps)
      (CssProp.enter k (ps.map (Node.renumber c))) := by
  intro s t hst
  rw [Walk.enter_apply, Walk.enter_apply, CssProp.literal?_renumber, Option.isSome_map,
    hst.info_eq, hst.info_eq']
  split
  · obtain ⟨hresult, hcss⟩ := FileState.follows_cssIdentifier hst
    obtain ⟨-, hstale⟩ := FileState.follows_invalidate hcss
    exact ⟨congrArg some hresult, hstale⟩
  · exact ⟨rfl, hst⟩

namespace WithComponent

/-- Which calls take options does not depend on the numbers. -/
theorem applies_renumber (callee : Node) (args : List Node) (c : Renumbering) :
    applies (callee.renumber c) (args.map (Node.renumber c)) = applies callee args := by
  have hcallee : isCallee (callee.renumber c) = isCallee callee := by
    rw [isCallee.eq_def callee]
    split
    · simp [isCallee]
    · unfold isCallee
      split
      · simp_all [List.map_eq_cons_iff]
      · rfl
  simp [applies, hcallee]

/-- A `withComponent` call gets the same options, or is the same error, over a recoded program. -/
theorem follows_normalize (name : Option String) (n : Node) :
    Follows (FileState.Recodes c info) (Except.map (Prod.map id (Node.renumber c)))
      (normalize name n) (normalize name (n.renumber c)) := by
  rw [normalize.eq_def name n]
  split
  · next h callee args =>
    have hspread : (args.map (Node.renumber c)).any Styled.isSpread = args.any Styled.isSpread := by
      simp [List.any_map, Function.comp_def]
    simp only [normalize, Node.renumber_inner, List.map_cons, List.map_nil, Node.renumber_run,
      applies_renumber, hspread, Styled.secondArgument_renumber]
    split
    · exact follows_pure (by simp [Except.map])
    split
    · exact follows_pure rfl
    have hoptions := fun f : FileInfo =>
      Styled.options_renumber (c := c) f (Styled.secondArgument args) name true
    have hcount : Follows (FileState.Recodes c info) (Option.map (Node.renumber c)) _ _ :=
      FileState.follows_count hoptions
    exact hcount.bind fun s => FileState.follows_invalidate.bind fun t =>
      follows_pure (by simp [Except.map, Styled.setSecond_renumber])
  · unfold normalize
    split
    · simp_all [List.map_eq_cons_iff]
    · exact follows_pure rfl

end WithComponent

namespace Walk

/-- Two files in the last pass, of which the second one is recoded. -/
structure Recodes (c : Recoding) (info : FileInfo) (v w : Walk) : Prop where
  file : v.file.Recodes c info w.file
  diagnostics : w.diagnostics = v.diagnostics

/-- What follows on the state of the file follows on the state of the pass. -/
theorem follows_onFile {α β : Type} {F : α → β} {f : FileM α} {g : FileM β}
    (h : Follows (FileState.Recodes c info) F f g) :
    Follows (Recodes c info) F (onFile f) (onFile g) := by
  intro v w hvw
  obtain ⟨hresult, hfile⟩ := h hvw.file
  exact ⟨hresult, hfile, hvw.diagnostics⟩

/-- Reports are made alike. -/
theorem follows_report (d : Diagnostic) : Follows (Recodes c info) id (report d) (report d) :=
  follows_modify fun _ _ h => ⟨h.file, by rw [h.diagnostics]⟩

/-- On the way out of a call there is an error to report, or none. -/
theorem leave_call (labels : LabelStack) (callee : Option Ident) (h : Head) (ps : List Node) :
    leave labels callee .call h ps = (do
      match ← onFile (WithComponent.normalize labels.current (.inner .call h ps)) with
      | .ok (_, n) => return n
      | .error e => do
        report ⟨e.message, h.place⟩
        return .inner .call h ps) :=
  rfl

/-- The way out of a node is the same over a recoded program. -/
theorem follows_leave (labels : LabelStack) (callee : Option Ident) (k : Kind) (h : Head)
    (ps : List Node) :
    Follows (Recodes c info) (Node.renumber c) (leave labels callee k h ps)
      (leave labels (callee.map (Ident.renumber c)) k (h.renumber c)
        (ps.map (Node.renumber c))) := by
  by_cases hk : k = .call
  · subst hk
    have hnormalize : Follows (FileState.Recodes c info) _ _ _ :=
      WithComponent.follows_normalize labels.current (.inner .call h ps)
    rw [Node.renumber_inner] at hnormalize
    rw [leave_call, leave_call]
    refine (follows_onFile hnormalize).bind fun s => ?_
    cases (onFile (WithComponent.normalize labels.current (.inner .call h ps)) s).1 with
    | ok r => exact follows_pure rfl
    | error e =>
      exact (follows_report _).bind fun t => follows_pure (Node.renumber_inner ..).symm
  by_cases hnone : k = .jsxAttribute → callee = none
  · rw [leave_plain labels hk hnone, leave_plain labels hk fun he => by rw [hnone he]; rfl]
    exact follows_pure (Node.renumber_inner ..).symm
  · obtain ⟨rfl, hsome⟩ := Classical.not_imp.1 hnone
    obtain ⟨x, rfl⟩ := Option.ne_none_iff_exists'.1 hsome
    intro v w hvw
    rw [Option.map_some, leave_cssProp, leave_cssProp, hvw.file.info_eq, hvw.file.info_eq',
      CssProp.wrapParts_renumber]
    exact ⟨(Node.renumber_inner ..).symm, hvw⟩

/-- Several trees are visited alike if each of them is. -/
theorem follows_nodes_of {ns : List Node}
    (h : ∀ n ∈ ns, ∀ labels, Follows (Recodes c info) (Node.renumber c) (node labels n)
      (node labels (n.renumber c))) (labels : LabelStack) :
    Follows (Recodes c info) (List.map (Node.renumber c)) (nodes labels ns)
      (nodes labels (ns.map (Node.renumber c))) := by
  induction ns with
  | nil =>
    rw [List.map_nil, nodes]
    exact follows_pure rfl
  | cons n ns ih =>
    rw [List.forall_mem_cons] at h
    rw [List.map_cons, nodes, nodes]
    exact (h.1 labels).bind fun s => (ih h.2).bind fun t => follows_pure rfl

/-- **One tree.** Visiting a recoded tree gives what visiting the tree gives, recoded. -/
theorem follows_node (labels : LabelStack) (n : Node) :
    Follows (Recodes c info) (Node.renumber c) (node labels n) (node labels (n.renumber c)) := by
  induction n generalizing labels with
  | leaf a =>
    rw [Node.renumber_leaf, node, node]
    exact follows_pure (Node.renumber_leaf a).symm
  | run ns ih =>
    rw [Node.renumber_run, node, node]
    exact (follows_nodes_of ih labels).map fun ns => (Node.renumber_run ns).symm
  | inner k h ps ih =>
    rw [Node.renumber_inner, node, node, LabelStack.enter_renumber]
    exact (follows_onFile (CssProp.follows_enter k ps)).bind fun s =>
      (follows_nodes_of ih _).bind fun t => follows_leave labels _ k h _

/-- An item of a module is visited alike over a recoded program. -/
theorem follows_item (i : Item) :
    Follows (Recodes c info) (Item.recode c) (item i) (item (i.recode c)) := by
  cases i with
  | importing d => exact (follows_node .empty d.attributes).bind fun s => follows_pure rfl
  | node n => exact (follows_node .empty n).map fun n => rfl

/-- The items of a module are visited alike over a recoded program. -/
theorem follows_items (is : List Item) :
    Follows (Recodes c info) (List.map (Item.recode c)) (items is)
      (items (is.map (Item.recode c))) := by
  induction is with
  | nil => exact follows_pure rfl
  | cons i is ih =>
    exact (follows_item i).bind fun s => ih.bind fun t => follows_pure rfl

/-- **The last pass over a recoded program.** -/
theorem follows_program (p : Program) :
    Follows (Recodes c info) (Program.recode c) (program p) (program (p.recode c)) := by
  cases p with
  | module m =>
    have hitems : Follows (Recodes c info) _ _ _ := follows_items m.body
    rw [← Module.body_recode] at hitems
    exact hitems.bind fun s => follows_pure (by simp [Program.recode, Module.recode_eq])
  | script t =>
    exact (follows_nodes_of (fun n _ labels => follows_node labels n) .empty).bind fun s =>
      follows_pure rfl

end Walk
end StyleLowering
