/-
# The last pass over a whole program

Every node of a well-shaped tree passes on its identifiers (`Walk.passes_node`),
by induction on the tree: the parts do, a call with options gets at most the
global `Object`, and a compiled css prop gets the import that it calls.
-/

import StyleLowering.Proofs.Walk.Steps

namespace StyleLowering
namespace Walk

open Stateful Css

variable {fit : Bool} {s : FileState}

/-- Arguments stay arguments. -/
theorem isArgument_node (labels : LabelStack) {n : Node} (h : n.isArgument = true) (w : Walk) :
    (node labels n w).1.isArgument = true := by
  obtain ⟨k, hd, e, hk, rfl⟩ := Node.isArgument_iff.1 h
  have hne : k ≠ .jsxAttribute ∧ k ≠ .call := by rcases hk with rfl | rfl <;> decide
  rw [node_inner, enter_of_ne hne.1, leave_of_ne _ _ hne.2, nodes_cons, nodes_nil]
  rcases hk with rfl | rfl <;> rfl

/-- Braces stay around their expression. -/
theorem node_container (labels : LabelStack) (h : Head) (v : Node) (w : Walk) :
    ∃ v', (node labels (.container h v) w).1 = .container h v' := by
  rw [node_inner, enter_of_ne (by decide), leave_of_ne _ _ (by decide), nodes_cons, nodes_nil]
  exact ⟨_, rfl⟩

/-- Each tree that comes out comes of one of the trees. -/
theorem mem_nodes (labels : LabelStack) {ns : List Node} {m : Node} {w : Walk}
    (h : m ∈ (nodes labels ns w).1) : ∃ n ∈ ns, ∃ w', m = (node labels n w').1 := by
  induction ns generalizing w with
  | nil => rw [nodes_nil] at h; exact absurd h List.not_mem_nil
  | cons n ns ih =>
    rw [nodes_cons] at h
    rcases List.mem_cons.1 h with rfl | h
    · exact ⟨n, List.mem_cons_self .., w, rfl⟩
    · obtain ⟨n', hn, w', rfl⟩ := ih h
      exact ⟨n', List.mem_cons_of_mem _ hn, w', rfl⟩

/-- Several trees pass on their identifiers if each of them does. -/
theorem passes_nodes (labels : LabelStack) {ns : List Node}
    (h : ∀ n ∈ ns, ∀ w : Walk, w.file.InOrder →
      Passes n.mentions w.file (node labels n w).1.mentions (node labels n w).2.file)
    {w : Walk} (hw : w.file.InOrder) :
    Passes (Node.mentionsAll ns) w.file (Node.mentionsAll (nodes labels ns w).1)
      (nodes labels ns w).2.file := by
  induction ns generalizing w with
  | nil =>
    rw [nodes_nil]
    exact .refl hw _
  | cons n ns ih =>
    rw [List.forall_mem_cons] at h
    rw [nodes_cons, Node.mentionsAll_cons, Node.mentionsAll_cons]
    have hn := h.1 w hw
    exact hn.append (ih h.2 hn.inOrder)

/-- What normalising a call does, case by case. -/
theorem normalize_apply (name : Option String) (h : Head) (callee : Node) (args : List Node)
    (s : FileState) :
    WithComponent.normalize name (.call h callee args) s =
      if !WithComponent.applies callee args then (.ok (false, .call h callee args), s)
      else if args.any Styled.isSpread then (.error .withComponentSpread, s)
      else
        let g := Styled.generated s.info name true s.targets
        (.ok (true, .call h callee
            (Styled.setSecond args
              (Styled.merge Styled.objectAssign (Styled.secondArgument args) g.1))),
          { s with targets := g.2, scope := s.scope.invalidate }) := by
  rw [WithComponent.normalize]
  split
  · rfl
  · split <;> rfl

/-- A call whose parts have been visited keeps their identifiers, and `Object` comes in
where options have to be merged. -/
theorem passes_leave_call (labels : LabelStack) (h : Head) (callee : Node) {args : List Node}
    (ha : ∀ a ∈ args, a.isArgument = true) {w : Walk} (hw : w.file.InOrder) :
    Passes (Node.call h callee args).mentions w.file
      (leave labels none .call h [callee, .run args] w).1.mentions
      (leave labels none .call h [callee, .run args] w).2.file := by
  simp only [leave, bind_apply, onFile_apply, normalize_apply]
  split
  · exact .refl hw _
  split
  · exact .refl hw _
  next happ _ =>
    have hg := Styled.areTexts_generated w.file.info labels.current true w.file.targets
    cases args with
    | nil => simp [WithComponent.applies] at happ
    | cons first rest =>
      rw [List.forall_mem_cons] at ha
      have t : Trace (· = ·) (Adds w.file.imports) true
          (Node.call h callee (first :: rest)).mentions
          (Node.call h callee (Styled.setSecond (first :: rest) (Styled.merge Styled.objectAssign
            (Styled.secondArgument (first :: rest))
            (Styled.generated w.file.info labels.current true w.file.targets).1))).mentions := by
        simp only [Node.mentions_inner, Node.mentionsAll_cons, Node.mentionsAll_nil,
          Node.mentions_run, List.append_nil, Styled.mentionsAll_setSecond hg ha.2]
        refine .append (.refl fun _ _ => rfl) (.append (.refl fun _ _ => rfl)
          (.new_append (fun b hb => ?_) (.refl fun _ _ => rfl)))
        split at hb
        · rw [Styled.mentions_objectAssign, List.mem_singleton] at hb
          rw [hb]
          exact .object
        · exact absurd hb List.not_mem_nil
      exact .of_eq hw rfl rfl rfl t

/-- A css prop gets the import that it calls, in front of its literal. -/
theorem mentions_wrapParts (f : FileInfo) (name : Option String) (callee : Ident) (h : Head)
    (word : Word) (hc : Head) (v : Node) :
    Node.mentionsAll (CssProp.wrapParts f name callee h [.word word, .container hc v]) =
      ⟨.reference, callee⟩ :: v.mentions := by
  have hcomment : Node.mentionsAll (if f.sourceMaps then
      ((f.comment? h.place).map Build.textArgument).toList else []) = [] := by
    split
    · cases f.comment? h.place <;> simp
    · rfl
  simp only [CssProp.wrapParts, CssProp.callAround, Node.mentionsAll_cons, Node.mentions_leaf,
    Node.mentions_inner, mentions_annotate]
  simp [Build.call, Build.reference, Leaf.mentions, hcomment]

/-- **A tree passes on its identifiers.** -/
theorem passes_node {n : Node} (hn : n.wellShaped fit = true) (labels : LabelStack) (w : Walk)
    (hw : w.file.InOrder) :
    Passes n.mentions w.file (node labels n w).1.mentions (node labels n w).2.file := by
  induction n generalizing labels w with
  | leaf a =>
    rw [node_leaf]
    exact .refl hw _
  | run ns ih =>
    rw [Node.wellShaped_run] at hn
    rw [node_run, Node.mentions_run, Node.mentions_run]
    exact passes_nodes labels (fun n h w hw => ih n h (hn n h) labels w hw) hw
  | inner k h parts ih =>
    rw [Node.wellShaped_inner] at hn
    have hparts := fun labels (w : Walk) (hw : w.file.InOrder) => passes_nodes labels
      (fun n h w hw => ih n h (hn.2 n h) labels w hw) hw
    rw [node_inner, Node.mentions_inner]
    -- Either nothing is wanted on the way in, and only a call may change on the way back; or the
    -- import is wanted, and stands in front of the literal afterwards.
    rcases enter_spec hw k parts with he | ⟨i, hcallee, hlit, hwants⟩
    · have hp := hparts (labels.enter k parts) w hw
      rw [he]
      by_cases hk : k = .call
      · subst hk
        obtain ⟨callee, args, rfl, ha⟩ := Kind.allows_call.1 hn.1
        rw [nodes_cons, nodes_cons, nodes_nil, node_run] at hp ⊢
        refine hp.trans (passes_leave_call labels h _ (fun a hm => ?_) hp.inOrder)
        obtain ⟨a', ha', w', rfl⟩ := mem_nodes _ hm
        exact isArgument_node _ (ha a' ha') w'
      · rw [leave_of_ne _ _ hk, Node.mentions_inner]
        exact hp
    · obtain ⟨rfl, word, hc, v, rfl⟩ := literal?_isSome hlit
      have hp := hparts (labels.enter .jsxAttribute [.word word, .container hc v])
        { w with file := (CssProp.enter .jsxAttribute [.word word, .container hc v] w.file).2 }
        hwants.inOrder
      rw [nodes_cons, nodes_cons, nodes_nil, node_leaf] at hp ⊢
      obtain ⟨v', hv⟩ := node_container
        (labels.enter .jsxAttribute [.word word, .container hc v]) hc v
        { w with file := (CssProp.enter .jsxAttribute [.word word, .container hc v] w.file).2 }
      rw [hcallee, leave_cssProp, Node.mentions_inner]
      dsimp only at hp ⊢
      rw [hv] at hp ⊢
      rw [mentions_wrapParts]
      have hm : Node.mentionsAll [.word word, .container hc v'] = v'.mentions := by
        simp [Leaf.mentions]
      rw [hm] at hp
      exact hp.wants hwants

/-- An import declaration keeps all but its attributes, which may hold a css prop. -/
structure KeepsImport (j : Injector) (d d' : ImportDecl) : Prop where
  eq : d' = { d with attributes := d'.attributes }
  trace : Trace (· = ·) (Adds j) true d.mentions d'.mentions

/-- What becomes of an item. -/
inductive ItemPasses (j : Injector) : Item → Item → Prop where
  | importing {d d' : ImportDecl} (h : KeepsImport j d d') :
      ItemPasses j (.importing d) (.importing d')
  | node {n n' : Node} (t : Trace (· = ·) (Adds j) true n.mentions n'.mentions) :
      ItemPasses j (.node n) (.node n')

/-- An item that passes still does when more has been injected. -/
theorem ItemPasses.grow {j j' : Injector} (h : j.injected ⊆ j'.injected) {i i' : Item}
    (hi : ItemPasses j i i') : ItemPasses j' i i' := by
  cases hi with
  | importing hd =>
    exact .importing ⟨hd.eq, hd.trace.mono (fun _ _ _ _ h => h) fun _ _ => Adds.grow h⟩
  | node t => exact .node (t.mono (fun _ _ _ _ h => h) fun _ _ => Adds.grow h)

/-- An item is passed on, and what becomes of it is known. -/
theorem passes_item {i : Item} (hi : i.wellShaped fit = true) (w : Walk) (hw : w.file.InOrder) :
    Passes i.mentions w.file (item i w).1.mentions (item i w).2.file ∧
      ItemPasses (item i w).2.file.imports i (item i w).1 := by
  cases i with
  | importing d =>
    have hp := (Passes.refl hw (d.specifiers.map fun s => ⟨.binding, s.binding⟩)).append
      (passes_node hi LabelStack.empty w hw)
    exact ⟨hp, .importing ⟨rfl, hp.trace⟩⟩
  | node n =>
    have hp := passes_node hi LabelStack.empty w hw
    exact ⟨hp, .node hp.trace⟩

/-- **The items of a module are passed on**, each in its place. -/
theorem passes_items {is : List Item} (his : ∀ i ∈ is, i.wellShaped fit = true) (w : Walk)
    (hw : w.file.InOrder) :
    Passes (is.flatMap Item.mentions) w.file ((items is w).1.flatMap Item.mentions)
        (items is w).2.file ∧
      List.Forall₂ (ItemPasses (items is w).2.file.imports) is (items is w).1 := by
  induction is generalizing w with
  | nil => exact ⟨.refl hw _, .nil⟩
  | cons i is ih =>
    rw [List.forall_mem_cons] at his
    obtain ⟨hp, hi⟩ := passes_item his.1 w hw
    obtain ⟨hps, his⟩ := ih his.2 (item i w).2 hp.inOrder
    have heq : items (i :: is) w = ((item i w).1 :: (items is (item i w).2).1,
        (items is (item i w).2).2) := by
      simp only [items, bind_apply, pure_apply]
    rw [heq, List.flatMap_cons, List.flatMap_cons]
    exact ⟨hp.append hps, .cons (hi.grow hps.grows.subset) his⟩

/-- What is outside of imports is passed on too. -/
theorem trace_outside {j : Injector} {is js : List Item}
    (h : List.Forall₂ (ItemPasses j) is js) :
    Trace (· = ·) (Adds j) true (is.flatMap Item.outside) (js.flatMap Item.outside) := by
  refine Trace.flatMap (h.imp fun i i' hi => ?_)
  cases hi with
  | importing => exact .nil
  | node t => exact t

/-- The imports are kept one by one. -/
theorem forall₂_imports {j : Injector} {is js : List Item}
    (h : List.Forall₂ (ItemPasses j) is js) :
    List.Forall₂ (KeepsImport j) (is.filterMap Item.import?) (js.filterMap Item.import?) := by
  induction h with
  | nil => exact .nil
  | cons h _ ih =>
    cases h with
    | importing hd => exact .cons hd ih
    | node => exact ih

/-- What the last pass does to a program. -/
structure ProgramPasses (p : Program) (s : FileState) (p' : Program) (s' : FileState) : Prop where
  passes : Passes p.mentions s p'.mentions s'
  outside : Trace (· = ·) (Adds s'.imports) true p.outside p'.outside
  imports : List.Forall₂ (KeepsImport s'.imports) p.imports p'.imports

/-- **The last pass over a program.** -/
theorem passes_program {p : Program} (hp : p.wellShaped fit = true) (w : Walk)
    (hw : w.file.InOrder) :
    ProgramPasses p w.file (program p w).1 (program p w).2.file := by
  cases p with
  | module m =>
    obtain ⟨hps, his⟩ := passes_items (List.all_eq_true.1 hp) w hw
    exact ⟨hps, trace_outside his, forall₂_imports his⟩
  | script t =>
    have hps := passes_nodes LabelStack.empty
      (fun n hn w hw => passes_node (List.all_eq_true.1 hp n hn) LabelStack.empty w hw) hw
    exact ⟨hps, hps.trace, .nil⟩

end Walk
end StyleLowering
