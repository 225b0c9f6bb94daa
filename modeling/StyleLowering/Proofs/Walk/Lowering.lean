/-
# What the last pass makes of a tree

The last pass changes a node at two places only: at a css prop that is compiled, and at a
`withComponent` call that takes options.  At any other node it keeps the kind and what the
node says about itself, and only the parts may change.  `Node.LowersTo` says so by recursion
on the tree, with one identifier for all css props: the pass makes of a tree one that it may
become (`Walk.lowersTo_program`).
-/

import StyleLowering.Proofs.CssProp
import StyleLowering.Proofs.Walk.Calls
import StyleLowering.Proofs.Walk.Invariant

namespace StyleLowering

/-- What a node of kind `k` with the parts `ps` may become, once its parts have become `qs`;
`css` is what compiled css props call, and `name` the name for labels at the node. -/
inductive Lowered (f : FileInfo) (css : Ident) (name : Option String) (h : Head) :
    (k : Kind) → (ps qs : List Node) → Node → Prop
  /-- The literal of a css prop is wrapped into a call. -/
  | cssProp {ps : List Node} {attr v : Node} {hc : Head} (hcompiles : f.compilesCssProp = true)
      (hprop : (Node.inner .jsxAttribute h ps).IsCssProp) (hv : ∀ s, v ≠ .text s) :
      Lowered f css name h .jsxAttribute ps [attr, .container hc v]
        (.jsxAttribute h attr (.container hc
          (.call (Head.ofSpanEmpty (CssProp.placeOf v)) (Build.reference css)
            (Build.argument v :: (CssProp.labelArguments f name ++
              CssProp.commentArguments f h.place (CssProp.placeOf v))))))
  /-- A call that takes options gets them. -/
  | withComponent {ps qs : List Node} {m : Node} {n : Nat}
      (htakes : (Node.inner .call h ps).takesOptions = true) (hm : GetsOptions f name n h qs m) :
      Lowered f css name h .call ps qs m
  /-- Any other node is what it was, around its parts. -/
  | plain {k : Kind} {ps qs : List Node}
      (hprop : f.compilesCssProp = true → ¬(Node.inner k h ps).IsCssProp)
      (htakes : (Node.inner k h ps).takesOptions = false) :
      Lowered f css name h k ps qs (.inner k h qs)

mutual

/-- Whether a tree may become another one in the last pass, where compiled css props call `css`
and the nearest declaration around the tree has the name `name`. -/
def Node.LowersTo (f : FileInfo) (css : Ident) (name : Option String) : Node → Node → Prop
  | .leaf a, m => m = .leaf a
  | .run ns, m => ∃ ms, m = .run ms ∧ Node.AllLowerTo f css name ns ms
  | .inner k h ps, m => ∃ qs,
    Node.AllLowerTo f css ((Node.inner k h ps).declaredName?.or name) ps qs ∧
      Lowered f css name h k ps qs m

/-- Whether several trees may become other ones, tree by tree. -/
def Node.AllLowerTo (f : FileInfo) (css : Ident) (name : Option String) :
    List Node → List Node → Prop
  | [], ms => ms = []
  | n :: ns, ms => ∃ m ms', ms = m :: ms' ∧ n.LowersTo f css name m ∧
    Node.AllLowerTo f css name ns ms'

end

namespace Node

variable {f : FileInfo} {css : Ident} {name : Option String}

/-- Several trees are lowered one by one. -/
theorem allLowerTo_iff {ns ms : List Node} :
    AllLowerTo f css name ns ms ↔ List.Forall₂ (LowersTo f css name) ns ms := by
  induction ns generalizing ms with
  | nil => rw [AllLowerTo, List.forall₂_nil_left_iff]
  | cons n ns ih =>
    rw [AllLowerTo]
    constructor
    · rintro ⟨m, ms', rfl, hm, hms⟩
      exact .cons hm (ih.1 hms)
    · rintro (_ | ⟨hm, hms⟩)
      exact ⟨_, _, rfl, hm, ih.2 hms⟩

/-- A leaf stays as it is. -/
theorem lowersTo_leaf {a : Leaf} {m : Node} :
    (Node.leaf a).LowersTo f css name m ↔ m = .leaf a := by
  rw [LowersTo]

/-- The items of a run are lowered. -/
theorem lowersTo_run {ns : List Node} {m : Node} :
    (Node.run ns).LowersTo f css name m ↔
      ∃ ms, m = .run ms ∧ List.Forall₂ (LowersTo f css name) ns ms := by
  simp only [LowersTo, allLowerTo_iff]

/-- A node is lowered once its parts are, under the name that it declares, if it declares one. -/
theorem lowersTo_inner {k : Kind} {h : Head} {ps : List Node} {m : Node} :
    (Node.inner k h ps).LowersTo f css name m ↔
      ∃ qs, List.Forall₂ (LowersTo f css ((Node.inner k h ps).declaredName?.or name)) ps qs ∧
        Lowered f css name h k ps qs m := by
  simp only [LowersTo, allLowerTo_iff]

/-- A tree in which the last pass has nothing to do becomes nothing but itself. -/
theorem eq_of_lowersTo {n m : Node} (hn : n.isIdle f = true) (h : n.LowersTo f css name m) :
    m = n := by
  have hall : ∀ {name : Option String} {ns ms : List Node},
      (∀ n ∈ ns, ∀ name m, n.LowersTo f css name m → m = n) →
        List.Forall₂ (LowersTo f css name) ns ms → ms = ns := by
    intro name ns ms hns hms
    induction hms with
    | nil => rfl
    | cons hm _ ih =>
      rw [List.forall_mem_cons] at hns
      rw [hns.1 _ _ hm, ih hns.2]
  induction n generalizing name m with
  | leaf a => exact lowersTo_leaf.1 h
  | run ns ih =>
    rw [isIdle_run] at hn
    obtain ⟨ms, rfl, hms⟩ := lowersTo_run.1 h
    rw [hall (fun n hmem name m => ih n hmem (hn n hmem)) hms]
  | inner k hd ps ih =>
    rw [isIdle_inner] at hn
    obtain ⟨qs, hqs, hlowered⟩ := lowersTo_inner.1 h
    obtain rfl := hall (fun n hmem name m => ih n hmem (hn.2 n hmem)) hqs
    have hidle := hn.1
    rw [Kind.isIdle, ← takesOptions_or_refusesOptions k hd, Bool.and_eq_true, Bool.not_eq_true',
      Bool.not_eq_true', Bool.and_eq_false_iff, Bool.or_eq_false_iff] at hidle
    cases hlowered with
    | cssProp hcompiles hprop =>
      have hlit := isCssProp_iff.1 hprop
      simp_all
    | withComponent htakes => simp_all
    | plain => rfl

end Node

/-- What an item may become. -/
inductive Item.LowersTo (f : FileInfo) (css : Ident) : Item → Item → Prop
  /-- An import declaration keeps all but its attributes. -/
  | importing {d : ImportDecl} {attributes : Node}
      (h : d.attributes.LowersTo f css none attributes) :
      LowersTo f css (.importing d) (.importing { d with attributes })
  | node {n m : Node} (h : n.LowersTo f css none m) : LowersTo f css (.node n) (.node m)

/-- What a program may become. -/
inductive Program.LowersTo (f : FileInfo) (css : Ident) : Program → Program → Prop
  | module {m : Module} {body : List Item} (h : List.Forall₂ (Item.LowersTo f css) m.body body) :
      LowersTo f css (.module m) (.module { m with body })
  | script {t : Script} {body : List Node}
      (h : List.Forall₂ (Node.LowersTo f css none) t.body body) :
      LowersTo f css (.script t) (.script { t with body })

namespace Walk

open Stateful

/-! ### What the pass preserves -/

/-- Normalising a node touches nothing but the counter and the index. -/
theorem snd_normalize (name : Option String) (n : Node) (s : FileState) :
    (WithComponent.normalize name n s).2 = { s with
      targets := (WithComponent.normalize name n s).2.targets,
      scope := (WithComponent.normalize name n s).2.scope } := by
  refine normalize_cases name n s (P := fun p => p.2 =
    { s with targets := p.2.targets, scope := p.2.scope }) rfl ?_ ?_
  · exact fun _ _ _ _ _ => rfl
  · exact fun _ _ _ _ _ => rfl

/-- The facts of the file stay as they are. -/
theorem preserves_info (f : FileInfo) : Preserves fun s => s.info = f where
  enter k parts s hs := (enter_state k parts s).1.trans hs
  normalize name n s hs := by
    rw [snd_normalize]
    exact hs

/-- The identifier that compiled css props call stays once there is one. -/
theorem preserves_cssBinding (x : Ident) : Preserves fun s => s.cssBinding = some x where
  enter k parts s hs := by
    have hcss : (FileState.cssIdentifier s).2.cssBinding = some x :=
      cssIdentifier_cases s (P := fun p => p.2.cssBinding = some x) (fun _ _ => hs)
        fun hnone => by rw [hnone] at hs; cases hs
    rw [enter_apply]
    split
    · exact hcss
    · exact hs
  normalize name n s hs := by
    rw [snd_normalize]
    exact hs

/-- There is something to call in a css prop that is to be compiled. -/
theorem exists_enter {k : Kind} {h : Head} {ps : List Node} {s : FileState}
    (hcompiles : s.info.compilesCssProp = true) (hprop : (Node.inner k h ps).IsCssProp) :
    ∃ x, (CssProp.enter k ps s).1 = some x := by
  rw [enter_apply, hcompiles, Node.isCssProp_iff.1 hprop]
  exact ⟨_, rfl⟩

/-- What is called in a css prop is the identifier in the state. -/
theorem cssBinding_of_enter {k : Kind} {parts : List Node} {s : FileState} {x : Ident}
    (h : (CssProp.enter k parts s).1 = some x) :
    (CssProp.enter k parts s).2.cssBinding = some x := by
  have hcss : (FileState.cssIdentifier s).2.cssBinding = some (FileState.cssIdentifier s).1 :=
    cssIdentifier_cases s (P := fun p => p.2.cssBinding = some p.1) (fun _ hs => hs) fun _ => rfl
  rw [enter_apply] at h ⊢
  split at h
  · next hc =>
    rw [if_pos hc]
    exact hcss.trans h
  · cases h

/-- What every step preserves is preserved by going through several trees. -/
theorem all_preserve {P : FileState → Prop} (hP : Preserves P) (labels : LabelStack)
    (ns : List Node) (w : Walk) (hw : P w.file) : P (nodes labels ns w).2.file :=
  nodes_preserves (fun n _ => node_preserves hP n) labels w hw

/-- What every step preserves is preserved by going through an item. -/
theorem item_preserves {P : FileState → Prop} (hP : Preserves P) (i : Item) (w : Walk)
    (hw : P w.file) : P (item i w).2.file := by
  cases i with
  | importing d => exact node_preserves hP d.attributes LabelStack.empty w hw
  | node n => exact node_preserves hP n LabelStack.empty w hw

/-- What every step preserves is preserved by going through the items of a module. -/
theorem items_preserve {P : FileState → Prop} (hP : Preserves P) (is : List Item) (w : Walk)
    (hw : P w.file) : P (items is w).2.file := by
  induction is generalizing w with
  | nil => exact hw
  | cons i is ih => exact ih _ (item_preserves hP i w hw)

/-- If compiled css props have called anything, it was `css`. -/
def Calls (css : Ident) (w : Walk) : Prop := ∀ x, w.file.cssBinding = some x → x = css

/-- What is called after several trees is what was called before them. -/
theorem Calls.of_nodes {css : Ident} {labels : LabelStack} {ns : List Node} {w : Walk}
    (h : Calls css (nodes labels ns w).2) : Calls css w := fun x hx =>
  h x (all_preserve (preserves_cssBinding x) labels ns w hx)

/-! ### What becomes of a tree -/

variable {f : FileInfo} {css : Ident}

/-- Several trees are lowered if each of them is. -/
theorem lowersTo_nodes {ns : List Node}
    (h : ∀ n ∈ ns, ∀ labels w, w.file.info = f → Calls css (node labels n w).2 →
      n.LowersTo f css labels.current (node labels n w).1)
    (labels : LabelStack) {w : Walk} (hf : w.file.info = f)
    (hcalls : Calls css (nodes labels ns w).2) :
    List.Forall₂ (Node.LowersTo f css labels.current) ns (nodes labels ns w).1 := by
  induction ns generalizing w with
  | nil =>
    rw [nodes_nil]
    exact .nil
  | cons n ns ih =>
    rw [List.forall_mem_cons] at h
    rw [nodes_cons] at hcalls ⊢
    have hf' := node_preserves (preserves_info f) n labels w hf
    exact .cons (h.1 labels w hf hcalls.of_nodes) (ih h.2 hf' hcalls)

/-- The function to call does not change on the way back. -/
theorem cssBinding_leave (labels : LabelStack) (callee : Option Ident) (k : Kind) (h : Head)
    (ps : List Node) (w : Walk) :
    (leave labels callee k h ps w).2.file.cssBinding = w.file.cssBinding := by
  rcases file_leave labels callee k h ps w with he | he
  · rw [he]
  · rw [he, snd_normalize]

/-- A css prop still has braces around no text when its parts have been visited. -/
theorem exists_nodes_cssProp {k : Kind} {h : Head} {ps : List Node}
    (hprop : (Node.inner k h ps).IsCssProp) (labels : LabelStack) (w : Walk) :
    k = .jsxAttribute ∧ ∃ attr hc v, (nodes labels ps w).1 = [attr, .container hc v] ∧
      ∀ s, v ≠ .text s := by
  cases hprop with
  | @intro _ hc hl word k' ps' =>
    refine ⟨rfl, .word word, hc, ?_⟩
    rw [nodes_cons, nodes_cons, nodes_nil, node_leaf, node_inner_of_ne labels (by decide)
      (by decide), nodes_cons, nodes_nil]
    obtain ⟨qs, he⟩ := exists_node_inner (labels.enter .container [.inner k' hl ps']) k' hl ps' w
    rw [he]
    exact ⟨_, rfl, nofun⟩

/-- A css prop to compile: the identifier that is called is there from now on. -/
theorem lowered_cssProp {h : Head} {ps : List Node} {labels : LabelStack} {w : Walk}
    {x : Ident} (hf : w.file.info = f) (hcompiles : f.compilesCssProp = true)
    (hprop : (Node.inner .jsxAttribute h ps).IsCssProp) :
    Lowered f x labels.current h .jsxAttribute ps (nodes labels ps w).1
      (leave labels (some x) .jsxAttribute h (nodes labels ps w).1 (nodes labels ps w).2).1 := by
  obtain ⟨-, attr, hc, v, hvisited, hv⟩ := exists_nodes_cssProp hprop labels w
  rw [leave_cssProp, all_preserve (preserves_info f) labels ps w hf, hvisited,
    CssProp.wrapParts, CssProp.callAround_eq _ _ _ _ hv]
  exact .cssProp hcompiles hprop hv

/-- Any other node. -/
theorem lowered_of_not {k : Kind} {h : Head} {ps : List Node} {labels : LabelStack}
    {w : Walk} (hf : w.file.info = f)
    (hprop : f.compilesCssProp = true → ¬(Node.inner k h ps).IsCssProp)
    (henter : CssProp.enter k ps w.file = (none, w.file)) :
    Lowered f css labels.current h k ps (nodes (labels.enter k ps) ps w).1
      (node labels (.inner k h ps) w).1 := by
  by_cases hk : k = .call
  · subst hk
    have hnormal := normalizes_node labels w h ps
    cases ht : (Node.inner .call h ps).takesOptions with
    | true =>
      have hgets := (hnormal.taken ht).1
      rw [all_preserve (preserves_info f) labels ps w hf] at hgets
      exact .withComponent ht hgets
    | false =>
      have hsame := mt hnormal.changes_iff.1 (by rw [ht]; exact Bool.false_ne_true)
      rw [not_not.1 hsame]
      exact .plain hprop ht
  · rw [node_inner_of_enter labels henter, leave_of_ne _ _ hk]
    refine .plain hprop ?_
    rw [Node.takesOptions, Node.withComponentArgs?_of_ne hk]
    rfl

/-- **The last pass makes of a tree one that it may become.** -/
theorem lowersTo_node (n : Node) (labels : LabelStack) (w : Walk) (hf : w.file.info = f)
    (hcalls : Calls css (node labels n w).2) :
    n.LowersTo f css labels.current (node labels n w).1 := by
  induction n generalizing labels w with
  | leaf a => rw [node_leaf, Node.lowersTo_leaf]
  | run ns ih =>
    rw [node_run] at hcalls ⊢
    rw [Node.lowersTo_run]
    exact ⟨_, rfl, lowersTo_nodes ih labels hf hcalls⟩
  | inner k h ps ih =>
    have hparts := fun (w : Walk) (hf : w.file.info = f) =>
      lowersTo_nodes ih (labels.enter k ps) hf
    rw [Node.lowersTo_inner, ← labels.current_enter]
    -- A css prop is wrapped, a call may get options, and anything else keeps its lowered parts.
    by_cases hprop : f.compilesCssProp = true ∧ (Node.inner k h ps).IsCssProp
    · obtain ⟨hcompiles, hprop⟩ := hprop
      obtain ⟨rfl, -⟩ := exists_nodes_cssProp hprop labels w
      obtain ⟨x, hx⟩ := exists_enter (s := w.file) (by rw [hf]; exact hcompiles) hprop
      have hbinding := cssBinding_of_enter hx
      have hinfo := (enter_state .jsxAttribute ps w.file).1.trans hf
      have henter : labels.enter .jsxAttribute ps = labels := rfl
      rw [node_inner, hx, henter] at hcalls ⊢
      generalize (CssProp.enter .jsxAttribute ps w.file).2 = s at hbinding hinfo hcalls ⊢
      have hpreserved := all_preserve (preserves_cssBinding x) labels ps { w with file := s }
        hbinding
      have hvisited : Calls css (nodes labels ps { w with file := s }).2 := fun y hy =>
        hcalls y (by rw [cssBinding_leave]; exact hy)
      obtain rfl := hvisited x hpreserved
      exact ⟨_, hparts _ hinfo hvisited, lowered_cssProp hinfo hcompiles hprop⟩
    · have henter : CssProp.enter k ps w.file = (none, w.file) := by
        rw [enter_apply, hf, if_neg]
        rwa [Bool.and_eq_true, ← Node.isCssProp_iff]
      refine ⟨_, hparts w hf fun x hx => hcalls x ?_,
        lowered_of_not hf (fun hc hp => hprop ⟨hc, hp⟩) henter⟩
      rw [node_inner_of_enter labels henter, cssBinding_leave]
      exact hx

/-- **The items of a module are lowered.** -/
theorem lowersTo_items {is : List Item} {w : Walk} (hf : w.file.info = f)
    (hcalls : Calls css (items is w).2) :
    List.Forall₂ (Item.LowersTo f css) is (items is w).1 := by
  induction is generalizing w with
  | nil => exact .nil
  | cons i is ih =>
    have hcalls' : Calls css (items is (item i w).2).2 := hcalls
    have hi : Calls css (item i w).2 := fun x hx =>
      hcalls' x (items_preserve (preserves_cssBinding x) is _ hx)
    refine .cons ?_ (ih (item_preserves (preserves_info f) i w hf) hcalls')
    cases i with
    | importing d => exact .importing (lowersTo_node d.attributes LabelStack.empty w hf hi)
    | node n => exact .node (lowersTo_node n LabelStack.empty w hf hi)

/-- **The last pass makes of a program one that it may become.** -/
theorem lowersTo_program (p : Program) (w : Walk) (hf : w.file.info = f)
    (hcalls : Calls css (program p w).2) : p.LowersTo f css (program p w).1 := by
  cases p with
  | script t =>
    exact .script (lowersTo_nodes (fun n _ => lowersTo_node n) LabelStack.empty hf hcalls)
  | module m => exact .module (lowersTo_items hf hcalls)

/-! ### The identifier that is called -/

/-- A css prop in several trees has an import to call if it has one in each of them. -/
theorem exists_cssBinding_nodes {ns above : List Node} {s : Site}
    (h : ∀ n ∈ ns, ∀ above, s ∈ n.sites above → ∀ labels w, w.file.info.compilesCssProp = true →
      ∃ x, (node labels n w).2.file.cssBinding = some x)
    (hs : s ∈ Node.sitesAll above ns) (labels : LabelStack) (w : Walk)
    (hcompiles : w.file.info.compilesCssProp = true) :
    ∃ x, (nodes labels ns w).2.file.cssBinding = some x := by
  induction ns generalizing w with
  | nil => simp at hs
  | cons n ns ih =>
    rw [List.forall_mem_cons] at h
    rw [Node.sitesAll_cons, List.mem_append] at hs
    rw [nodes_cons]
    rcases hs with hs | hs
    · obtain ⟨x, hx⟩ := h.1 above hs labels w hcompiles
      exact ⟨x, all_preserve (preserves_cssBinding x) labels ns _ hx⟩
    · refine ih h.2 hs _ ?_
      rw [node_preserves (preserves_info w.file.info) n labels w rfl]
      exact hcompiles

/-- A css prop that is compiled leaves an identifier to call behind. -/
theorem exists_cssBinding_node {n : Node} {above : List Node} {s : Site} (hs : s ∈ n.sites above)
    (hprop : s.node.IsCssProp) (labels : LabelStack) (w : Walk)
    (hcompiles : w.file.info.compilesCssProp = true) :
    ∃ x, (node labels n w).2.file.cssBinding = some x := by
  induction n generalizing above labels w with
  | leaf a => simp at hs
  | run ns ih =>
    rw [Node.sites_run] at hs
    rw [node_run]
    exact exists_cssBinding_nodes (fun n hn above hs => ih n hn hs) hs labels w hcompiles
  | inner k h ps ih =>
    rw [Node.sites_inner] at hs
    rcases List.mem_cons.1 hs with rfl | hs
    · obtain ⟨x, hx⟩ := exists_enter hcompiles hprop
      exact ⟨x, inner_preserves (preserves_cssBinding x) k h
        (fun n _ => node_preserves (preserves_cssBinding x) n) labels w (cssBinding_of_enter hx)⟩
    · rw [node_inner, cssBinding_leave]
      refine exists_cssBinding_nodes (fun n hn above hs => ih n hn hs) hs _ _ ?_
      rw [(enter_state k ps w.file).1]
      exact hcompiles

/-- A program with a css prop that is compiled leaves an identifier to call behind. -/
theorem exists_cssBinding_program {p : Program} {s : Site} (hs : s ∈ p.sites sitesOf)
    (hprop : s.node.IsCssProp) (w : Walk) (hcompiles : w.file.info.compilesCssProp = true) :
    ∃ x, (program p w).2.file.cssBinding = some x := by
  cases p with
  | script t =>
    exact exists_cssBinding_nodes (fun n _ above hs => exists_cssBinding_node hs hprop) hs
      LabelStack.empty w hcompiles
  | module m =>
    have hitems : ∀ (is : List Item) (w : Walk), w.file.info.compilesCssProp = true →
        s ∈ is.flatMap sitesOf → ∃ x, (items is w).2.file.cssBinding = some x := by
      intro is
      induction is with
      | nil => simp
      | cons i is ih =>
        intro w hcompiles hs
        rw [List.flatMap_cons, List.mem_append] at hs
        rcases hs with hs | hs
        · have hi : ∃ x, (item i w).2.file.cssBinding = some x := by
            cases i with
            | importing d => exact exists_cssBinding_node hs hprop LabelStack.empty w hcompiles
            | node n => exact exists_cssBinding_node hs hprop LabelStack.empty w hcompiles
          obtain ⟨x, hx⟩ := hi
          exact ⟨x, items_preserve (preserves_cssBinding x) is _ hx⟩
        · have hinfo := item_preserves (preserves_info w.file.info) i w rfl
          exact ih (item i w).2 (by rw [hinfo]; exact hcompiles) hs
    exact hitems m.body w hcompiles hs

end Walk
end StyleLowering
