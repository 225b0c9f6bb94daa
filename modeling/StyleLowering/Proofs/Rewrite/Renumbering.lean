/-
# The rewriting pass under other numbers

To rewrite a tree under other numbers is to rewrite it and then to give the contexts other
numbers (`Rewriter.node_renumber`): the pass compares bindings and asks nothing else about
their contexts.  Each function that it is made of commutes with a renumbering.
-/

import StyleLowering.Proofs.Rewrite.Cases
import StyleLowering.Proofs.Styled
import StyleLowering.Proofs.Syntax.Renumbering

namespace StyleLowering

variable {c : Renumbering}

/-! ### Style calls -/

namespace Css

/-- The minified text of a template has no contexts. -/
theorem textArguments_renumber (isFirst isLast : Bool) (q : Node) :
    textArguments isFirst isLast (q.renumber c) =
      (textArguments isFirst isLast q).map (Node.renumber c) := by
  rw [textArguments.eq_def isFirst isLast q]
  split
  · simp only [Node.renumber_leaf, Leaf.renumber_quasi, textArguments]
    split <;> simp
  · unfold textArguments
    split
    · simp_all
    · rfl

/-- The arguments made of a template are renumbered with its expressions. -/
theorem templateArguments_renumber (isFirst : Bool) (qs es : List Node) :
    templateArguments isFirst (qs.map (Node.renumber c)) (es.map (Node.renumber c)) =
      (templateArguments isFirst qs es).map (Node.renumber c) := by
  induction qs generalizing isFirst es with
  | nil => simp [templateArguments]
  | cons q qs ih =>
    cases es with
    | nil => simp [templateArguments, textArguments_renumber, ← ih]
    | cons e es => simp [templateArguments, textArguments_renumber, ← ih]

/-- It does not matter whether a template becomes a call before or after it is renumbered. -/
@[simp] theorem callOfTemplate_renumber (n : Node) :
    callOfTemplate (n.renumber c) = (callOfTemplate n).renumber c := by
  rw [callOfTemplate.eq_def n]
  split
  · simp [callOfTemplate, templateArguments_renumber]
  · unfold callOfTemplate
    split
    · simp_all [List.map_eq_cons_iff]
    · rfl

/-- A source-map comment is a text. -/
@[simp] theorem isCommentArgument_renumber (n : Node) :
    isCommentArgument (n.renumber c) = isCommentArgument n := by
  rw [isCommentArgument.eq_def n]
  split
  · simp [isCommentArgument]
  · unfold isCommentArgument
    split
    · simp_all [List.map_eq_cons_iff]
    · rfl

/-- Arguments end with a comment under all numbers or under none. -/
@[simp] theorem endsWithComment_renumber (args : List Node) :
    endsWithComment (args.map (Node.renumber c)) = endsWithComment args := by
  simp [endsWithComment, Option.any_map]

/-- The place in front of a comment is the same under all numbers. -/
theorem insertBeforeComment_renumber (arg : Node) (args : List Node) :
    insertBeforeComment (arg.renumber c) (args.map (Node.renumber c)) =
      (insertBeforeComment arg args).map (Node.renumber c) := by
  unfold insertBeforeComment
  rw [endsWithComment_renumber]
  split
  · cases hlast : args.getLast? <;> simp [List.map_dropLast, hlast]
  · simp

/-- The label that is added is the same under all numbers. -/
theorem addLabel_renumber (f : FileInfo) (name : Option String) (args : List Node) :
    addLabel f name (args.map (Node.renumber c)) =
      (addLabel f name args).map (Node.renumber c) := by
  unfold addLabel
  split
  · rw [← insertBeforeComment_renumber, Build.renumber_textArgument]
  · rfl

/-- The comment that is added is the same under all numbers. -/
theorem addComment_renumber (f : FileInfo) (span : Span) (args : List Node) :
    addComment f span (args.map (Node.renumber c)) =
      (addComment f span args).map (Node.renumber c) := by
  unfold addComment
  rw [endsWithComment_renumber]
  split
  · cases f.comment? span <;> simp
  · rfl

/-- **A style call is annotated alike under all numbers.** -/
@[simp] theorem annotate_renumber (f : FileInfo) (name : Option String) (n : Node) :
    annotate f name (n.renumber c) = (annotate f name n).renumber c := by
  rw [annotate.eq_def f name n]
  split
  · simp [annotate, addComment_renumber, addLabel_renumber]
  · unfold annotate
    split
    · simp_all [List.map_eq_cons_iff]
    · rfl

end Css

/-! ### Options -/

namespace Styled

/-- The generated properties carry no context. -/
theorem renumber_generated (f : FileInfo) (name : Option String) (isWeb : Bool) :
    List.map (Node.renumber c) <$> generated f name isWeb = generated f name isWeb := by
  have hlabel : (if f.autoLabel then (Css.label? name).toList.map (Build.property "label")
      else []).map (Node.renumber c) =
        if f.autoLabel then (Css.label? name).toList.map (Build.property "label") else [] := by
    split <;> simp
  cases isWeb <;> simp [generated, hlabel]

/-- The function that merges options is bound by no scope. -/
@[simp] theorem renumber_objectAssign : objectAssign.renumber c = objectAssign := by
  simp [objectAssign]

/-- Which options are merged when the program runs does not depend on the numbers. -/
theorem needsAssign_renumber (e : Option Node) (g : List Node) :
    needsAssign (e.map (Node.renumber c)) (g.map (Node.renumber c)) = needsAssign e g := by
  cases e with
  | none => rfl
  | some e =>
    rw [Option.map_some, Bool.eq_iff_iff, needsAssign_some, needsAssign_some, ne_eq,
      List.map_eq_nil_iff, Node.exists_object_renumber]

/-- Merged options are renumbered with those that are merged. -/
theorem merge_renumber (assign : Node) (e : Option Node) (g : List Node) :
    merge (assign.renumber c) (e.map (Node.renumber c)) (g.map (Node.renumber c)) =
      (merge assign e g).map (Node.renumber c) := by
  cases g with
  | nil => cases e <;> rfl
  | cons p g =>
    cases e with
    | none => simp [merge]
    | some e =>
      by_cases he : ∃ h ps, e = .object h ps
      · obtain ⟨h, ps, rfl⟩ := he
        simp [merge]
      · have hassign : needsAssign (some e) (p :: g) = true :=
          needsAssign_some.2 ⟨List.cons_ne_nil p g, he⟩
        have hassign' := needsAssign_renumber (c := c) (some e) (p :: g)
        rw [hassign, Option.map_some] at hassign'
        rw [Option.map_some, merge_of_needsAssign hassign, merge_of_needsAssign hassign']
        simp

/-- The options of a styled component are renumbered with those of the user. -/
theorem options_renumber (f : FileInfo) (e : Option Node) (name : Option String) (isWeb : Bool) :
    options f (e.map (Node.renumber c)) name isWeb =
      Option.map (Node.renumber c) <$> options f e name isWeb := by
  have hmerge : ∀ g, merge objectAssign (e.map (Node.renumber c)) (g.map (Node.renumber c)) =
      (merge objectAssign e g).map (Node.renumber c) := by
    intro g
    rw [← merge_renumber, renumber_objectAssign]
  rw [options, options]
  conv_lhs => rw [← renumber_generated (c := c)]
  simp only [Functor.map_map, hmerge]

/-- The expression of an argument is renumbered with it. -/
@[simp] theorem argumentOf_renumber (n : Node) :
    argumentOf (n.renumber c) = (argumentOf n).map (Node.renumber c) := by
  rw [argumentOf.eq_def n]
  split
  · simp [argumentOf]
  · simp [argumentOf]
  · unfold argumentOf
    split
    · simp_all [List.map_eq_cons_iff]
    · simp_all [List.map_eq_cons_iff]
    · rfl

/-- The second argument of a call is renumbered with the call. -/
@[simp] theorem secondArgument_renumber (args : List Node) :
    secondArgument (args.map (Node.renumber c)) =
      (secondArgument args).map (Node.renumber c) := by
  match args with
  | [] | [_] => rfl
  | _ :: a :: _ => exact argumentOf_renumber a

/-- The second argument is set alike under all numbers. -/
theorem setSecond_renumber (args : List Node) (e : Option Node) :
    setSecond (args.map (Node.renumber c)) (e.map (Node.renumber c)) =
      (setSecond args e).map (Node.renumber c) := by
  cases e with
  | none => rfl
  | some e =>
    match args with
    | [] => rfl
    | [a] => simp [setSecond]
    | a :: _ :: rest => simp [setSecond]

/-- Whether an argument is spread is told by its kind. -/
@[simp] theorem isSpread_renumber (n : Node) : isSpread (n.renumber c) = isSpread n := by
  cases n with
  | inner k h ps => cases k <;> simp [isSpread]
  | _ => simp [isSpread]

/-- Whether arguments have a place for options does not depend on the numbers. -/
@[simp] theorem takesOptions_renumber (args : List Node) :
    takesOptions (args.map (Node.renumber c)) = takesOptions args := by
  simp [takesOptions, List.any_map, Function.comp_def]

/-- Options are added to arguments alike under all numbers. -/
theorem addOptions_renumber (assign : Node) (options args : List Node) :
    addOptions (assign.renumber c) (options.map (Node.renumber c)) (args.map (Node.renumber c)) =
      (addOptions assign options args).map (Node.renumber c) := by
  unfold addOptions
  rw [List.isEmpty_map, secondArgument_renumber, merge_renumber, setSecond_renumber]
  split <;> rfl

end Styled

/-! ### Targets -/

namespace Rewrite

variable (c) in
/-- What happens to the uses of a binding, under other numbers. -/
def Target.renumber (t : Target) : Target :=
  { t with replacement := t.replacement.map (Ident.renumber c) }

variable (c) in
/-- The targets of a rewrite under other numbers. -/
def Targets.renumber (ts : Targets) : Targets :=
  ts.map fun e => (e.1.renumber c, e.2.renumber c)

variable (c) in
/-- How a node uses a target, under other numbers. -/
def Usage.renumber : Usage → Usage
  | .tag runtime name t => .tag (runtime.renumber c) name t
  | u => u

variable (ts : Targets)

namespace Targets

/-- The target of an identifier is found under other numbers, and renumbered. -/
theorem get?_renumber (x : Ident) :
    (ts.renumber c).get? (x.renumber c) = (ts.get? x).map (Target.renumber c) := by
  rw [get?, get?, Ident.id_renumber]
  induction ts with
  | nil => rfl
  | cons e ts ih =>
    obtain ⟨y, t⟩ := e
    rw [renumber, List.map_cons, List.lookup_cons, List.lookup_cons]
    by_cases hx : x.id = y
    · simp [hx]
    · have hy : x.id.renumber c ≠ y.renumber c := fun h => hx ((Id.renumber_inj c).1 h)
      simp only [beq_eq_false_iff_ne.2 hx, beq_eq_false_iff_ne.2 hy]
      exact ih

/-- What takes the place of an identifier is renumbered with it. -/
@[simp] theorem replacement?_renumber (x : Ident) :
    (ts.renumber c).replacement? (x.renumber c) =
      (ts.replacement? x).map (Ident.renumber c) := by
  simp only [replacement?, get?_renumber]
  cases ts.get? x with
  | none => rfl
  | some t => cases h : t.replacement <;> simp [Target.renumber, h]

/-- The target of a tree is found under other numbers, and renumbered. -/
theorem ofNode?_renumber (n : Node) :
    (ts.renumber c).ofNode? (n.renumber c) = (ts.ofNode? n).map (Target.renumber c) := by
  rw [ofNode?.eq_def ts n]
  split
  · simp [ofNode?, get?_renumber]
  · unfold ofNode?
    split
    · simp_all
    · rfl

/-- Whether a tree makes styled components does not depend on the numbers. -/
@[simp] theorem styled?_renumber (n : Node) :
    (ts.renumber c).styled? (n.renumber c) = ts.styled? n := by
  rw [styled?, styled?, ofNode?_renumber]
  match ts.ofNode? n with
  | none => rfl
  | some ⟨_, .plain⟩ | some ⟨_, .styles _⟩ | some ⟨_, .styled _⟩ => rfl

/-- Whether a tree is what styled calls start from does not depend on the numbers. -/
@[simp] theorem isStyledBase_renumber (n : Node) :
    (ts.renumber c).isStyledBase (n.renumber c) = ts.isStyledBase n := by
  rw [isStyledBase.eq_def ts n]
  split
  · simp [isStyledBase]
  · simp [isStyledBase]
  · unfold isStyledBase
    split
    · simp_all [List.map_eq_cons_iff]
    · simp_all [List.map_eq_cons_iff]
    · rfl

end Targets

/-- What a callee is used for is renumbered with it. -/
theorem Usage.ofCallee_renumber (callee : Node) :
    ofCallee (ts.renumber c) (callee.renumber c) = (ofCallee ts callee).renumber c := by
  rw [ofCallee, ofCallee, Targets.ofNode?_renumber, Targets.isStyledBase_renumber]
  match ts.ofNode? callee with
  | some ⟨_, .plain⟩ | some ⟨_, .styles _⟩ | some ⟨_, .styled _⟩ => rfl
  | none => cases ts.isStyledBase callee <;> rfl

/-- What a member access is used for is renumbered with it. -/
theorem Usage.ofMember_renumber (object property : Node) :
    ofMember (ts.renumber c) (object.renumber c) (property.renumber c) =
      (ofMember ts object property).renumber c := by
  rw [ofMember.eq_def ts object property]
  split
  · next x w =>
    have hstyled := ts.styled?_renumber (c := c) (.ident .reference x)
    rw [Node.renumber_leaf, Leaf.renumber_ident] at hstyled ⊢
    rw [Node.renumber_leaf, Leaf.renumber_word]
    simp only [ofMember, hstyled, ts.replacement?_renumber]
    cases ts.styled? (.ident .reference x) with
    | none => rfl
    | some t =>
      cases ts.replacement? x with
      | none => rfl
      | some y => cases t <;> rfl
  · unfold ofMember
    split
    · simp_all
    · rfl

/-- **A node is used for the same under all numbers.** -/
theorem Usage.of_renumber (k : Kind) (ps : List Node) :
    of (ts.renumber c) k (ps.map (Node.renumber c)) = (of ts k ps).renumber c := by
  rw [of.eq_def ts k ps]
  split
  · simp [of, ofCallee_renumber]
  · next callee args =>
    simp only [of, List.map_cons, List.map_nil, Node.renumber_run, ts.styled?_renumber,
      Styled.takesOptions_renumber, ofCallee_renumber]
    cases ts.styled? callee with
    | none => rfl
    | some t => cases Styled.takesOptions args <;> rfl
  · simp [of, ofMember_renumber]
  · unfold of
    split
    · simp_all [List.map_eq_cons_iff]
    · simp_all [List.map_eq_cons_iff]
    · simp_all [List.map_eq_cons_iff]
    · rfl

end Rewrite

/-! ### The pass -/

namespace Rewriter

open Rewrite

variable (c) in
/-- The pass for targets under other numbers. -/
def renumber (r : Rewriter) : Rewriter := ⟨r.info, r.targets.renumber c⟩

variable (r : Rewriter) (labels : LabelStack)

/-- The rewrite of a leaf is renumbered with the leaf and the targets. -/
theorem leaf_renumber (a : Leaf) :
    (r.renumber c).leaf (a.renumber c) = (r.leaf a).renumber c := by
  cases a with
  | ident role x =>
    have hx := r.targets.replacement?_renumber (c := c) x
    cases hy : r.targets.replacement? x <;> rw [hy] at hx <;> cases role <;>
      simp [renumber, leaf, hx, hy]
  | _ => simp [leaf, Leaf.renumber]

/-- The rewrite of an export specifier is renumbered with it. -/
theorem exportParts_renumber (ps : List Node) :
    (r.renumber c).exportParts (ps.map (Node.renumber c)) =
      (r.exportParts ps).map (Node.renumber c) := by
  rw [exportParts.eq_def r ps]
  split
  · next role x exported =>
    have hx := r.targets.replacement?_renumber (c := c) x
    cases hy : r.targets.replacement? x with
    | none =>
      rw [hy] at hx
      simp [exportParts, renumber, hx]
    | some y =>
      rw [hy] at hx
      cases exported with
      | leaf a => cases a <;> simp [exportParts, renumber, hx, Leaf.renumber]
      | _ => simp [exportParts, renumber, hx]
  · unfold exportParts
    split
    · simp_all [List.map_eq_cons_iff]
    · rfl

/-- The call by tag name takes the same class name, and is renumbered with its callee. -/
theorem tagCall_renumber (span : Span) (runtime : Ident) (name : String) (t : StyledTarget) :
    (r.renumber c).tagCall labels span (runtime.renumber c) name t =
      Node.renumber c <$> r.tagCall labels span runtime name t := by
  have hoptions := Styled.options_renumber (c := c) r.info none labels.current t.isWeb
  have harguments : ∀ e : Option Node, (e.map (Build.argument ∘ Node.renumber c)).toList =
      ((e.map Build.argument).toList).map (Node.renumber c) := by
    intro e
    cases e <;> simp
  rw [Option.map_none] at hoptions
  simp only [tagCall, map_bind, map_pure]
  conv_lhs => rw [renumber, hoptions, bind_map_left]
  simp [harguments]

/-- The function that merges options takes the same class name, if any. -/
theorem objectAssign_renumber :
    (r.renumber c).objectAssign labels = Node.renumber c <$> r.objectAssign labels := by
  have husage := Usage.ofMember_renumber (c := c) r.targets (Build.reference (.global "Object"))
    (Build.word "assign")
  have hleaf := r.leaf_renumber (c := c) (.ident .reference (.global "Object"))
  have hword : (Build.word "assign").renumber c = Build.word "assign" := by simp [Build.word]
  rw [Leaf.renumber_ident, Ident.renumber_global] at hleaf
  rw [Build.renumber_reference, Ident.renumber_global, hword] at husage
  simp only [objectAssign]
  have htargets : (r.renumber c).targets = r.targets.renumber c := rfl
  rw [htargets, husage, hleaf]
  cases Usage.ofMember r.targets (Build.reference (.global "Object")) (Build.word "assign") with
  | tag runtime name t => exact r.tagCall_renumber labels Span.dummy runtime name t
  | _ => simp [Usage.renumber]

/-- Whether options are merged, and with which function, does not depend on the numbers. -/
theorem mergeFunction_renumber (args options : List Node) :
    (r.renumber c).mergeFunction labels (args.map (Node.renumber c))
        (options.map (Node.renumber c)) =
      Node.renumber c <$> r.mergeFunction labels args options := by
  rw [mergeFunction, mergeFunction, Styled.secondArgument_renumber, Styled.needsAssign_renumber,
    objectAssign_renumber]
  split
  · rfl
  · simp

/-- A finished style call is renumbered with the call. -/
theorem styles_renumber (label : Bool) (k : Kind) (h : Head) (ps : List Node) :
    (r.renumber c).styles labels label k (h.renumber c) (ps.map (Node.renumber c)) =
      (r.styles labels label k h ps).renumber c := by
  rw [styles, styles, ← Node.renumber_inner, Css.callOfTemplate_renumber, Css.annotate_renumber]
  rfl

/-- Several trees are rewritten alike under all numbers if each of them is. -/
theorem nodes_renumber_of {ns : List Node}
    (h : ∀ n ∈ ns, ∀ labels, (r.renumber c).node labels (n.renumber c) =
      Node.renumber c <$> r.node labels n) (labels : LabelStack) :
    (r.renumber c).nodes labels (ns.map (Node.renumber c)) =
      List.map (Node.renumber c) <$> r.nodes labels ns := by
  induction ns with
  | nil => simp [nodes]
  | cons n ns ih =>
    rw [List.forall_mem_cons] at h
    simp [nodes, h.1, ih h.2]

/-- **The pass under other numbers.** -/
theorem node_renumber (n : Node) : (r.renumber c).node labels (n.renumber c) =
    Node.renumber c <$> r.node labels n := by
  induction n using Node.induct_through generalizing labels with
  | leaf a => rw [Node.renumber_leaf, node, node, leaf_renumber, map_pure]
  | run ns ih => simp [node, nodes_renumber_of r ih]
  | inner k h ps ih ihrun =>
    have hparts := r.nodes_renumber_of ih (labels.enter k ps)
    rw [Node.renumber_inner, node.eq_def, node.eq_def r labels (.inner k h ps)]
    dsimp only
    by_cases hk : k = .exportSpecifier
    · simp [if_pos hk, exportParts_renumber]
    rw [if_neg hk, if_neg hk]
    have husage : Usage.of (r.renumber c).targets k (ps.map (Node.renumber c)) =
        (Usage.of r.targets k ps).renumber c := Usage.of_renumber r.targets k ps
    have hf := Usage.fits_of r.targets k ps
    rw [husage]
    generalize Usage.of r.targets k ps = u at hf
    cases hf with
    | unrelated => simp [Usage.renumber, hparts]
    | styles hst => simp [Usage.renumber, hparts, styles_renumber]
    | @component callee a rest t ht hs =>
      have hrun : Node.run (a :: rest) ∈ [callee, .run (a :: rest)] :=
        List.mem_cons_of_mem _ (List.mem_singleton_self _)
      have hcallee := ih callee (List.mem_cons_self ..) labels
      have hfirst := ihrun _ hrun a (List.mem_cons_self ..) labels
      have hrest := r.nodes_renumber_of
        (fun n hn => ihrun _ hrun n (List.mem_cons_of_mem _ hn)) labels
      have hassign := r.mergeFunction_renumber (c := c) labels (a :: rest)
      have hadd := fun assign options first others =>
        Styled.addOptions_renumber (c := c) assign options (first :: others)
      simp only [List.map_cons] at hassign hadd
      simp only [Usage.renumber, List.map_cons, List.map_nil, Node.renumber_run]
      -- the generated options are the same, so they may be taken for renumbered ones
      rw [show (r.renumber c).info = r.info from rfl]
      conv_lhs => rw [← Styled.renumber_generated (c := c)]
      simp [hcallee, hfirst, hrest, hassign, hadd]
    | tag ht hw hy => exact r.tagCall_renumber labels h.place _ _ _

end Rewriter
end StyleLowering
