/-
# Attributes in the last pass

The attributes of a program stay what they are, one by one and in their order, and no
others come in: neither the calls around literals nor generated options have attributes in
them.  So it can be said of each attribute what it becomes (`AttributeBecomes`), for one that
stands in a function inside of another css prop as well as for any other one
(`Program.forall₂_attributes`).
-/

import StyleLowering.Proofs.Walk.Lowering

namespace StyleLowering

/-- Whether a node is a JSX attribute. -/
def Node.isJsxAttribute : Node → Bool
  | .inner .jsxAttribute _ _ => true
  | _ => false

/-- The JSX attributes of a tree that stands inside of the nodes `above`, each one with the
nodes around it, an outer one in front of those in its value. -/
def Node.attributeSites (above : List Node) (n : Node) : List Site :=
  (n.sites above).filter (·.node.isJsxAttribute)

/-- The JSX attributes of a tree. -/
def Node.attributes (n : Node) : List Node := (n.attributeSites []).map Site.node

/-- The JSX attributes of a program, each one with the nodes around it. -/
def Program.attributeSites (p : Program) : List Site :=
  (p.sites Walk.sitesOf).filter (·.node.isJsxAttribute)

/-- The JSX attributes of a program. -/
def Program.attributes (p : Program) : List Node := p.attributeSites.map Site.node

/-- The kind of a node that is neither a leaf nor a run. -/
def Node.kind? : Node → Option Kind
  | .inner k _ _ => some k
  | _ => none

/-- The kind of what stands in braces. -/
def Node.bracedKind? : Node → Option Kind
  | .container _ e => e.kind?
  | _ => none

/-- The kind of what stands in braces as the value of an attribute. -/
def Node.valueKind? : Node → Option Kind
  | .jsxAttribute _ _ value => value.bracedKind?
  | _ => none

/-- What an attribute `s` becomes in the last pass. -/
structure AttributeBecomes (f : FileInfo) (css : Ident) (s : Site) (t : Node) : Prop where
  /-- Its value is rewritten, and is of another kind then, exactly if it is a css prop. -/
  rewritten_iff : t.valueKind? ≠ s.node.valueKind? ↔
    f.compilesCssProp = true ∧ s.node.IsCssProp
  /-- A css prop keeps its literal, inside of which other attributes and calls may have
  changed, as the first argument of a call of `css`; the label and the source-map comment
  follow, if there are any, and only the last argument is a source-map comment. -/
  wrapped : f.compilesCssProp = true → s.node.IsCssProp → ∃ h hc attr v v' args,
    s.node = .jsxAttribute h attr (.container hc v) ∧
    t = .jsxAttribute h attr (.container hc
      (.call (Head.ofSpanEmpty (CssProp.placeOf v)) (Build.reference css) args)) ∧
    args = Build.argument v' :: (CssProp.labelArguments f (nearestName? s.above) ++
      CssProp.commentArguments f h.place (CssProp.placeOf v)) ∧
    v.LowersTo f css (nearestName? s.above) v' ∧
    ∀ a ∈ args.dropLast, Css.isCommentArgument a = false
  /-- Any other attribute changes only inside. -/
  kept : ¬(f.compilesCssProp = true ∧ s.node.IsCssProp) → ∃ h ps qs,
    s.node = .inner .jsxAttribute h ps ∧ t = .inner .jsxAttribute h qs ∧
    List.Forall₂ (Node.LowersTo f css (nearestName? s.above)) ps qs
  /-- An attribute stays if neither it nor an attribute in it is a css prop and there is no
  `withComponent` call in it. -/
  unchanged : s.node.isIdle f = true → t = s.node

namespace Node

/-! ### Lists of attributes -/

/-- A leaf is no attribute. -/
theorem attributeSites_leaf (above : List Node) (a : Leaf) :
    (Node.leaf a).attributeSites above = [] := by
  rw [attributeSites, sites_leaf, List.filter_nil]

/-- The attributes among the sites of several trees are the attributes of each of them, in order.
-/
theorem filter_sitesAll (above ns : List Node) :
    (sitesAll above ns).filter (·.node.isJsxAttribute) = ns.flatMap (attributeSites above) := by
  rw [sitesAll_eq_flatMap, List.filter_flatMap]
  rfl

/-- The attributes of a run are those of its items. -/
theorem attributeSites_run (above ns : List Node) :
    (Node.run ns).attributeSites above = ns.flatMap (attributeSites above) := by
  rw [attributeSites, sites_run, filter_sitesAll]

/-- A node is an attribute site if it is an attribute; the attributes of its parts have it above
them. -/
theorem attributeSites_inner (above : List Node) (k : Kind) (h : Head) (ps : List Node) :
    (Node.inner k h ps).attributeSites above =
      (if k = .jsxAttribute then [⟨above, .inner k h ps⟩] else []) ++
        ps.flatMap (attributeSites (.inner k h ps :: above)) := by
  rw [attributeSites, sites_inner, List.filter_cons, filter_sitesAll]
  by_cases hk : k = .jsxAttribute
  · subst hk
    rfl
  · have hnot : (Node.inner k h ps).isJsxAttribute = false := by
      unfold isJsxAttribute
      split
      · next heq =>
        cases heq
        exact absurd rfl hk
      · rfl
    simp [hnot, hk]

/-- The nodes around a tree are not looked at. -/
theorem map_node_attributeSites (n : Node) (above : List Node) :
    (n.attributeSites above).map Site.node = n.attributes := by
  rw [attributes]
  generalize [] = above'
  induction n generalizing above above' with
  | leaf a => rw [attributeSites_leaf, attributeSites_leaf]
  | run ns ih =>
    rw [attributeSites_run, attributeSites_run, List.map_flatMap, List.map_flatMap]
    exact List.flatMap_congr fun n hn => ih n hn above above'
  | inner k h ps ih =>
    rw [attributeSites_inner, attributeSites_inner, List.map_append, List.map_append,
      List.map_flatMap, List.map_flatMap, List.flatMap_congr fun n hn => ih n hn _ _]
    split <;> rfl

/-- A leaf has no attributes. -/
theorem attributes_leaf (a : Leaf) : (Node.leaf a).attributes = [] := by
  rw [attributes, attributeSites_leaf, List.map_nil]

/-- The attributes of a run are those of its items. -/
theorem attributes_run (ns : List Node) : (Node.run ns).attributes = ns.flatMap attributes := by
  rw [attributes, attributeSites_run, List.map_flatMap]
  rfl

/-- The attributes of a node are itself, if it is one, and those of its parts. -/
theorem attributes_inner (k : Kind) (h : Head) (ps : List Node) :
    (Node.inner k h ps).attributes =
      (if k = .jsxAttribute then [.inner k h ps] else []) ++ ps.flatMap attributes := by
  rw [attributes, attributeSites_inner, List.map_append, List.map_flatMap]
  simp only [map_node_attributeSites]
  split <;> rfl

/-- A node of any other kind has the attributes of its parts. -/
theorem attributes_inner_of_ne {k : Kind} (hk : k ≠ .jsxAttribute) (h : Head) (ps : List Node) :
    (Node.inner k h ps).attributes = ps.flatMap attributes := by
  rw [attributes_inner, if_neg hk, List.nil_append]

/-- A node around one part has the attributes of that part. -/
theorem attributes_single {k : Kind} (hk : k ≠ .jsxAttribute) (h : Head) (e : Node) :
    (Node.inner k h [e]).attributes = e.attributes := by
  rw [attributes_inner_of_ne hk, List.flatMap_singleton]

/-- The attributes of a call are those of the callee, then those of the arguments. -/
theorem attributes_call (h : Head) (callee : Node) (args : List Node) :
    (Node.call h callee args).attributes = callee.attributes ++ args.flatMap attributes := by
  rw [attributes_inner_of_ne (by decide), List.flatMap_cons, List.flatMap_singleton,
    attributes_run]

/-- The attributes of an object literal are those of its properties. -/
theorem attributes_object (h : Head) (ps : List Node) :
    (Node.object h ps).attributes = ps.flatMap attributes := by
  rw [attributes_single (by decide), attributes_run]

/-- To make an argument of an expression adds no attribute. -/
theorem attributes_argument (e : Node) : (Build.argument e).attributes = e.attributes :=
  attributes_single (by decide) Head.empty e

/-- A generated string has no attributes. -/
theorem attributes_textArgument (text : String) : (Build.textArgument text).attributes = [] := by
  rw [Build.textArgument, attributes_argument, Build.text, attributes_leaf]

end Node

/-! ### Nodes that come in have no attributes -/

namespace Styled

/-- Generated texts have no attributes. -/
theorem AreTexts.attributes {g : List Node} (h : AreTexts g) : g.flatMap Node.attributes = [] := by
  rw [List.flatMap_eq_nil_iff]
  intro n hn
  obtain ⟨key, value, rfl⟩ := h n hn
  rw [Build.property, Node.attributes_inner_of_ne (by decide), Build.word, Build.text]
  simp [Node.attributes_leaf]

/-- An argument has the attributes of its expression. -/
theorem attributes_argumentOf {a e : Node} (h : argumentOf a = some e) :
    a.attributes = e.attributes := by
  unfold argumentOf at h
  split at h
  · cases h
    exact Node.attributes_single (by decide) ..
  · cases h
    exact Node.attributes_single (by decide) ..
  · cases h

/-- Merged options have the attributes that the options of the user have. -/
theorem attributes_merge {existing : Option Node} {g : List Node} {o : Node} (hg : AreTexts g)
    (h : merge objectAssign existing g = some o) :
    o.attributes = existing.toList.flatMap Node.attributes := by
  have hnone := hg.attributes
  cases existing with
  | none =>
    cases g with
    | nil => cases h
    | cons p g =>
      cases h
      rw [Build.object, Node.attributes_object, hnone]
      rfl
  | some e =>
    rw [Option.toList_some, List.flatMap_singleton]
    by_cases hnil : g = []
    · rw [hnil, merge] at h
      · cases h
        rfl
    by_cases he : ∃ h ps, e = .object h ps
    · obtain ⟨hd, ps, rfl⟩ := he
      rw [merge_object hnil] at h
      cases h
      rw [Node.attributes_object, Node.attributes_object, List.flatMap_append, hnone,
        List.append_nil]
    · rw [merge_of_needsAssign (needsAssign_some.2 ⟨hnil, he⟩)] at h
      cases h
      have hassign : objectAssign.attributes = [] := by decide +kernel
      simp [Build.call, Node.attributes_call, Node.attributes_argument, Build.object,
        Node.attributes_object, hnone, hassign]

end Styled

/-- A call has the same attributes when it has got options. -/
theorem GetsOptions.attributes {f : FileInfo} {name : Option String} {n : Nat} {h : Head}
    {qs : List Node} {m : Node} (hm : GetsOptions f name n h qs m)
    (hargs : ∀ callee args, qs = [callee, .run args] → ∀ a ∈ args, a.isArgument = true) :
    m.attributes = qs.flatMap Node.attributes := by
  cases hm with
  | @intro callee first o rest hrest ho =>
    have hall := hargs callee (first :: rest) rfl
    rw [List.forall_mem_cons] at hall
    have hmerge := Styled.attributes_merge (Styled.areTexts_generated f name true n) ho
    have hsecond : (Styled.secondArgument (first :: rest)).toList.flatMap Node.attributes =
        rest.flatMap Node.attributes := by
      match rest, hrest, hall with
      | [], _, _ => rfl
      | [a], _, ⟨_, ha⟩ =>
        rw [List.forall_mem_singleton] at ha
        obtain ⟨e, he, -, -⟩ := Styled.argumentOf_of_isArgument ha
        rw [Styled.secondArgument, he, Option.toList_some, List.flatMap_singleton,
          List.flatMap_singleton, Styled.attributes_argumentOf he]
    rw [Node.attributes_call, List.flatMap_cons, List.flatMap_cons, List.flatMap_nil,
      List.flatMap_cons, List.flatMap_singleton, Node.attributes_argument, hmerge, hsecond,
      Node.attributes_run, List.flatMap_cons, List.append_nil]

/-- The call around a literal has the attributes of the literal. -/
theorem CssProp.attributes_call (f : FileInfo) (css : Ident) (name : Option String) (h : Head)
    (place literal : Span) (v : Node) :
    (Node.call h (Build.reference css) (Build.argument v ::
      (labelArguments f name ++ commentArguments f place literal))).attributes = v.attributes := by
  have hextra : (labelArguments f name ++ commentArguments f place literal).flatMap
      Node.attributes = [] := by
    rw [List.flatMap_eq_nil_iff]
    intro a ha
    obtain ⟨text, rfl⟩ := exists_of_mem_extra ha
    exact Node.attributes_textArgument text
  rw [Node.attributes_call, List.flatMap_cons, hextra, List.append_nil, Node.attributes_argument,
    Build.reference, Node.attributes_leaf, List.nil_append]

/-! ### What becomes of attributes -/

namespace Lowered

variable {f : FileInfo} {css : Ident} {name : Option String} {h : Head} {k : Kind}
  {ps qs : List Node} {m : Node}

/-- Most nodes are what they were, around their parts. -/
theorem eq_of_ne (hl : Lowered f css name h k ps qs m) (hattribute : k ≠ .jsxAttribute)
    (hcall : k ≠ .call) : m = .inner k h qs := by
  cases hl with
  | cssProp => exact absurd rfl hattribute
  | withComponent => exact absurd rfl hcall
  | plain => rfl

/-- A node keeps its kind and what it says about itself. -/
theorem exists_eq (hl : Lowered f css name h k ps qs m) : ∃ rs, m = .inner k h rs := by
  cases hl with
  | cssProp => exact ⟨_, rfl⟩
  | withComponent _ hm =>
    cases hm
    exact ⟨_, rfl⟩
  | plain => exact ⟨_, rfl⟩

/-- The attributes in the parts are those in the visited parts. -/
theorem attributes (hl : Lowered f css name h k ps qs m)
    (hargs : k = .call → ∀ callee args, qs = [callee, .run args] →
      ∀ a ∈ args, a.isArgument = true) :
    m.attributes = (if k = .jsxAttribute then [m] else []) ++ qs.flatMap Node.attributes := by
  cases hl with
  | cssProp =>
    rw [Node.attributes_inner, if_pos rfl, List.flatMap_cons, List.flatMap_cons,
      List.flatMap_cons, List.flatMap_cons, Node.attributes_single (by decide),
      Node.attributes_single (by decide), CssProp.attributes_call]
  | withComponent _ hm => exact hm.attributes (hargs rfl)
  | plain => exact Node.attributes_inner k h qs

end Lowered

namespace Node

variable {f : FileInfo} {css : Ident} {name : Option String} {m : Node}

/-- **Lowering keeps the kind of a node.** -/
theorem kind?_of_lowersTo {n : Node} (h : n.LowersTo f css name m) : m.kind? = n.kind? := by
  cases n with
  | leaf a => rw [lowersTo_leaf.1 h]
  | run ns =>
    obtain ⟨ms, rfl, -⟩ := lowersTo_run.1 h
    rfl
  | inner k hd ps =>
    obtain ⟨qs, -, hl⟩ := lowersTo_inner.1 h
    obtain ⟨rs, rfl⟩ := hl.exists_eq
    rfl

/-- What an argument is lowered to is an argument. -/
theorem isArgument_of_lowersTo {n : Node} (hn : n.isArgument = true)
    (h : n.LowersTo f css name m) : m.isArgument = true := by
  obtain ⟨k, hd, e, hk, rfl⟩ := isArgument_iff.1 hn
  obtain ⟨qs, hqs, hl⟩ := lowersTo_inner.1 h
  rw [hl.eq_of_ne (by rcases hk with rfl | rfl <;> decide) (by rcases hk with rfl | rfl <;> decide)]
  cases hqs with
  | cons _ hnil =>
    cases hnil
    exact isArgument_iff.2 ⟨k, hd, _, hk, rfl⟩

/-- What arguments are lowered to are arguments. -/
theorem isArgument_of_forall₂ {ns ms : List Node} (hn : ∀ n ∈ ns, n.isArgument = true)
    (h : List.Forall₂ (LowersTo f css name) ns ms) : ∀ m ∈ ms, m.isArgument = true := by
  induction h with
  | nil => simp
  | cons hm _ ih =>
    rw [List.forall_mem_cons] at hn ⊢
    exact ⟨isArgument_of_lowersTo hn.1 hm, ih hn.2⟩

/-- Braces stay around what they hold. -/
theorem exists_of_lowersTo_container {hc : Head} {e : Node}
    (h : (Node.container hc e).LowersTo f css name m) :
    ∃ e', m = .container hc e' ∧ e.LowersTo f css name e' := by
  obtain ⟨qs, hqs, hl⟩ := lowersTo_inner.1 h
  rw [hl.eq_of_ne (by decide) (by decide)]
  cases hqs with
  | cons he hnil =>
    cases hnil
    exact ⟨_, rfl, he⟩

/-- Only a container has braces. -/
theorem bracedKind?_of_ne {k : Kind} (hk : k ≠ .container) (h : Head) (ps : List Node) :
    (Node.inner k h ps).bracedKind? = none := by
  unfold bracedKind?
  split
  · next heq =>
    cases heq
    exact absurd rfl hk
  · rfl

/-- Lowering keeps what stands between the braces of a container of its kind. -/
theorem bracedKind?_of_lowersTo {n : Node} (h : n.LowersTo f css name m) :
    m.bracedKind? = n.bracedKind? := by
  cases n with
  | leaf a => rw [lowersTo_leaf.1 h]
  | run ns =>
    obtain ⟨ms, rfl, -⟩ := lowersTo_run.1 h
    rfl
  | inner k hd ps =>
    obtain ⟨qs, hqs, hl⟩ := lowersTo_inner.1 h
    by_cases hk : k = .container
    · subst hk
      rw [hl.eq_of_ne (by decide) (by decide)]
      rcases hqs with _ | ⟨he, _ | _⟩
      · rfl
      · exact kind?_of_lowersTo he
      · rfl
    · obtain ⟨rs, rfl⟩ := hl.exists_eq
      rw [bracedKind?_of_ne hk, bracedKind?_of_ne hk]

/-- The value of an attribute is of the same kind when its parts are lowered. -/
theorem valueKind?_of_forall₂ {h : Head} {ps qs : List Node}
    (hqs : List.Forall₂ (LowersTo f css name) ps qs) :
    (Node.inner .jsxAttribute h qs).valueKind? = (Node.inner .jsxAttribute h ps).valueKind? := by
  rcases hqs with _ | ⟨_, _ | ⟨hvalue, _ | _⟩⟩
  · rfl
  · rfl
  · exact bracedKind?_of_lowersTo hvalue
  · rfl

end Node

/-- What becomes of an attribute that the pass may turn into `m`. -/
theorem attributeBecomes {f : FileInfo} {css : Ident} {above : List Node} {h : Head}
    {ps : List Node} {m : Node}
    (hm : (Node.inner .jsxAttribute h ps).LowersTo f css (nearestName? above) m) :
    AttributeBecomes f css ⟨above, .inner .jsxAttribute h ps⟩ m := by
  obtain ⟨qs, hqs, hl⟩ := Node.lowersTo_inner.1 hm
  have hname : (Node.inner .jsxAttribute h ps).declaredName? = none := rfl
  rw [hname, Option.none_or] at hqs
  cases hl with
  | plain hprop =>
    have hnot : ¬(f.compilesCssProp = true ∧ (Node.inner .jsxAttribute h ps).IsCssProp) :=
      fun hp => hprop hp.1 hp.2
    exact {
      rewritten_iff := iff_of_false (fun hne => hne (Node.valueKind?_of_forall₂ hqs)) hnot
      wrapped := fun hc hp => absurd hp (hprop hc)
      kept := fun _ => ⟨h, ps, qs, rfl, rfl, hqs⟩
      unchanged := fun hidle => Node.eq_of_lowersTo hidle hm }
  | @cssProp _ attr v hc hcompiles hprop hv =>
    have hprop' := hprop
    obtain ⟨-, hk, -⟩ := hprop
    rcases hqs with _ | ⟨hattr, _ | ⟨hvalue, _ | _⟩⟩
    obtain ⟨_, heq, hliteral⟩ := Node.exists_of_lowersTo_container hvalue
    cases heq
    obtain rfl := Node.lowersTo_leaf.1 hattr
    -- the literal has its kind and its place afterwards, whatever has changed in it
    obtain ⟨_, -, hl⟩ := Node.lowersTo_inner.1 hliteral
    obtain ⟨rs, rfl⟩ := hl.exists_eq
    exact {
      rewritten_iff := by
        refine iff_of_true ?_ ⟨hcompiles, hprop'⟩
        rcases hk with rfl | rfl <;> exact nofun
      wrapped := fun _ _ => ⟨h, hc, _, _, _, _, rfl, rfl, rfl, hliteral,
        CssProp.isCommentArgument_of_mem_dropLast hv⟩
      kept := fun hnot => absurd ⟨hcompiles, hprop'⟩ hnot
      unchanged := fun hidle => Node.eq_of_lowersTo hidle hm }

/-- What corresponds element by element, with lists in the place of the elements. -/
theorem forall₂_flatMap {α β γ δ : Type} {R : α → β → Prop} {P : γ → δ → Prop}
    {g : α → List γ} {g' : β → List δ} {as : List α} {bs : List β}
    (hg : ∀ a ∈ as, ∀ b, R a b → List.Forall₂ P (g a) (g' b)) (h : List.Forall₂ R as bs) :
    List.Forall₂ P (as.flatMap g) (bs.flatMap g') := by
  have hmem : List.Forall₂ (fun a b => a ∈ as ∧ R a b) as bs :=
    (List.forall₂_and_left _ _).2 ⟨fun _ ha => ha, h⟩
  exact List.rel_flatMap hmem fun a b hab => hg a hab.1 b hab.2

section Correspondence

variable {fit : Bool} {f : FileInfo} {css : Ident}

/-- **The attributes of a tree,** one by one. -/
theorem Node.forall₂_attributes {n : Node} (hn : n.wellShaped fit = true) {above : List Node}
    {m : Node} (h : n.LowersTo f css (nearestName? above) m) :
    List.Forall₂ (AttributeBecomes f css) (n.attributeSites above) m.attributes := by
  induction n generalizing above m with
  | leaf a =>
    rw [attributeSites_leaf, lowersTo_leaf.1 h, attributes_leaf]
    exact .nil
  | run ns ih =>
    rw [wellShaped_run] at hn
    obtain ⟨ms, rfl, hms⟩ := lowersTo_run.1 h
    rw [attributeSites_run, attributes_run]
    exact forall₂_flatMap (fun n hmem m hm => ih n hmem (hn n hmem) hm) hms
  | inner k hd ps ih =>
    rw [wellShaped_inner] at hn
    obtain ⟨qs, hqs, hl⟩ := lowersTo_inner.1 h
    rw [← nearestName?_cons] at hqs
    have hparts := forall₂_flatMap (fun n hmem m hm => ih n hmem (hn.2 n hmem) hm) hqs
    -- Options are generated texts, so a call has the attributes of its arguments still.
    have hargs : k = .call → ∀ callee args, qs = [callee, .run args] →
        ∀ a ∈ args, a.isArgument = true := by
      rintro rfl callee args rfl
      obtain ⟨callee', args', rfl, ha⟩ := Kind.allows_call.1 hn.1
      rcases hqs with _ | ⟨_, _ | ⟨hrun, _⟩⟩
      obtain ⟨_, heq, hms⟩ := lowersTo_run.1 hrun
      cases heq
      exact isArgument_of_forall₂ ha hms
    rw [attributeSites_inner, hl.attributes hargs]
    refine List.rel_append ?_ hparts
    split
    · next hk =>
      subst hk
      exact .cons (attributeBecomes h) .nil
    · exact .nil

/-- The attributes of a module are those of its items, in order. -/
theorem Program.attributeSites_module (m : Module) :
    (Program.module m).attributeSites = m.body.flatMap fun i =>
      (Walk.sitesOf i).filter (·.node.isJsxAttribute) := by
  rw [attributeSites, Program.sites, List.filter_flatMap]

/-- The attributes of a script are those of its statements, in order. -/
theorem Program.attributeSites_script (t : Script) :
    (Program.script t).attributeSites = t.body.flatMap (Node.attributeSites []) :=
  Node.filter_sitesAll [] t.body

/-- **The attributes of an item become those of the lowered item, one for one.** -/
theorem Item.forall₂_attributes {i j : Item} (hi : i.wellShaped fit = true)
    (h : Item.LowersTo f css i j) :
    List.Forall₂ (AttributeBecomes f css) ((Walk.sitesOf i).filter (·.node.isJsxAttribute))
      (((Walk.sitesOf j).filter (·.node.isJsxAttribute)).map Site.node) := by
  cases h with
  | importing h => exact Node.forall₂_attributes hi h
  | node h => exact Node.forall₂_attributes hi h

/-- **The attributes of a program,** one by one. -/
theorem Program.forall₂_attributes {p q : Program} (hp : p.wellShaped fit = true)
    (h : p.LowersTo f css q) :
    List.Forall₂ (AttributeBecomes f css) p.attributeSites q.attributes := by
  cases h with
  | module h =>
    rw [attributes, attributeSites_module, attributeSites_module, List.map_flatMap]
    exact forall₂_flatMap
      (fun i hi j => Item.forall₂_attributes (List.all_eq_true.1 hp i hi)) h
  | script h =>
    rw [attributes, attributeSites_script, attributeSites_script, List.map_flatMap]
    exact forall₂_flatMap
      (fun n hn m => Node.forall₂_attributes (List.all_eq_true.1 hp n hn)) h

end Correspondence

end StyleLowering
