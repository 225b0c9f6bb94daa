/-
# withComponent calls in the last pass

A call is dealt with behind its parts.  Visiting the parts does not change what kind of
call it is: whether it is a `withComponent` call at all, and whether one of its arguments is
spread.  So what becomes of a call can be said of the call as it was before
(`Walk.normalizes_node`), and over a whole tree the counter goes on by one for each call
that takes options, while the reports are those on the calls that refuse them
(`Walk.charges_program`).
-/

import StyleLowering.Proofs.Walk.Frame
import StyleLowering.Proofs.Walk.Labels

namespace StyleLowering

/-! ### Kinds of calls -/

/-- The arguments of a call `x.withComponent(…)`, if there are one or two. -/
def Node.withComponentArgs? : Node → Option (List Node)
  | .call _ (.member _ _ (.word w)) args =>
    if w.text = "withComponent" ∧ (args.length = 1 ∨ args.length = 2) then some args else none
  | _ => none

/-- Whether a node is a `withComponent` call that takes options: none of its arguments is
spread. -/
def Node.takesOptions (n : Node) : Bool :=
  n.withComponentArgs?.any fun args => !args.any Styled.isSpread

/-- Whether a node is a `withComponent` call that refuses options: one of its arguments is
spread. -/
def Node.refusesOptions (n : Node) : Bool :=
  n.withComponentArgs?.any fun args => args.any Styled.isSpread

/-- The report on a call that refuses options, with the place of the call. -/
def Node.refusal (n : Node) : Diagnostic :=
  ⟨StyleError.message .withComponentSpread, CssProp.placeOf n⟩

/-- A call with the visited parts `ps` gets its generated options as the second argument, in
the place of the one it had or behind the first one. -/
inductive GetsOptions (f : FileInfo) (name : Option String) (s : Nat) (h : Head) :
    (ps : List Node) → Node → Prop
  | intro {callee first o : Node} {rest : List Node} (hrest : rest.length ≤ 1)
      (ho : (Styled.options f (Styled.secondArgument (first :: rest)) name true s).1 = some o) :
      GetsOptions f name s h [callee, .run (first :: rest)]
        (.call h callee [first, Build.argument o])

namespace Node

/-- A call has such arguments if it calls a `withComponent` member with one or two of them. -/
theorem withComponentArgs?_call (h : Head) (callee : Node) (args : List Node) :
    (Node.call h callee args).withComponentArgs? =
      if WithComponent.applies callee args then some args else none := by
  unfold WithComponent.applies WithComponent.isCallee
  split
  · next w => simp [withComponentArgs?]
  · next hcallee =>
    rw [Bool.false_and, if_neg Bool.false_ne_true]
    unfold withComponentArgs?
    split
    · next heq =>
      cases heq
      exact absurd rfl (hcallee _ _ _)
    · rfl

/-- Nothing but a call has such arguments. -/
theorem withComponentArgs?_of_not_call {k : Kind} {ps : List Node}
    (hcall : ¬∃ callee args, k = .call ∧ ps = [callee, .run args]) (h : Head) :
    (Node.inner k h ps).withComponentArgs? = none := by
  unfold withComponentArgs?
  split
  · next heq =>
    cases heq
    exact absurd ⟨_, _, rfl, rfl⟩ hcall
  · rfl

/-- A node with the arguments of a `withComponent` call is such a call. -/
theorem exists_of_withComponentArgs? {k : Kind} {h : Head} {ps args : List Node}
    (hargs : (Node.inner k h ps).withComponentArgs? = some args) :
    ∃ callee first rest, k = .call ∧ ps = [callee, .run args] ∧ args = first :: rest ∧
      rest.length ≤ 1 ∧ WithComponent.applies callee args = true := by
  by_cases hcall : ∃ callee args, k = .call ∧ ps = [callee, .run args]
  · obtain ⟨callee, args', rfl, rfl⟩ := hcall
    rw [withComponentArgs?_call] at hargs
    split at hargs
    · next happ =>
      cases hargs
      have hlength : args.length = 1 ∨ args.length = 2 := by
        simpa [WithComponent.applies] using (Bool.and_eq_true_iff.1 happ).2
      cases args with
      | nil => simp at hlength
      | cons first rest =>
        refine ⟨callee, first, rest, rfl, rfl, rfl, ?_, happ⟩
        rw [List.length_cons] at hlength
        omega
    · cases hargs
  · rw [withComponentArgs?_of_not_call hcall] at hargs
    cases hargs

/-- No node of another kind has such arguments. -/
theorem withComponentArgs?_of_ne {k : Kind} (hk : k ≠ .call) (h : Head) (ps : List Node) :
    (Node.inner k h ps).withComponentArgs? = none :=
  withComponentArgs?_of_not_call (fun ⟨_, _, he, _⟩ => hk he) h

/-- A `withComponent` call either takes options or refuses them. -/
theorem takesOptions_or_refusesOptions (k : Kind) (h : Head) (ps : List Node) :
    ((Node.inner k h ps).takesOptions || (Node.inner k h ps).refusesOptions) =
      k.isWithComponent ps := by
  have hsome : (Node.inner k h ps).withComponentArgs?.isSome = k.isWithComponent ps := by
    by_cases hcall : ∃ callee args, k = .call ∧ ps = [callee, .run args]
    · obtain ⟨callee, args, rfl, rfl⟩ := hcall
      rw [withComponentArgs?_call, Kind.isWithComponent]
      cases WithComponent.applies callee args <;> rfl
    · rw [withComponentArgs?_of_not_call hcall]
      unfold Kind.isWithComponent
      split
      · exact absurd ⟨_, _, rfl, rfl⟩ hcall
      · rfl
  rw [← hsome, takesOptions, refusesOptions]
  cases (Node.inner k h ps).withComponentArgs? with
  | none => rfl
  | some args => exact Bool.not_or_self _

/-- No node both takes options and refuses them. -/
theorem not_takesOptions_and_refusesOptions (n : Node) :
    (n.takesOptions && n.refusesOptions) = false := by
  rw [takesOptions, refusesOptions]
  cases n.withComponentArgs? with
  | none => rfl
  | some args => exact Bool.not_and_self _

end Node

namespace Styled

variable {g : List Node}

/-- Options with generated ones among them are not the options of the user. -/
theorem merge_ne_self (assign e : Node) (hg : g ≠ []) : merge assign (some e) g ≠ some e := by
  by_cases he : ∃ hd ps, e = .object hd ps
  · obtain ⟨hd, ps, rfl⟩ := he
    rw [merge_object hg]
    simp [hg]
  · rw [merge_of_needsAssign (needsAssign_some.2 ⟨hg, he⟩)]
    intro h
    -- the call is bigger than the options that are merged in it
    have hsize := congrArg sizeOf (Option.some.inj h)
    simp only [Build.call, Build.argument, Node.inner.sizeOf_spec, Node.run.sizeOf_spec,
      List.cons.sizeOf_spec] at hsize
    omega

/-- On the web there are always options. -/
theorem exists_options (f : FileInfo) (existing : Option Node) (name : Option String) (s : Nat) :
    ∃ o, options f existing name true s = (some o, s + 1) := by
  have hne : (generated f name true s).1 ≠ [] := List.cons_ne_nil _ _
  suffices hsome : ∃ o, merge objectAssign existing (generated f name true s).1 = some o from
    hsome.imp fun o ho => congrArg (·, s + 1) ho
  cases existing with
  | some e => exact exists_merge objectAssign e _
  | none =>
    cases hg : (generated f name true s).1 with
    | nil => exact absurd hg hne
    | cons p g => exact ⟨_, rfl⟩

/-- The arguments of a call are others when generated options have come in. -/
theorem options_ne_second {f : FileInfo} {name : Option String} {s : Nat}
    {first : Node} {rest : List Node} {o : Node}
    (ho : (options f (secondArgument (first :: rest)) name true s).1 = some o) :
    [first, Build.argument o] ≠ first :: rest := by
  intro h
  cases h
  exact merge_ne_self objectAssign o (List.cons_ne_nil _ _) ho

end Styled

/-- A call is another one when it has got options. -/
theorem GetsOptions.ne {f : FileInfo} {name : Option String} {s : Nat} {h : Head}
    {ps : List Node} {m : Node} (hm : GetsOptions f name s h ps m) : m ≠ .inner .call h ps := by
  cases hm with
  | intro hrest ho =>
    intro he
    injection he with _ _ hparts
    exact Styled.options_ne_second ho (Node.run.inj (List.cons.inj (List.cons.inj hparts).2).1)

namespace Walk

open Stateful

variable (labels : LabelStack) (w : Walk)

/-! ### Visiting keeps the kind of a call -/

/-- The pass keeps the dots of an argument. -/
theorem isSpread_node (n : Node) : Styled.isSpread (node labels n w).1 = Styled.isSpread n := by
  cases n with
  | leaf a => rw [node_leaf]
  | run ns => rw [node_run]; rfl
  | inner k h ps =>
    obtain ⟨qs, he⟩ := exists_node_inner labels k h ps w
    rw [he]
    cases k <;> rfl

/-- The pass keeps the dots of all arguments. -/
theorem map_isSpread_nodes (ns : List Node) :
    (nodes labels ns w).1.map Styled.isSpread = ns.map Styled.isSpread := by
  induction ns generalizing w with
  | nil => rw [nodes_nil]
  | cons n ns ih => rw [nodes_cons, List.map_cons, List.map_cons, isSpread_node, ih]

/-- The pass keeps what is called: `withComponent` of something, or not. -/
theorem isCallee_node (n : Node) :
    WithComponent.isCallee (node labels n w).1 = WithComponent.isCallee n := by
  cases n with
  | leaf a => rw [node_leaf]
  | run ns => rw [node_run]; rfl
  | inner k h ps =>
    -- Only a member access can be called so, and its name is a word, which stays.
    by_cases hmember : k = .member
    · subst hmember
      rw [node_inner_of_ne labels (by decide) (by decide)]
      match ps with
      | [] => rw [nodes_nil]
      | [a] =>
        rw [nodes_cons, nodes_nil]
        rfl
      | [a, b] =>
        rw [nodes_cons, nodes_cons, nodes_nil]
        cases b with
        | leaf l => rw [node_leaf]; cases l <;> rfl
        | run ns => rw [node_run]; rfl
        | inner k h ps =>
          obtain ⟨qs, he⟩ := exists_node_inner (labels.enter .member [a, .inner k h ps]) k h ps
            (node (labels.enter .member [a, .inner k h ps]) a w).2
          rw [he]
          rfl
      | a :: b :: d :: ps =>
        rw [nodes_cons, nodes_cons, nodes_cons]
        simp [WithComponent.isCallee]
    · obtain ⟨qs, he⟩ := exists_node_inner labels k h ps w
      have hnot : ∀ ps, WithComponent.isCallee (.inner k h ps) = false := by
        intro ps
        unfold WithComponent.isCallee
        split
        · next heq =>
          cases heq
          exact absurd rfl hmember
        · rfl
      rw [he, hnot, hnot]

/-- Only a run becomes a run. -/
theorem exists_of_node_run {n : Node} {args : List Node} (h : (node labels n w).1 = .run args) :
    ∃ ns, n = .run ns := by
  cases n with
  | leaf a => rw [node_leaf] at h; cases h
  | run ns => exact ⟨ns, rfl⟩
  | inner k hd ps =>
    obtain ⟨qs, he⟩ := exists_node_inner labels k hd ps w
    rw [he] at h
    cases h

/-- Only a callee with arguments becomes a callee with arguments. -/
theorem exists_of_nodes_call {ps : List Node} {callee : Node} {args : List Node}
    (h : (nodes labels ps w).1 = [callee, .run args]) :
    ∃ callee args, ps = [callee, .run args] := by
  match ps with
  | [] => rw [nodes_nil] at h; cases h
  | [a] => rw [nodes_cons, nodes_nil] at h; cases h
  | [a, b] =>
    rw [nodes_cons, nodes_cons, nodes_nil] at h
    obtain ⟨ns, rfl⟩ := exists_of_node_run labels _ (List.cons.inj (List.cons.inj h).2).1
    exact ⟨a, ns, rfl⟩
  | a :: b :: d :: ps =>
    rw [nodes_cons, nodes_cons, nodes_cons] at h
    exact absurd (congrArg List.length h) (by simp)

/-- Visiting the parts of a node keeps whether it is a `withComponent` call, and which of its
arguments are spread. -/
theorem map_withComponentArgs?_nodes (k : Kind) (h : Head) (ps : List Node) :
    (Node.inner k h (nodes labels ps w).1).withComponentArgs?.map (·.map Styled.isSpread) =
      (Node.inner k h ps).withComponentArgs?.map (·.map Styled.isSpread) := by
  by_cases hcall : ∃ callee args, k = .call ∧ ps = [callee, .run args]
  · obtain ⟨callee, args, rfl, rfl⟩ := hcall
    have hargs := map_isSpread_nodes labels (node labels callee w).2 args
    have hlength := congrArg List.length hargs
    rw [List.length_map, List.length_map] at hlength
    rw [nodes_cons, nodes_cons, nodes_nil, node_run, Node.withComponentArgs?_call,
      Node.withComponentArgs?_call, WithComponent.applies, isCallee_node, hlength,
      ← WithComponent.applies]
    cases WithComponent.applies callee args
    · rfl
    · exact congrArg some hargs
  · rw [Node.withComponentArgs?_of_not_call hcall, Node.withComponentArgs?_of_not_call]
    rintro ⟨callee, args, hk, hps⟩
    obtain ⟨callee, args, rfl⟩ := exists_of_nodes_call labels w hps
    exact hcall ⟨callee, args, hk, rfl⟩

/-- What is asked of the dots of the arguments has the same answer once the parts are visited. -/
theorem any_withComponentArgs?_nodes (p : List Bool → Bool) (k : Kind) (h : Head)
    (ps : List Node) :
    ((Node.inner k h (nodes labels ps w).1).withComponentArgs?.any
        fun args => p (args.map Styled.isSpread)) =
      (Node.inner k h ps).withComponentArgs?.any fun args => p (args.map Styled.isSpread) := by
  have hmap := congrArg (Option.any p) (map_withComponentArgs?_nodes labels w k h ps)
  simpa only [Option.any_map] using hmap

/-- A node takes options once its parts are visited if it took them before. -/
theorem takesOptions_nodes (k : Kind) (h : Head) (ps : List Node) :
    (Node.inner k h (nodes labels ps w).1).takesOptions = (Node.inner k h ps).takesOptions := by
  have hany := any_withComponentArgs?_nodes labels w (fun bs => !bs.any id) k h ps
  simpa only [Node.takesOptions, List.any_map, Function.id_comp] using hany

/-- A node refuses options once its parts are visited if it refused them before. -/
theorem refusesOptions_nodes (k : Kind) (h : Head) (ps : List Node) :
    (Node.inner k h (nodes labels ps w).1).refusesOptions =
      (Node.inner k h ps).refusesOptions := by
  have hany := any_withComponentArgs?_nodes labels w (fun bs => bs.any id) k h ps
  simpa only [Node.refusesOptions, List.any_map, Function.id_comp] using hany

/-! ### What becomes of a call -/

/-- A call that takes options gets them, and one number of the counter is taken. -/
theorem leave_of_takesOptions {h : Head} {ps : List Node}
    (ht : (Node.inner .call h ps).takesOptions = true) :
    GetsOptions w.file.info labels.current w.file.targets h ps
        (leave labels none .call h ps w).1 ∧
      (leave labels none .call h ps w).2 = { w with file := { w.file with
        targets := w.file.targets + 1, scope := w.file.scope.invalidate } } := by
  obtain ⟨args, hargs, hspread⟩ := (Option.any_eq_true _ _).1 ht
  obtain ⟨callee, first, rest, -, rfl, rfl, hrest, happ⟩ := Node.exists_of_withComponentArgs? hargs
  rw [Bool.not_eq_true'] at hspread
  obtain ⟨o, ho⟩ := Styled.exists_options w.file.info (Styled.secondArgument (first :: rest))
    labels.current w.file.targets
  have hmerge : Styled.merge Styled.objectAssign (Styled.secondArgument (first :: rest))
      (Styled.generated w.file.info labels.current true w.file.targets).1 = some o :=
    congrArg Prod.fst ho
  have hset : Styled.setSecond (first :: rest) (some o) = [first, Build.argument o] := by
    match rest, hrest with
    | [], _ => rfl
    | [_], _ => rfl
  have hleave : leave labels none .call h [callee, .run (first :: rest)] w =
      (.call h callee [first, Build.argument o], { w with file := { w.file with
        targets := w.file.targets + 1, scope := w.file.scope.invalidate } }) := by
    simp only [leave, bind_apply, onFile_apply, normalize_apply, happ, hspread, hmerge, hset]
    rfl
  rw [hleave]
  exact ⟨.intro hrest (congrArg Prod.fst ho), rfl⟩

/-- A call that refuses options stays, and is reported. -/
theorem leave_of_refusesOptions {h : Head} {ps : List Node}
    (hr : (Node.inner .call h ps).refusesOptions = true) :
    leave labels none .call h ps w = (.inner .call h ps, { w with
      diagnostics := addReport (Node.inner .call h ps).refusal w.diagnostics }) := by
  obtain ⟨args, hargs, hspread⟩ := (Option.any_eq_true _ _).1 hr
  obtain ⟨callee, first, rest, -, rfl, rfl, -, happ⟩ := Node.exists_of_withComponentArgs? hargs
  simp only [leave, bind_apply, onFile_apply, normalize_apply, happ, hspread]
  rfl

/-- Any other call stays, and so does the state. -/
theorem leave_of_neither {h : Head} {ps : List Node}
    (ht : (Node.inner .call h ps).takesOptions = false)
    (hr : (Node.inner .call h ps).refusesOptions = false) :
    leave labels none .call h ps w = (.inner .call h ps, w) := by
  have hlit : CssProp.literal? .call ps = none := rfl
  have hidle : Kind.isIdle w.file.info .call ps = true := by
    rw [Kind.isIdle, ← Node.takesOptions_or_refusesOptions .call h, ht, hr, hlit,
      Option.isSome_none, Bool.and_false]
    rfl
  exact leave_of_isIdle hidle labels h

/-- What becomes of a call, given what its parts and the state have become: `visited`, and what
the call and the state become behind that: `left`. -/
structure Normalizes (labels : LabelStack) (h : Head) (ps : List Node)
    (visited : List Node × Walk) (left : Node × Walk) : Prop where
  /-- The call itself changes exactly if it takes options. -/
  changes_iff : left.1 ≠ .inner .call h visited.1 ↔
    (Node.inner .call h ps).takesOptions = true
  /-- A call that takes options gets them as its second argument and consumes one number of the
  counter. -/
  taken : (Node.inner .call h ps).takesOptions = true →
    GetsOptions visited.2.file.info labels.current visited.2.file.targets h visited.1 left.1 ∧
      left.2 = { visited.2 with file := { visited.2.file with
        targets := visited.2.file.targets + 1, scope := visited.2.file.scope.invalidate } }
  /-- A call that refuses options is reported; it stays as it is, and so do the counter, the
  injected imports, the index and all else. -/
  refused : (Node.inner .call h ps).refusesOptions = true →
    left = (.inner .call h visited.1, { visited.2 with
      diagnostics := addReport ⟨StyleError.message .withComponentSpread, h.place⟩
        visited.2.diagnostics })
  /-- Nothing happens at any other call. -/
  untouched : (Node.inner .call h ps).takesOptions = false →
    (Node.inner .call h ps).refusesOptions = false → left = (.inner .call h visited.1, visited.2)

/-- **What becomes of a call,** in all states and for all labels. -/
theorem normalizes_node (h : Head) (ps : List Node) :
    Normalizes labels h ps (nodes labels ps w) (node labels (.inner .call h ps) w) := by
  have henter : labels.enter .call ps = labels := rfl
  rw [node_inner_of_enter labels (enter_of_ne (by decide) ps w.file), henter]
  have ht := takesOptions_nodes labels w .call h ps
  have hr := refusesOptions_nodes labels w .call h ps
  generalize nodes labels ps w = visited at ht hr ⊢
  refine ⟨?_, ?_, ?_, ?_⟩
  · rw [← ht]
    refine ⟨fun hne => ?_, fun htaken => (leave_of_takesOptions labels _ htaken).1.ne⟩
    by_contra hnot
    rw [Bool.not_eq_true] at hnot
    cases hrefused : (Node.inner .call h visited.1).refusesOptions with
    | true => exact hne (by rw [leave_of_refusesOptions labels _ hrefused])
    | false => exact hne (by rw [leave_of_neither labels _ hnot hrefused])
  · rw [← ht]
    exact leave_of_takesOptions labels visited.2
  · rw [← hr]
    exact leave_of_refusesOptions labels visited.2
  · rw [← ht, ← hr]
    exact leave_of_neither labels visited.2

/-! ### Counting -/

/-- What visiting the given places does to the counter and to the reports. -/
structure Charges (sites : List Site) (w w' : Walk) : Prop where
  /-- One number is consumed for each call that takes options. -/
  targets : w'.file.targets = w.file.targets + sites.countP (·.node.takesOptions)
  /-- The calls that refuse options are reported, and nothing else. -/
  mem_diagnostics : ∀ d, d ∈ w'.diagnostics ↔ d ∈ w.diagnostics ∨
    ∃ s ∈ sites, s.node.refusesOptions = true ∧ d = s.node.refusal
  /-- No report is made twice. -/
  nodup : w.diagnostics.Nodup → w'.diagnostics.Nodup

variable {labels w} {sites sites' : List Site} {w₁ w₂ : Walk}

/-- A step that leaves the counter and the reports alone. -/
theorem Charges.of_eq (ht : w₁.file.targets = w.file.targets)
    (hd : w₁.diagnostics = w.diagnostics) : Charges [] w w₁ where
  targets := ht
  mem_diagnostics d := by simp [hd]
  nodup h := hd ▸ h

/-- Some places after the other. -/
theorem Charges.append (h : Charges sites w w₁) (h' : Charges sites' w₁ w₂) :
    Charges (sites ++ sites') w w₂ where
  targets := by rw [h'.targets, h.targets, List.countP_append, Nat.add_assoc]
  mem_diagnostics d := by
    rw [h'.mem_diagnostics, h.mem_diagnostics, or_assoc]
    simp only [List.mem_append, or_and_right, exists_or]
  nodup hw := h'.nodup (h.nodup hw)

/-- The order of the places does not matter. -/
theorem Charges.of_perm (h : Charges sites w w₁) (hp : sites.Perm sites') :
    Charges sites' w w₁ where
  targets := by rw [h.targets, hp.countP_eq]
  mem_diagnostics d := by simp only [h.mem_diagnostics, hp.mem_iff]
  nodup := h.nodup

/-- A call charges for itself when it is left. -/
theorem Normalizes.charges {h : Head} {ps : List Node} {visited : List Node × Walk}
    {left : Node × Walk} (hn : Normalizes labels h ps visited left) (above : List Node) :
    Charges [⟨above, .inner .call h ps⟩] visited.2 left.2 := by
  have hboth := Node.not_takesOptions_and_refusesOptions (.inner .call h ps)
  cases ht : (Node.inner .call h ps).takesOptions with
  | true =>
    rw [ht, Bool.true_and] at hboth
    rw [(hn.taken ht).2]
    exact ⟨by simp [ht], by simp [hboth], id⟩
  | false =>
    cases hr : (Node.inner .call h ps).refusesOptions with
    | true =>
      rw [hn.refused hr]
      exact ⟨by simp [ht], fun d => by simp [mem_addReport, hr, Node.refusal, CssProp.placeOf],
        nodup_addReport⟩
    | false =>
      rw [hn.untouched ht hr]
      exact ⟨by simp [ht], by simp [hr], id⟩

/-- A node that is no call charges for nothing. -/
theorem charges_of_ne {k : Kind} (hk : k ≠ .call) (above : List Node) (h : Head)
    (ps : List Node) (w : Walk) : Charges [⟨above, .inner k h ps⟩] w w := by
  have hnone := Node.withComponentArgs?_of_ne hk h ps
  exact ⟨by simp [Node.takesOptions, hnone], by simp [Node.refusesOptions, hnone], id⟩

/-- Several trees are charged for if each of them is. -/
theorem charges_nodes {ns : List Node}
    (h : ∀ n ∈ ns, ∀ above labels w, Charges (n.sites above) w (node labels n w).2)
    (above : List Node) (labels : LabelStack) (w : Walk) :
    Charges (Node.sitesAll above ns) w (nodes labels ns w).2 := by
  induction ns generalizing w with
  | nil =>
    rw [nodes_nil, Node.sitesAll_nil]
    exact .of_eq rfl rfl
  | cons n ns ih =>
    rw [List.forall_mem_cons] at h
    rw [nodes_cons, Node.sitesAll_cons]
    exact (h.1 above labels w).append (ih h.2 _)

/-- The state is left alone when a node is left that is no call. -/
theorem snd_leave_of_ne (labels : LabelStack) (callee : Option Ident) {k : Kind}
    (hk : k ≠ .call) (h : Head) (ps : List Node) (w : Walk) :
    (leave labels callee k h ps w).2 = w := by
  unfold leave
  split
  · rfl
  · exact absurd rfl hk
  · rfl

/-- **A tree charges for its calls,** each of them once. -/
theorem charges_node (n : Node) (above : List Node) (labels : LabelStack) (w : Walk) :
    Charges (n.sites above) w (node labels n w).2 := by
  induction n generalizing above labels w with
  | leaf a =>
    rw [node_leaf, Node.sites_leaf]
    exact .of_eq rfl rfl
  | run ns ih =>
    rw [node_run, Node.sites_run]
    exact charges_nodes ih above labels w
  | inner k h ps ih =>
    -- the parts come first in the pass, and last among the places
    have hparts := charges_nodes ih (.inner k h ps :: above)
    have hperm : (Node.sitesAll (.inner k h ps :: above) ps ++
        [Site.mk above (.inner k h ps)]).Perm ((Node.inner k h ps).sites above) := by
      rw [Node.sites_inner]
      exact List.perm_append_singleton ..
    refine Charges.of_perm ?_ hperm
    by_cases hk : k = .call
    · subst hk
      exact (hparts labels w).append ((normalizes_node labels w h ps).charges above)
    · obtain ⟨-, htargets⟩ := enter_state k ps w.file
      have hentered : Charges [] w { w with file := (CssProp.enter k ps w.file).2 } :=
        .of_eq htargets rfl
      rw [node_inner, snd_leave_of_ne labels _ hk]
      exact (hentered.append (hparts _ _)).append (charges_of_ne hk above h ps _)

/-- **A program charges for its calls,** those in the attributes of imports among them. -/
theorem charges_program (p : Program) (w : Walk) :
    Charges (p.sites sitesOf) w (program p w).2 := by
  cases p with
  | script t => exact charges_nodes (fun n _ => charges_node n) [] LabelStack.empty w
  | module m =>
    have hitems : ∀ (is : List Item) (w : Walk), Charges (is.flatMap sitesOf) w (items is w).2 := by
      intro is
      induction is with
      | nil => exact fun w => .of_eq rfl rfl
      | cons i is ih =>
        intro w
        have hi : Charges (sitesOf i) w (item i w).2 := by
          cases i with
          | importing d => exact charges_node d.attributes [] LabelStack.empty w
          | node n => exact charges_node n [] LabelStack.empty w
        exact hi.append (ih _)
    exact hitems m.body w

end Walk
end StyleLowering
