/-
# The last pass, one node after the other

What the last pass does to identifiers and to the injected imports.  No
identifier gets lost or changes its place; what comes in are uses of the import
that compiled css props call, and of the global `Object` where options are merged
(`Walk.Passes`).  The names in the index are never looked up anew, so the pass
injects under names that are new to the program as it was when the index was
taken.
-/

import StyleLowering.Proofs.Origin
import StyleLowering.Proofs.Recipe.Expand
import StyleLowering.Walk

namespace StyleLowering

/-- A state in which the identifier that compiled css props call, if there is one, is the
right import. -/
structure FileState.InOrder (s : FileState) : Prop where
  valid : s.imports.Valid
  cssBinding : ∀ x, s.cssBinding = some x →
    ∃ i ∈ s.imports.injected, i.binding = x ∧ i.key = cssPropKey

namespace Walk

open Stateful

/-- What comes in. -/
inductive Adds (j : Injector) : Mention → Prop where
  | object : Adds j ⟨.reference, .global "Object"⟩
  | cssProp {i : Injection} (hi : i ∈ j.injected) (h : i.key = cssPropKey) :
      Adds j ⟨.reference, i.binding⟩

/-- The pass takes identifiers `as` to `bs` while the state goes from `s` to `s'`. -/
structure Passes (as : List Mention) (s : FileState) (bs : List Mention) (s' : FileState) :
    Prop where
  inOrder : s'.InOrder
  names : s'.scope.names = s.scope.names
  grows : Injector.Grows s.scope.names s.imports s'.imports
  trace : Trace (· = ·) (Adds s'.imports) true as bs
  used : ∀ i ∈ s'.imports.injected, i ∈ s.imports.injected ∨ Scope.IsUsed i.binding.id bs

variable {as bs cs ds : List Mention} {s s₁ s₂ : FileState}

/-- What may be added still may when more has been injected. -/
theorem Adds.grow {j j' : Injector} (h : j.injected ⊆ j'.injected) {b : Mention}
    (hb : Adds j b) : Adds j' b := by
  cases hb with
  | object => exact .object
  | cssProp hi hk => exact .cssProp (h hi) hk

/-- Identifiers that stay, while the injected imports stay too. -/
theorem Passes.of_eq (h : s.InOrder) (hj : s₁.imports = s.imports)
    (hn : s₁.scope.names = s.scope.names) (hc : s₁.cssBinding = s.cssBinding)
    (t : Trace (· = ·) (Adds s.imports) true as bs) : Passes as s bs s₁ := by
  refine ⟨⟨?_, ?_⟩, hn, ?_, ?_, ?_⟩
  · rw [hj]
    exact h.valid
  · rw [hj, hc]
    exact h.cssBinding
  · rw [hj]
    exact .refl h.valid
  · rw [hj]
    exact t
  · rw [hj]
    exact fun i hi => .inl hi

/-- Identifiers that are left alone are passed on. -/
theorem Passes.refl (h : s.InOrder) (as : List Mention) : Passes as s as s :=
  .of_eq h rfl rfl rfl (.refl fun _ _ => rfl)

/-- What is used among the first identifiers is used among all. -/
theorem isUsed_append_left {x : Id} (h : Scope.IsUsed x as) (bs : List Mention) :
    Scope.IsUsed x (as ++ bs) := by
  obtain ⟨a, ha, hu⟩ := h
  exact ⟨a, List.mem_append_left _ ha, hu⟩

/-- What is used among the last identifiers is used among all. -/
theorem isUsed_append_right {x : Id} (h : Scope.IsUsed x bs) (as : List Mention) :
    Scope.IsUsed x (as ++ bs) := by
  obtain ⟨a, ha, hu⟩ := h
  exact ⟨a, List.mem_append_right _ ha, hu⟩

/-- One tree after the other. -/
theorem Passes.append (h : Passes as s bs s₁) (h' : Passes cs s₁ ds s₂) :
    Passes (as ++ cs) s (bs ++ ds) s₂ where
  inOrder := h'.inOrder
  names := h'.names.trans h.names
  grows := h.grows.trans (h.names ▸ h'.grows)
  trace := (h.trace.mono (fun _ _ _ _ h => h) fun _ _ hb => hb.grow h'.grows.subset).append h'.trace
  used i hi := by
    rcases h'.used i hi with hi | hu
    · exact (h.used i hi).imp_right fun hu => isUsed_append_left hu ds
    · exact .inr (isUsed_append_right hu bs)

/-- One pass behind the other. -/
theorem Passes.trans (h : Passes as s bs s₁) (h' : Passes bs s₁ cs s₂) : Passes as s cs s₂ where
  inOrder := h'.inOrder
  names := h'.names.trans h.names
  grows := h.grows.trans (h.names ▸ h'.grows)
  trace := h.trace.comp h'.trace (fun _ _ _ _ _ hab hbc => hab.trans hbc)
    (fun _ _ _ hb hbc => hbc ▸ hb.grow h'.grows.subset) fun _ hc => hc
  used i hi := by
    rcases h'.used i hi with hi | hu
    · refine (h.used i hi).imp_right ?_
      rintro ⟨b, hb, hu⟩
      obtain ⟨c, hc, rfl⟩ := h'.trace.exists_of_mem_left hb
      exact ⟨b, hc, hu⟩
    · exact .inr hu

/-- What becomes of the state when a css prop is to be compiled: the import to call is
there afterwards, and nothing else has been injected. -/
structure Wants (s s' : FileState) (i : Injection) : Prop where
  inOrder : s'.InOrder
  names : s'.scope.names = s.scope.names
  grows : Injector.Grows s.scope.names s.imports s'.imports
  mem : i ∈ s'.imports.injected
  key : i.key = cssPropKey
  only : ∀ k ∈ s'.imports.injected, k ∈ s.imports.injected ∨ k = i

/-- The import that is wanted is used in front of what is passed on. -/
theorem Passes.wants {i : Injection} (hw : Wants s s₁ i) (h : Passes as s₁ bs s₂) :
    Passes as s (⟨.reference, i.binding⟩ :: bs) s₂ where
  inOrder := h.inOrder
  names := h.names.trans hw.names
  grows := hw.grows.trans (hw.names ▸ h.grows)
  trace := .new (.cssProp (h.grows.subset hw.mem) hw.key) h.trace
  used k hk := by
    rcases h.used k hk with hk | hu
    · refine (hw.only k hk).imp_right ?_
      rintro rfl
      exact ⟨_, List.mem_cons_self .., rfl, rfl⟩
    · exact .inr (isUsed_append_right hu [_])

/-- **What compiled css props call.**  It is the identifier in the state, or the name of an import
that is asked for and then gets into the state. -/
theorem cssIdentifier_cases (s : FileState) {P : Ident × FileState → Prop}
    (known : ∀ x, s.cssBinding = some x → P (x, s))
    (asked : s.cssBinding = none →
      let a := Injector.addDefault s.scope "@emotion/css" "css" s.imports
      P (a.1, { s with imports := a.2, cssBinding := some a.1 })) :
    P (FileState.cssIdentifier s) := by
  simp only [FileState.cssIdentifier, bind_apply, get_apply]
  cases hx : s.cssBinding with
  | some x => exact known x hx
  | none => exact asked hx

/-- **The function that names classes is an injected import**, and nothing else is injected for it.
-/
theorem cssIdentifier_spec (h : s.InOrder) :
    ∃ i, (FileState.cssIdentifier s).1 = i.binding ∧ Wants s (FileState.cssIdentifier s).2 i := by
  refine cssIdentifier_cases s (P := fun p => ∃ i, p.1 = i.binding ∧ Wants s p.2 i)
    (fun x hx => ?_) fun _ => ?_
  · obtain ⟨i, hi, hb, hk⟩ := h.cssBinding x hx
    exact ⟨i, hb.symm, h, rfl, .refl h.valid, hi, hk, fun k hk => .inl hk⟩
  · have ha := Injector.addDefault_spec h.valid s.scope "@emotion/css" "css"
    obtain ⟨i, hi, hb, hk, honly⟩ := ha.import_mem
    refine ⟨i, hb.symm, ⟨ha.grows.valid, ?_⟩, rfl, ha.grows, hi, hk, honly⟩
    rintro x ⟨rfl⟩
    exact ⟨i, hi, hb, hk⟩

/-- The import is asked for exactly where a css prop has to be compiled. -/
theorem enter_apply (k : Kind) (parts : List Node) (s : FileState) :
    CssProp.enter k parts s =
      if s.info.compilesCssProp && (CssProp.literal? k parts).isSome then
        (some (FileState.cssIdentifier s).1, (FileState.invalidate (FileState.cssIdentifier s).2).2)
      else (none, s) := by
  change (ite (_ = true) _ _ : FileM (Option Ident)) s = _
  split <;> rfl

/-- Whether there is a literal to compile, and what is called around it. -/
theorem enter_spec (h : s.InOrder) (k : Kind) (parts : List Node) :
    CssProp.enter k parts s = (none, s) ∨
      ∃ i, (CssProp.enter k parts s).1 = some i.binding ∧
        (CssProp.literal? k parts).isSome = true ∧ Wants s (CssProp.enter k parts s).2 i := by
  rw [enter_apply]
  split
  · next hc =>
    rw [Bool.and_eq_true] at hc
    obtain ⟨i, hb, hw⟩ := cssIdentifier_spec h
    refine .inr ⟨i, congrArg some hb, hc.2, ?_⟩
    exact ⟨⟨hw.inOrder.valid, hw.inOrder.cssBinding⟩, hw.names, hw.grows, hw.mem, hw.key, hw.only⟩
  · exact .inl rfl

/-- Only in attributes is there something to compile. -/
theorem enter_of_ne {k : Kind} (hk : k ≠ .jsxAttribute) (parts : List Node) (s : FileState) :
    CssProp.enter k parts s = (none, s) := by
  have hl : CssProp.literal? k parts = none := by
    unfold CssProp.literal?
    split
    · exact absurd rfl hk
    · rfl
  rw [enter_apply, hl, Option.isSome_none, Bool.and_false]
  rfl

/-- Only an attribute with a value in braces can be a css prop. -/
theorem literal?_isSome {k : Kind} {parts : List Node}
    (h : (CssProp.literal? k parts).isSome = true) :
    k = .jsxAttribute ∧ ∃ w hc v, parts = [.word w, .container hc v] := by
  unfold CssProp.literal? at h
  split at h
  · exact ⟨rfl, _, _, _, rfl⟩
  · cases h

section Equations

variable (labels : LabelStack) (w : Walk)

/-- The last pass leaves leaves alone. -/
theorem node_leaf (a : Leaf) : node labels (.leaf a) w = (.leaf a, w) := by
  rw [node, pure_apply]

/-- The last pass goes through the items of a run. -/
theorem node_run (ns : List Node) :
    node labels (.run ns) w = (.run (nodes labels ns w).1, (nodes labels ns w).2) := by
  rw [node, map_apply]

/-- Going through no trees does nothing. -/
theorem nodes_nil : nodes labels [] w = ([], w) := by
  rw [nodes, pure_apply]

/-- Several trees are gone through in their order. -/
theorem nodes_cons (n : Node) (ns : List Node) :
    nodes labels (n :: ns) w =
      ((node labels n w).1 :: (nodes labels ns (node labels n w).2).1,
        (nodes labels ns (node labels n w).2).2) := by
  simp only [nodes, bind_apply, pure_apply]

/-- What is done to the state of the file leaves the rest of the state alone. -/
theorem onFile_apply {α : Type} (f : FileM α) :
    onFile f w = ((f w.file).1, { w with file := (f w.file).2 }) := rfl

/-- An inner node: first it is looked at whether there is a css prop to compile, then the
parts are visited, and at last the node itself. -/
theorem node_inner (k : Kind) (h : Head) (parts : List Node) :
    node labels (.inner k h parts) w =
      leave labels (CssProp.enter k parts w.file).1 k h
        (nodes (labels.enter k parts) parts
          { w with file := (CssProp.enter k parts w.file).2 }).1
        (nodes (labels.enter k parts) parts
          { w with file := (CssProp.enter k parts w.file).2 }).2 := by
  rw [node]
  simp only [bind_apply, onFile_apply]

/-- Most nodes are left as they are once their parts have been visited, namely all but calls and
attributes with a call to put in. -/
theorem leave_plain {callee : Option Ident} {k : Kind} (hk : k ≠ .call)
    (hnone : k = .jsxAttribute → callee = none) (h : Head) (parts : List Node) :
    leave labels callee k h parts = pure (.inner k h parts) := by
  unfold leave
  split
  · cases hnone rfl
  · exact absurd rfl hk
  · rfl

/-- On the way back, only calls change without a css prop. -/
theorem leave_of_ne {k : Kind} (hk : k ≠ .call) (h : Head) (parts : List Node) :
    leave labels none k h parts w = (.inner k h parts, w) := by
  rw [leave_plain labels hk fun _ => rfl, pure_apply]

/-- On the way back, the value of a css prop is wrapped in a call of the import. -/
theorem leave_cssProp (callee : Ident) (h : Head) (parts : List Node) :
    leave labels (some callee) .jsxAttribute h parts w =
      (.inner .jsxAttribute h (CssProp.wrapParts w.file.info labels.current callee h parts),
        w) := by
  simp only [leave, bind_apply, get_apply, pure_apply]

end Equations
end Walk
end StyleLowering
