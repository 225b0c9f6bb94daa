/-
# How readings pass through a rewrite

A rule says how what is read off a tree may change while the counter for class
names goes on: each thing that was there takes one step, and new things come in
where the rewrites build them.  A rule allows for the generated options of styled
components, so a reading passes through them whatever else is rewritten
(`Reading.Rule.passes_setSecond`).
-/

import StyleLowering.Imports.Injector
import StyleLowering.Proofs.Styled
import StyleLowering.Proofs.Syntax.Reading

namespace StyleLowering

open Multiset

/-- How the things that are read off a tree may change. -/
structure Reading.Rule {α : Type} (c : Reading α) (f : FileInfo) where
  /-- What one thing may become. -/
  step : α → α → Prop
  /-- What may come in while the counter goes from one number to another. -/
  new : Nat → Nat → Multiset α → Prop
  step_refl : ∀ a, step a a
  step_trans : ∀ {a b d}, step a b → step b d → step a d
  new_zero : ∀ s, new s s 0
  new_add : ∀ {s₁ s₂ s₃ as bs}, new s₁ s₂ as → new s₂ s₃ bs → new s₁ s₃ (as + bs)
  new_step : ∀ {s₁ s₂ as bs}, new s₁ s₂ as → Rel step as bs → new s₁ s₂ bs
  /-- Generated options come in, and the literals that hold them. -/
  new_generated : ∀ name isWeb s, new s (Styled.generated f name isWeb s).2
    (Node.readAll c (Styled.generated f name isWeb s).1)
  new_object : ∀ s g, new s s (c.own .object (Head.ofSpan Span.dummy) [.run g])
  /-- Options of the user get generated ones behind them. -/
  extended : ∀ name isWeb s h ps, Rel step (c.own .object h [.run ps])
    (c.own .object h [.run (ps ++ (Styled.generated f name isWeb s).1)])
  /-- Declarations of injected imports come in. -/
  new_declaration : ∀ s (i : Injection), new s s (i.toRequire.read c)

namespace Reading.Rule

variable {α : Type} {c : Reading α} {f : FileInfo} (R : c.Rule f)

/-- What is read goes from `as` to `bs` while the counter goes from `s` to `s'`. -/
def Passes (as : Multiset α) (s : Nat) (bs : Multiset α) (s' : Nat) : Prop :=
  ∃ image added, Rel R.step as image ∧ R.new s s' added ∧ bs = image + added

variable {R} {as bs as' bs' cs : Multiset α} {s s₁ s₂ : Nat}

/-- Everything may take the step of staying. -/
theorem rel_step_refl (as : Multiset α) : Rel R.step as as :=
  rel_refl_of_refl_on fun a _ => R.step_refl a

/-- What is only changed step by step passes. -/
theorem Passes.of_rel (h : Rel R.step as bs) (s : Nat) : R.Passes as s bs s :=
  ⟨bs, 0, h, R.new_zero s, (add_zero bs).symm⟩

/-- Nothing happens, and nothing comes in. -/
theorem Passes.refl (as : Multiset α) (s : Nat) : R.Passes as s as s :=
  .of_rel (rel_step_refl as) s

/-- What may come in comes in. -/
theorem Passes.of_new (h : R.new s s₁ bs) : R.Passes 0 s bs s₁ :=
  ⟨0, bs, Rel.zero, h, (zero_add bs).symm⟩

/-- One part after the other. -/
theorem Passes.add (h : R.Passes as s bs s₁) (h' : R.Passes as' s₁ bs' s₂) :
    R.Passes (as + as') s (bs + bs') s₂ := by
  obtain ⟨image, added, hrel, hnew, rfl⟩ := h
  obtain ⟨image', added', hrel', hnew', rfl⟩ := h'
  exact ⟨image + image', added + added', hrel.add hrel', R.new_add hnew hnew',
    add_add_add_comm ..⟩

/-- One pass behind the other. -/
theorem Passes.trans (h : R.Passes as s bs s₁) (h' : R.Passes bs s₁ cs s₂) :
    R.Passes as s cs s₂ := by
  obtain ⟨image, added, hrel, hnew, rfl⟩ := h
  obtain ⟨image', added', hrel', hnew', rfl⟩ := h'
  obtain ⟨kept, grown, hkept, hgrown, rfl⟩ := rel_add_left.1 hrel'
  have : IsTrans α R.step := ⟨fun _ _ _ => R.step_trans⟩
  exact ⟨kept, grown + added', hrel.trans _ hkept,
    R.new_add (R.new_step hnew hgrown) hnew', add_assoc ..⟩

end Reading.Rule

namespace Styled

variable {α : Type} {c : Reading α}

/-- What is read off an argument is read off its expression. -/
theorem read_argumentOf {a e : Node} (h : argumentOf a = some e) : a.read c = e.read c := by
  unfold argumentOf at h
  split at h
  · cases h
    exact Node.read_argument c _ _
  · cases h
    rw [Node.read_inner_of_isFrame c rfl, Node.readAll_cons, Node.readAll_nil, add_zero]
  · cases h

/-- Nothing is read off the function that merges options. -/
theorem read_objectAssign : objectAssign.read c = 0 := by
  rw [objectAssign, Build.member, Node.read_member, Build.reference, Build.word, Node.read_leaf,
    Node.read_leaf, add_zero]

end Styled

namespace Reading.Rule

variable {α : Type} {c : Reading α} {f : FileInfo} (R : c.Rule f)

open Styled

/-- What is read off the merging function, if options have to be merged with it. -/
def assignRead (c : Reading α) (assign : Node) (existing : Option Node) (g : List Node) :
    Multiset α :=
  if needsAssign existing g then assign.read c else 0

/-- A literal comes in around what is in it. -/
theorem passes_object (g : List Node) (s : Nat) :
    R.Passes (Node.readAll c g) s ((Build.object g).read c) s := by
  rw [Build.object, Node.read_object]
  simpa using (Passes.of_new (R.new_object s g)).add (.refl (Node.readAll c g) s)

/-- Options that are no object literal pass when they are merged by a call. -/
theorem passes_merge_call (assign : Node) {e : Node} {g : List Node}
    (h : needsAssign (some e) g = true) (s : Nat) :
    R.Passes (e.read c + Node.readAll c g + assign.read c) s
      (Node.readAll c (merge assign (some e) g).toList) s := by
  have hempty : R.Passes 0 s ((Build.object []).read c) s := by
    simpa using R.passes_object [] s
  have hpasses := ((hempty.add (R.passes_object g s)).add (.refl (e.read c) s)).add
    (.refl (assign.read c) s)
  have hresult : Node.readAll c (merge assign (some e) g).toList =
      (Build.object []).read c + (Build.object g).read c + e.read c + assign.read c := by
    rw [merge_of_needsAssign h]
    simp only [Option.toList_some, Node.readAll_cons, Node.readAll_nil, add_zero, Build.call,
      Node.read_call, Build.argument, Node.read_argument]
    ac_rfl
  rw [hresult]
  convert hpasses using 1
  rw [zero_add]
  ac_rfl

/-- Options pass when they are merged with generated ones. -/
theorem passes_merge (assign : Node) (existing : Option Node) (name : Option String)
    (isWeb : Bool) (s₀ s : Nat) {g : List Node} (hg : g = (generated f name isWeb s₀).1) :
    R.Passes (Node.readAll c existing.toList + Node.readAll c g + assignRead c assign existing g) s
      (Node.readAll c (merge assign existing g).toList) s := by
  unfold assignRead
  cases existing with
  | none =>
    cases g with
    | nil => simpa [merge] using Passes.refl (R := R) 0 s
    | cons p g => simpa [merge, needsAssign] using R.passes_object (p :: g) s
  | some e =>
    by_cases hnil : g = []
    · rw [hnil]
      simpa [merge] using Passes.refl (R := R) (e.read c) s
    by_cases he : ∃ h ps, e = .object h ps
    · obtain ⟨h, ps, rfl⟩ := he
      have hextended := R.extended name isWeb s₀ h ps
      rw [← hg] at hextended
      have hpasses := (Passes.of_rel hextended s).add
        (Passes.refl (Node.readAll c ps + Node.readAll c g) s)
      rw [merge_object hnil]
      simpa [needsAssign, Node.read_object, add_assoc] using hpasses
    · have hneeds : needsAssign (some e) g = true := needsAssign_some.2 ⟨hnil, he⟩
      rw [hneeds, if_pos rfl]
      simpa using R.passes_merge_call assign hneeds s

/-- **Arguments pass when generated options are merged into the second one.** -/
theorem passes_setSecond (assign first : Node) {rest : List Node}
    (hrest : ∀ a ∈ rest, a.isArgument = true) (name : Option String) (isWeb : Bool) (s₀ s : Nat)
    {g : List Node} (hg : g = (generated f name isWeb s₀).1) :
    R.Passes (Node.readAll c (first :: rest) + Node.readAll c g +
        assignRead c assign (secondArgument (first :: rest)) g) s
      (Node.readAll c (setSecond (first :: rest)
        (merge assign (secondArgument (first :: rest)) g))) s := by
  have hmerge := R.passes_merge assign (secondArgument (first :: rest)) name isWeb s₀ s hg
  have hargument : ∀ o : Node, (Build.argument o).read c = o.read c := fun o =>
    Node.read_argument c _ o
  cases rest with
  | nil =>
    have hs : secondArgument [first] = none := rfl
    rw [hs] at hmerge ⊢
    have hpasses := (Passes.refl (first.read c) s).add hmerge
    cases hm : merge assign none g with
    | none => simpa [setSecond, hm, add_assoc] using hpasses
    | some o => simpa [setSecond, hm, hargument, add_assoc] using hpasses
  | cons a rest =>
    obtain ⟨e, he, -, -⟩ := argumentOf_of_isArgument (hrest a (List.mem_cons_self ..))
    have hs : secondArgument (first :: a :: rest) = some e := he
    have ha : a.read c = e.read c := read_argumentOf he
    rw [hs] at hmerge ⊢
    have hpasses := ((Passes.refl (first.read c) s).add hmerge).add
      (.refl (Node.readAll c rest) s)
    obtain ⟨o, ho⟩ := exists_merge assign e g
    have hresult : Node.readAll c (setSecond (first :: a :: rest) (merge assign (some e) g)) =
        first.read c + Node.readAll c (merge assign (some e) g).toList + Node.readAll c rest := by
      simp only [ho, setSecond, Option.toList_some, Node.readAll_cons, Node.readAll_nil, hargument,
        add_zero, add_assoc]
    rw [hresult]
    convert hpasses using 1
    simp only [Option.toList_some, Node.readAll_cons, Node.readAll_nil, add_zero, ha]
    ac_rfl

end Reading.Rule
end StyleLowering
