/-
# Class names are unique and without gaps

The `target` properties that a run puts into the options of styled components
have the class names of the file as their values, from the one with the number
zero on, each of them once, and the counter at the end is how many there are
(`Transform.run_classNames`).  So no number is used up without its property being
in the output, and no generated options get lost or are doubled by a later
rewrite.
-/

import StyleLowering.Proofs.Transform.Passage
import Mathlib.Data.List.Nodup
import Std.Data.String.ToNat

namespace StyleLowering

/-- The class name in a `target` property of the form in which it is generated. -/
def generatedTarget? (k : Kind) (h : Head) (parts : List Node) : Option String :=
  match k, parts.map Node.literal? with
  | .keyValue, [some (.word w), some (.text t)] =>
    if h = Head.empty ∧ w = ⟨Span.dummy, "target"⟩ ∧ t = ⟨Span.dummy, t.value, none⟩ then
      some t.value
    else none
  | _, _ => none

/-- A property is a generated target if it has been built as one. -/
theorem generatedTarget?_eq_some {k : Kind} {h : Head} {parts : List Node} {name : String} :
    generatedTarget? k h parts = some name ↔
      Node.inner k h parts = Build.property "target" name := by
  constructor
  · intro hn
    unfold generatedTarget? at hn
    split at hn
    · next w t hparts =>
      rw [Option.ite_none_right_eq_some] at hn
      obtain ⟨⟨rfl, rfl, ht⟩, hname⟩ := hn
      cases hname
      obtain ⟨key, rest, rfl, hkey, hrest⟩ := List.map_eq_cons_iff.1 hparts
      obtain ⟨value, others, rfl, hvalue, hothers⟩ := List.map_eq_cons_iff.1 hrest
      rw [List.map_eq_nil_iff.1 hothers, (Node.literal?_eq_some.1 hkey).1,
        (Node.literal?_eq_some.1 hvalue).1, ht]
      rfl
    · cases hn
  · intro hn
    cases hn
    simp [generatedTarget?, Build.word, Build.text, Node.literal?]

/-- A reading of the class names in generated `target` properties. -/
def generatedTargets : Reading String where
  own k h parts := ((generatedTarget? k h parts).toList : Multiset String)
  own_frame := by
    intro k hk h parts
    cases hn : generatedTarget? k h parts with
    | none => rfl
    | some name =>
      have hproperty := generatedTarget?_eq_some.1 hn
      cases hproperty
      cases hk
  own_shorthand _ _ := rfl

/-- Nothing is read off a node that is no property. -/
theorem own_generatedTargets_of_ne {k : Kind} (hk : k ≠ .keyValue) (h : Head)
    (parts : List Node) : generatedTargets.own k h parts = 0 := by
  have hn : generatedTarget? k h parts = none := by
    rw [Option.eq_none_iff_forall_ne_some]
    intro name hn
    cases generatedTarget?_eq_some.1 hn
    exact hk rfl
  exact congrArg (fun o : Option String => (o.toList : Multiset String)) hn

/-- What is read off a generated property is its value, if it is a `target`. -/
theorem read_property (key value : String) :
    (Build.property key value).read generatedTargets = if key = "target" then {value} else 0 := by
  have hread : (Build.property key value).read generatedTargets =
      ((generatedTarget? .keyValue Head.empty [Build.word key, Build.text value]).toList :
        Multiset String) := by
    rw [Build.property, Node.read_inner]
    simp [Build.word, Build.text, generatedTargets]
  have hname : generatedTarget? .keyValue Head.empty [Build.word key, Build.text value] =
      if key = "target" then some value else none := by
    simp [generatedTarget?, Build.word, Build.text, Node.literal?]
  rw [hread, hname]
  split <;> rfl

namespace Styled

/-- Class names with different numbers are different. -/
theorem className_injective (f : FileInfo) : Function.Injective (className f) := by
  intro m n h
  exact Nat.repr_inj.1 ((String.append_right_inj _).1 h)

/-- The class names with the numbers from `s` to `s' - 1`. -/
def classNames (f : FileInfo) (s s' : Nat) : Multiset String :=
  ((List.range' s (s' - s)).map (className f) : Multiset String)

/-- No class names come of a counter that stays. -/
theorem classNames_self (f : FileInfo) (s : Nat) : classNames f s s = 0 := by
  rw [classNames, Nat.sub_self]
  rfl

/-- One step of the counter is one class name. -/
theorem classNames_succ (f : FileInfo) (s : Nat) : classNames f s (s + 1) = {className f s} := by
  rw [classNames, Nat.add_sub_cancel_left]
  rfl

/-- The class names of two stretches of the counter are those of both. -/
theorem classNames_add (f : FileInfo) {s₁ s₂ s₃ : Nat} (h : s₁ ≤ s₂) (h' : s₂ ≤ s₃) :
    classNames f s₁ s₂ + classNames f s₂ s₃ = classNames f s₁ s₃ := by
  have hrange : List.range' s₁ (s₂ - s₁) ++ List.range' s₂ (s₃ - s₂) =
      List.range' s₁ (s₃ - s₁) := by
    have happend := List.range'_append_1 (s := s₁) (m := s₂ - s₁) (n := s₃ - s₂)
    have hlength : s₂ - s₁ + (s₃ - s₂) = s₃ - s₁ := by omega
    rwa [Nat.add_sub_of_le h, hlength] at happend
  rw [classNames, classNames, Multiset.coe_add, ← List.map_append, hrange, classNames]

/-- **Generated options have the next class name, on the web.** -/
theorem readAll_generated (f : FileInfo) (name : Option String) (isWeb : Bool) (s : Nat) :
    s ≤ (generated f name isWeb s).2 ∧
      Node.readAll generatedTargets (generated f name isWeb s).1 =
        classNames f s (generated f name isWeb s).2 := by
  have hlabel : Node.readAll generatedTargets (if f.autoLabel then
      (Css.label? name).toList.map (Build.property "label") else []) = 0 := by
    refine Node.readAll_eq_zero _ fun n hn => ?_
    split at hn
    · obtain ⟨label, -, rfl⟩ := List.mem_map.1 hn
      rw [read_property, if_neg (by decide)]
    · exact absurd hn List.not_mem_nil
  cases isWeb with
  | true =>
    have hg : generated f name true s = ([Build.property "target" (className f s)] ++
      (if f.autoLabel then (Css.label? name).toList.map (Build.property "label") else []),
      s + 1) := rfl
    rw [hg]
    refine ⟨Nat.le_succ s, ?_⟩
    dsimp only
    rw [Node.readAll_append, hlabel, Node.readAll_cons, Node.readAll_nil, read_property, if_pos rfl,
      classNames_succ, add_zero, add_zero]
  | false =>
    have hg : generated f name false s = ([] ++ (if f.autoLabel then
      (Css.label? name).toList.map (Build.property "label") else []), s) := rfl
    rw [hg]
    refine ⟨Nat.le_refl s, ?_⟩
    dsimp only
    rw [List.nil_append, hlabel, classNames_self]

end Styled

/-- Class names stay where they are, and the next ones come in when the counter goes on. -/
def classNameRule (f : FileInfo) : generatedTargets.Rule f where
  step := (· = ·)
  new s s' names := s ≤ s' ∧ names = Styled.classNames f s s'
  step_refl _ := rfl
  step_trans h h' := h.trans h'
  new_zero s := ⟨Nat.le_refl s, (Styled.classNames_self f s).symm⟩
  new_add := by
    rintro s₁ s₂ s₃ _ _ ⟨h, rfl⟩ ⟨h', rfl⟩
    exact ⟨h.trans h', Styled.classNames_add f h h'⟩
  new_step := by
    intro s₁ s₂ as bs h hrel
    rw [Multiset.rel_eq] at hrel
    exact hrel ▸ h
  new_generated := Styled.readAll_generated f
  new_object s g := by
    rw [own_generatedTargets_of_ne (by decide)]
    exact ⟨Nat.le_refl s, (Styled.classNames_self f s).symm⟩
  extended name isWeb s h ps := by
    rw [own_generatedTargets_of_ne (by decide), own_generatedTargets_of_ne (by decide)]
    exact Multiset.Rel.zero
  new_declaration s i := by
    have hread : i.toRequire.read generatedTargets = 0 := by
      simp [Injection.toRequire, Build.declaration, Build.member, Build.call, Build.reference,
        Build.word, Build.argument, Node.read_inner, own_generatedTargets_of_ne]
    rw [hread]
    exact ⟨Nat.le_refl s, (Styled.classNames_self f s).symm⟩

/-- Only the literal parts of a property decide whether it is a generated target. -/
theorem generatedTarget?_congr {k : Kind} {h : Head} {parts parts' : List Node}
    (hp : parts'.map Node.literal? = parts.map Node.literal?) :
    generatedTargets.own k h parts' = generatedTargets.own k h parts := by
  have hn : generatedTarget? k h parts' = generatedTarget? k h parts := by
    unfold generatedTarget?
    rw [hp]
  exact congrArg (fun o : Option String => (o.toList : Multiset String)) hn

/-- A rewrite keeps the class names that there are. -/
theorem Rewriter.keeps_classNameRule (r : Rewriter) : r.Keeps (classNameRule r.info) := by
  intro labels k h parts s _
  rw [generatedTarget?_congr (map_eq_of_forall₂ (r.forall₂_makes labels parts s)
    fun _ _ _ => r.isRenaming.literal?_eq)]
  exact Reading.Rule.rel_step_refl _

/-- The last pass keeps the class names that there are. -/
theorem Walk.keeps_classNameRule (f : FileInfo) : Walk.Keeps (classNameRule f) := by
  intro labels k h parts w _ _
  rw [generatedTarget?_congr (map_eq_of_forall₂ (forall₂_makes labels parts w)
    fun _ _ _ => isRenaming.literal?_eq)]
  exact Reading.Rule.rel_step_refl _

namespace Transform

variable {p : Program}

/-- The class names of a run: those that the program has in `target` properties of the
generated form, and `k` new ones, each of them once. -/
structure NamesClasses (f : FileInfo) (p p' : Program) (ds : List ImportDecl) (k : Nat) :
    Prop where
  kept : ds.Sublist p.imports
  targets : p'.read generatedTargets =
    p.readOutside generatedTargets + readAttributes generatedTargets ds +
      ((List.range k).map (Styled.className f) : Multiset String)
  distinct : ((List.range k).map (Styled.className f)).Nodup

/-- **Class names are unique and without gaps.**  The generated `target` properties in the
output are those that were there before, and one with each class name from the first
one to the number that the counter has at the end. -/
theorem run_classNames (o : Options) (env : FileEnv) (hp : p.wellShaped true = true) :
    NamesClasses (FileState.ofProgram o env p).info p (run o env p).1 (keptImports o env p)
      (run o env p).2.file.targets := by
  obtain ⟨hkept, image, added, hrel, ⟨-, rfl⟩, hread⟩ :=
    run_passes (R := classNameRule (FileState.ofProgram o env p).info) hp
      (fun ts _ => Rewriter.keeps_classNameRule ⟨_, ts⟩) (Walk.keeps_classNameRule _)
  have himage : p.readOutside generatedTargets +
      readAttributes generatedTargets (keptImports o env p) = image := Multiset.rel_eq.1 hrel
  refine ⟨hkept, ?_, List.nodup_range.map (Styled.className_injective _)⟩
  rw [hread, himage, Styled.classNames, List.range_eq_range', Nat.sub_zero]

/-- The module `import styled from "@emotion/styled"; styled(styled.a, {});
x.withComponent("b");`. -/
def threeComponents : Module where
  head := Head.empty
  body :=
    let styled (start : Nat) : Ident := ⟨⟨start, start + 6⟩, 2, "styled", false⟩
    let x : Ident := ⟨⟨63, 64⟩, 2, "x", false⟩
    [.importing ⟨Span.dummy, [.default Span.dummy (styled 8)],
      ⟨Span.dummy, "@emotion/styled", none⟩, .absent, false, "evaluation"⟩,
     .node (.inner .expressionStatement Head.empty
      [.call Head.empty (.ident .reference (styled 38))
        [.argument Head.empty
          (.member Head.empty (.ident .reference (styled 45)) (.word ⟨⟨52, 53⟩, "a"⟩)),
         .argument Head.empty (.object Head.empty [])]]),
     .node (.inner .expressionStatement Head.empty
      [.call Head.empty
        (.member Head.empty (.ident .reference x) (.word ⟨⟨65, 78⟩, "withComponent"⟩))
        [Build.textArgument "b"]])]

/-- Three options are generated for the module, in the import pass and in the last pass. -/
theorem classNames_threeComponents :
    (Program.module threeComponents).wellShaped true = true ∧
      (run {} ⟨some "a.js", "/", none⟩ (.module threeComponents)).1.read generatedTargets =
        Styled.className (FileState.ofProgram {} ⟨some "a.js", "/", none⟩
          (.module threeComponents)).info 0 ::ₘ
        Styled.className (FileState.ofProgram {} ⟨some "a.js", "/", none⟩
          (.module threeComponents)).info 1 ::ₘ
        {Styled.className (FileState.ofProgram {} ⟨some "a.js", "/", none⟩
          (.module threeComponents)).info 2} := by
  have hp : (Program.module threeComponents).wellShaped true = true := by decide
  have h := run_classNames {} ⟨some "a.js", "/", none⟩ hp
  have hcount : (run {} ⟨some "a.js", "/", none⟩ (.module threeComponents)).2.file.targets = 3 := by
    decide +kernel
  have hbefore : (Program.module threeComponents).readOutside generatedTargets +
      readAttributes generatedTargets (keptImports {} ⟨some "a.js", "/", none⟩
        (.module threeComponents)) = 0 := by
    decide +kernel
  refine ⟨hp, ?_⟩
  rw [h.targets, hbefore, hcount, zero_add]
  rfl

end Transform
end StyleLowering
