/-
# Who wins when options are merged

The user of a styled component may give options that name the same things as the
generated ones.  Behind the properties of an object literal the generated ones stand
last, and win.  Any other expression is merged by `Object.assign` as its last source,
and then it is the user who wins (`Styled.options_precedence`).  Parentheses around an
object literal are enough to make it such an expression.
-/

import StyleLowering.Proofs.Css.Label
import StyleLowering.Proofs.Properties
import StyleLowering.Proofs.Styled

namespace StyleLowering
namespace Styled

variable {V : Type}

/-- The text that is generated as a label: what is left of the name, if there are labels and
anything is left of it. -/
def labelText? (f : FileInfo) : Option String → Option String
  | none => none
  | some name =>
    if f.autoLabel = true ∧ Css.labelCharacters name ≠ [] then
      some (String.ofList (Css.labelCharacters name))
    else none

/-- The text that is generated for a key: a class name as `target` on the web, and a label. -/
def generatedText? (f : FileInfo) (name : Option String) (isWeb : Bool) (s : Nat)
    (key : ObjectKey) : Option String :=
  if key = .text "target" then if isWeb then some (className f s) else none
  else if key = .text "label" then labelText? f name
  else none

variable (M : Meaning V) (f : FileInfo) (existing : Option Node) (name : Option String)
  (isWeb : Bool) (s : Nat)

/-- The generated options as the properties of an object. -/
def generatedProperties : Properties V := fun key =>
  (generatedText? f name isWeb s key).map M.ofText

/-! ### Generated options as an object -/

/-- A property with any key but `__proto__` sets the slot of its key. -/
theorem slots_property {key : String} (hkey : key ≠ "__proto__") (value : String) (P : Slots V) :
    M.slots (Build.property key value) P =
      Function.update P (.text key) (some (.value (M.ofText value))) := by
  rw [Build.property, Meaning.slots]
  simp [Build.word, Build.text, Node.namesPrototype, Meaning.keyOf, Meaning.valueOf, hkey]

/-- Generated options are a class name and a label, where these are to be had. -/
theorem fst_generated : (generated f name isWeb s).1 =
    (if isWeb then [Build.property "target" (className f s)] else []) ++
      (labelText? f name).toList.map (Build.property "label") := by
  have hlabel : (labelText? f name).toList.map (Build.property "label") =
      if f.autoLabel then (Css.label? name).toList.map (Build.property "label") else [] := by
    cases name with
    | none => rw [Css.label?_none]; split <;> rfl
    | some name =>
      rw [labelText?, Css.label?_some]
      by_cases hnil : Css.labelCharacters name = [] <;> cases f.autoLabel <;> simp [hnil]
  rw [hlabel]
  cases isWeb <;> rfl

/-- There are generated options exactly if there is one for some key. -/
theorem generated_eq_nil_iff :
    (generated f name isWeb s).1 = [] ↔ ∀ key, generatedText? f name isWeb s key = none := by
  rw [fst_generated]
  constructor
  · intro h key
    rw [List.append_eq_nil_iff] at h
    unfold generatedText?
    split
    · exact if_neg fun hw => by simp [hw] at h
    · split
      · simpa using h.2
      · rfl
  · intro h
    have ht : isWeb = false := by simpa [generatedText?] using h (.text "target")
    have hl : labelText? f name = none := by
      simpa [generatedText?] using h (.text "label")
    rw [ht, hl]
    rfl

/-- Generated options take the places of what is there under their keys. -/
theorem slotsAll_generated (P : Slots V) (key : ObjectKey) :
    M.slotsAll (generated f name isWeb s).1 P key =
      ((generatedText? f name isWeb s key).map (.value ∘ M.ofText)).or (P key) := by
  rw [fst_generated, generatedText?]
  by_cases ht : key = .text "target"
  · subst ht
    cases isWeb <;> cases labelText? f name <;>
      simp [Meaning.slotsAll, slots_property]
  by_cases hl : key = .text "label"
  · subst hl
    cases isWeb <;> cases labelText? f name <;>
      simp [Meaning.slotsAll, slots_property]
  · cases isWeb <;> cases labelText? f name <;>
      simp [Meaning.slotsAll, slots_property, ht, hl]

/-- Properties with the generated ones behind them, read as an object. -/
theorem readSlots_generated (P : Slots V) :
    M.readSlots (M.slotsAll (generated f name isWeb s).1 P) =
      (generatedProperties M f name isWeb s).over (M.readSlots P) := by
  funext key
  rw [Meaning.readSlots, slotsAll_generated, Properties.over, generatedProperties]
  cases generatedText? f name isWeb s key <;> rfl

/-- The properties of a literal of generated properties. -/
theorem properties_generated (h : Head) :
    M.properties (.object h (generated f name isWeb s).1) =
      generatedProperties M f name isWeb s := by
  rw [Meaning.properties_object, readSlots_generated]
  funext key
  exact Option.or_none

/-- No prototype is generated. -/
theorem assignable_generatedProperties :
    (generatedProperties M f name isWeb s).assignable = generatedProperties M f name isWeb s := by
  funext key
  unfold Properties.assignable
  split
  · next h =>
    subst h
    rfl
  · rfl

/-! ### Options merged -/

/-- The options are made of those of the user and the generated ones. -/
theorem options_fst : (options f existing name isWeb s).1 =
    merge objectAssign existing (generated f name isWeb s).1 := rfl

/-- Behind the properties of an object literal the generated ones win. -/
theorem options_object (h : Head) (ps : List Node) :
    ∃ o, (options f (some (.object h ps)) name isWeb s).1 = some o ∧ M.properties o =
      (generatedProperties M f name isWeb s).over (M.properties (.object h ps)) := by
  refine ⟨.object h (ps ++ (generated f name isWeb s).1), ?_, ?_⟩
  · rw [options_fst]
    cases (generated f name isWeb s).1 <;> simp [merge]
  · rw [Meaning.properties_object, Meaning.slotsAll_append, readSlots_generated,
      ← Meaning.properties_object M h ps]

/-- What is merged by `Object.assign` wins over the generated options. -/
theorem options_of_not_object {e : Node} (he : ¬∃ h ps, e = .object h ps)
    (hsome : ∃ key, generatedText? f name isWeb s key ≠ none) :
    ∃ o, (options f (some e) name isWeb s).1 = some o ∧ M.properties o =
      (M.properties e).assignable.over (generatedProperties M f name isWeb s) := by
  have hne : (generated f name isWeb s).1 ≠ [] := fun hnil =>
    hsome.elim fun key hkey => hkey ((generated_eq_nil_iff f name isWeb s).1 hnil key)
  have ho : (options f (some e) name isWeb s).1 = some (Build.call Span.dummy objectAssign
      [Build.argument (Build.object []), Build.argument (Build.object (generated f name isWeb s).1),
        Build.argument e]) :=
    merge_of_needsAssign (needsAssign_some.2 ⟨hne, he⟩)
  refine ⟨_, ho, ?_⟩
  have hassign : objectAssign.isObjectAssign = true := by decide
  rw [Build.call, Build.object, Build.object, Build.argument, Build.argument, Build.argument,
    Meaning.properties_objectAssign M hassign, properties_generated,
    assignable_generatedProperties]

/-- What the options of a styled component are as an object. -/
structure Precedence : Prop where
  /-- There are none if neither the user gives any nor any are generated. -/
  none_iff : (options f existing name isWeb s).1 = none ↔
    existing = none ∧ ∀ key, generatedText? f name isWeb s key = none
  /-- Without options of the user they are the generated ones. -/
  alone : existing = none → ∀ o, (options f existing name isWeb s).1 = some o →
    M.properties o = generatedProperties M f name isWeb s
  /-- An object literal gets the generated ones behind its own, and they win. -/
  literal : ∀ h ps, existing = some (.object h ps) →
    ∃ o, (options f existing name isWeb s).1 = some o ∧ M.properties o =
      (generatedProperties M f name isWeb s).over (M.properties (.object h ps))
  /-- Where nothing is generated, the options of the user stay. -/
  unchanged : (∀ key, generatedText? f name isWeb s key = none) →
    (options f existing name isWeb s).1 = existing
  /-- Any other expression wins over the generated ones, prototypes apart. -/
  merged : ∀ e, existing = some e → (¬∃ h ps, e = .object h ps) →
    (∃ key, generatedText? f name isWeb s key ≠ none) →
      ∃ o, (options f existing name isWeb s).1 = some o ∧ M.properties o =
        (M.properties e).assignable.over (generatedProperties M f name isWeb s)

/-- **Who wins when options are merged.**  The generated options win over the properties of an
object literal, and any other expression of the user wins over the generated options. -/
theorem options_precedence : Precedence M f existing name isWeb s where
  none_iff := by
    rw [options_fst, ← generated_eq_nil_iff]
    cases existing with
    | none => cases (generated f name isWeb s).1 <;> simp [merge]
    | some e =>
      obtain ⟨o, ho⟩ := exists_merge objectAssign e (generated f name isWeb s).1
      simp [ho]
  alone := by
    rintro rfl o ho
    rw [options_fst] at ho
    cases hg : (generated f name isWeb s).1 with
    | nil => simp [hg, merge] at ho
    | cons p g =>
      rw [hg, merge, ← hg] at ho
      · cases ho
        rw [Build.object, properties_generated]
      · simp
  literal := by
    rintro h ps rfl
    exact options_object M f name isWeb s h ps
  unchanged hnone := by
    rw [options_fst, (generated_eq_nil_iff f name isWeb s).2 hnone]
    cases existing <;> rfl
  merged := by
    rintro e rfl he hsome
    exact options_of_not_object M f name isWeb s he hsome

/-- A program in which every expression has a property `__proto__` of its own. -/
def protoEverywhere : Meaning String where
  ofText := id
  undefined := "undefined"
  value _ := ""
  key _ := .text ""
  own _ key := if key = .proto then some "proto" else none

/-- Nothing is known about the file, and there are no labels. -/
def bareInfo : FileInfo := FileInfo.ofOptions {} ⟨none, "", none⟩ false

/-- It is not so that the generated options always win, nor that every other key keeps what the
user maps it to: in parentheses `{ target: "mine" }` keeps its target, and `Object.assign` drops
a key `__proto__`. -/
theorem not_forall_generated_win :
    (¬∀ (M : Meaning String) (f : FileInfo) (e o : Node) (key : ObjectKey) (value : String),
      (options f (some e) none true 0).1 = some o →
        generatedText? f none true 0 key = some value →
          M.properties o key = some (M.ofText value)) ∧
    ¬∀ (M : Meaning String) (f : FileInfo) (e o : Node) (key : ObjectKey),
      (options f (some e) none true 0).1 = some o →
        generatedText? f none true 0 key = none → M.properties o key = M.properties e key := by
  have hsome : ∃ key, generatedText? bareInfo none true 0 key ≠ none := ⟨.text "target", by decide⟩
  constructor
  · intro h
    obtain ⟨o, ho, hp⟩ := options_of_not_object protoEverywhere bareInfo none true 0
      (e := .inner .paren Head.empty [.object Head.empty [Build.property "target" "mine"]])
      (by simp) hsome
    have hwins := h protoEverywhere bareInfo _ o (.text "target") _ ho rfl
    rw [hp] at hwins
    revert hwins
    decide +kernel
  · intro h
    obtain ⟨o, ho, hp⟩ := options_of_not_object protoEverywhere bareInfo none true 0
      (e := Build.reference (.global "options")) (by simp [Build.reference]) hsome
    have hkeeps := h protoEverywhere bareInfo _ o .proto ho rfl
    rw [hp] at hkeeps
    revert hkeeps
    decide +kernel

end Styled
end StyleLowering
