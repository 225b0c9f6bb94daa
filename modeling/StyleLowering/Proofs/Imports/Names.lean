/-
# Names of injected imports

An injected import has a name in the program, and imports something by name.  The first one is
made up of a hint, and whatever stands in the hint, it is a name of the language
(`Imports.isIdentifierName_firstFree`).  The other one is the text that was asked for.  So the
injected imports bring in names of some sort exactly if these texts are of that sort
(`Injector.spelled_flush`).
-/

import StyleLowering.File.State
import StyleLowering.Proofs.Imports.Injector
import StyleLowering.Proofs.Syntax.Names

namespace StyleLowering

/-- The names that the passes come up with by themselves are of some sort: keys of options, the
globals, the default export, and names made up for imports. -/
structure SpellsGenerated (P : String → Prop) : Prop where
  target : P "target"
  label : P "label"
  object : P "Object"
  assign : P "assign"
  require : P "require"
  default : P "default"
  madeUp : ∀ hint occupied, P (Imports.firstFree (Imports.baseName hint) occupied)

namespace Imports

variable (beyond : Bool → Char → Bool)

/-- All letters and digits are ASCII. -/
theorem toNat_lt_of_isAlphanum {c : Char} (h : c.isAlphanum = true) : c.toNat < 128 := by
  have hascii : ∀ d : Char, d.toNat < 128 → c.val ≤ d.val → c.toNat < 128 := fun d hd hle =>
    Nat.lt_of_le_of_lt (UInt32.le_iff_toNat_le.1 hle) hd
  rcases Bool.or_eq_true_iff.1 h with halpha | hdigit
  · rcases Bool.or_eq_true_iff.1 halpha with hupper | hlower
    · exact hascii 'Z' (by decide) (of_decide_eq_true hupper).2
    · exact hascii 'z' (by decide) (of_decide_eq_true (Bool.and_eq_true_iff.1 hlower).2)
  · exact hascii '9' (by decide) (of_decide_eq_true (Bool.and_eq_true_iff.1 hdigit).2)

/-- A character of a made-up name may stand in a name, if not at its front. -/
theorem isIdentifierChar_of_isNameChar {c : Char} (h : isNameChar c = true) :
    isIdentifierChar beyond false c = true := by
  have hascii : c.toNat < 128 := by
    rw [isNameChar, Bool.or_eq_true, Bool.or_eq_true, beq_iff_eq, beq_iff_eq] at h
    rcases h with (h | rfl) | rfl
    · exact toNat_lt_of_isAlphanum h
    · decide
    · decide
  rw [isIdentifierChar, if_pos hascii]
  rw [isNameChar, Char.isAlphanum] at h
  simp only [Bool.or_eq_true, Bool.and_eq_true, Bool.not_false, and_true] at h ⊢
  tauto

/-- Every candidate for a fresh name is a name of the language. -/
theorem isIdentifierName_candidate (hint : String) (n : Nat) :
    isIdentifierName beyond (candidate (baseName hint) n) = true := by
  have hunderscore : isIdentifierChar beyond true '_' = true := by
    rw [isIdentifierChar, if_pos (by decide)]
    rfl
  have hname : ∃ cs, (candidate (baseName hint) n).toList = '_' :: cs ∧
      ∀ c ∈ cs, isNameChar c = true := by
    have hbase : ∃ cs, (baseName hint).toList = '_' :: cs ∧ ∀ c ∈ cs, isNameChar c = true := by
      refine ⟨_, by rw [baseName, String.toList_ofList], fun c hc => ?_⟩
      obtain ⟨a, -, rfl⟩ := List.mem_map.1 ((List.dropWhile_sublist _).subset hc)
      split
      · assumption
      · rfl
    obtain ⟨cs, hcs, hall⟩ := hbase
    cases n with
    | zero => exact ⟨cs, hcs, hall⟩
    | succ n =>
      refine ⟨cs ++ (Nat.repr (n + 2)).toList, ?_, fun c hc => ?_⟩
      · rw [candidate, String.toList_append, hcs, List.cons_append]
      · rcases List.mem_append.1 hc with hc | hc
        · exact hall c hc
        · rw [Nat.toList_repr] at hc
          have hdigit := Nat.isDigit_of_mem_toDigits (by decide) (by decide) hc
          rw [isNameChar, Char.isAlphanum, hdigit, Bool.or_true]
          rfl
  obtain ⟨cs, hcs, hall⟩ := hname
  rw [isIdentifierName, hcs]
  dsimp only
  rw [hunderscore, Bool.true_and, List.all_eq_true]
  exact fun c hc => isIdentifierChar_of_isNameChar beyond (hall c hc)

/-- **Made-up names are names of the language,** whatever the hint is. -/
theorem isIdentifierName_firstFree (hint : String) (occupied : List String) :
    isIdentifierName beyond (firstFree (baseName hint) occupied) = true := by
  obtain ⟨-, n, hn⟩ := firstFree_spec (baseName hint) occupied
  rw [hn]
  exact isIdentifierName_candidate beyond hint n

end Imports

/-- The passes come up with names of the language only. -/
theorem spellsGenerated_isIdentifierName (beyond : Bool → Char → Bool) :
    SpellsGenerated (isIdentifierName beyond · = true) where
  target := by simp [isIdentifierName, isIdentifierChar]
  label := by simp [isIdentifierName, isIdentifierChar]
  object := by simp [isIdentifierName, isIdentifierChar]
  assign := by simp [isIdentifierName, isIdentifierChar]
  require := by simp [isIdentifierName, isIdentifierChar]
  default := by simp [isIdentifierName, isIdentifierChar]
  madeUp hint occupied := Imports.isIdentifierName_firstFree beyond hint occupied

variable {P Q : String → Prop}

namespace Injector

open Stateful

variable {j j' : Injector}

/-- All injected imports still wait and have names of one sort, and what they import is the default
export or has a name of another sort. -/
structure Within (P Q : String → Prop) (j : Injector) : Prop where
  pending : j.pending = j.injected
  binding : ∀ i ∈ j.injected, P i.binding.name
  exported : ∀ i ∈ j.injected, i.exported = .default ∨ Q i.exported.name

/-- An injector that holds nothing has names of any sort. -/
theorem within_empty : empty.Within P Q where
  pending := rfl
  binding _ h := absurd h List.not_mem_nil
  exported _ h := absurd h List.not_mem_nil

/-- What comes of asking for an export: a name, and an import of the export behind it. -/
structure Gives (P Q : String → Prop) (j : Injector) (exported : Export) (x : Ident)
    (j' : Injector) : Prop where
  name : P x.name
  within : j'.Within P Q
  subset : j.injected ⊆ j'.injected
  exists_mem : ∃ i ∈ j'.injected, i.exported = exported

/-- To ask for an export keeps to the sorts of names. -/
theorem Within.add (hP : SpellsGenerated P) (h : j.Within P Q) (scope : Scope.Index)
    (source : String) {exported : Export} (hint : String)
    (he : exported = .default ∨ Q exported.name) :
    Gives P Q j exported (add scope source exported hint j).1
      (add scope source exported hint j).2 := by
  refine add_cases scope source exported hint j
    (P := fun p => Gives P Q j exported p.1 p.2) (fun i hf => ?_) fun _ => ?_
  · obtain ⟨hi, -, hexported⟩ := mem_of_find? hf
    exact ⟨h.binding i hi, h, List.Subset.refl _, i, hi, hexported⟩
  · have hfresh : P (j.freshName scope hint) := hP.madeUp ..
    refine ⟨hfresh, ⟨congrArg (· ++ _) h.pending, ?_, ?_⟩, List.subset_append_left _ _,
      ⟨source, exported, _⟩, List.mem_append_right _ (List.mem_singleton_self _), rfl⟩
    · exact List.forall_mem_append.2 ⟨h.binding, List.forall_mem_singleton.2 hfresh⟩
    · exact List.forall_mem_append.2 ⟨h.exported, List.forall_mem_singleton.2 he⟩

/-- To ask for an export by its name keeps to the sorts of names. -/
theorem Within.addExport (hP : SpellsGenerated P) (h : j.Within P Q) (scope : Scope.Index)
    (source : String) {name : String} (hn : Q name) :
    Gives P Q j (.ofName name) (addExport scope source name j).1
      (addExport scope source name j).2 := by
  obtain ⟨hint, hadd⟩ := exists_addExport_eq scope source name
  rw [hadd]
  exact h.add hP scope source hint (.inr (by rwa [Export.name_ofName]))

/-! ### Putting them in -/

/-- A declaration for an injected import spells what it imports, and names that are spelled anyway.
-/
theorem spelled_toImport (hP : SpellsGenerated P) (i : Injection) (hb : P i.binding.name) :
    (Item.importing i.toImport).Spelled P ↔ P i.exported.name := by
  have hattributes : i.toImport.attributes.Spelled P := Node.spelled_leaf.2 nofun
  rw [Item.spelled_importing, and_iff_left hattributes, Injection.toImport,
    List.forall_mem_singleton, Injection.specifier]
  cases i.exported with
  | default => exact iff_of_true (List.forall_mem_singleton.2 hb) hP.default
  | named name =>
    dsimp only [ImportSpecifier.names]
    rw [List.forall_mem_cons, List.forall_mem_singleton]
    exact and_iff_right hb

/-- So does a statement of a script. -/
theorem spelled_toRequire (hP : SpellsGenerated P) (i : Injection) (hb : P i.binding.name) :
    i.toRequire.Spelled P ↔ P i.exported.name := by
  have hcallee : (Build.call Span.dummy (Build.reference (.global "require"))
      [Build.argument (.text i.sourceLiteral)]).Spelled P := by
    rw [Build.call, Node.spelled_call, List.forall_mem_singleton, Node.spelled_argument]
    exact ⟨Node.spelled_ident.2 hP.require, Node.spelled_text _⟩
  simp only [Injection.toRequire, Build.declaration, Node.spelled_inner, Node.spelled_run,
    List.forall_mem_singleton, List.forall_mem_cons, Node.spelled_ident, Node.spelled_member]
  tauto

/-- **Putting in what waits** brings in the names that are made up for the imports, and those of
what they import. -/
theorem spelled_flush (hP : SpellsGenerated P) (p : Program)
    (hb : ∀ i ∈ j.pending, P i.binding.name) :
    (j.flush p).Spelled P ↔ p.Spelled P ∧ ∀ i ∈ j.pending, P i.exported.name := by
  cases p with
  | module m =>
    rw [flush, flushModule, Program.spelled_module, Program.spelled_module, and_comm]
    dsimp only
    rw [List.forall_mem_append, List.forall_mem_map]
    exact and_congr_left fun _ => forall₂_congr fun i hi => spelled_toImport hP i (hb i hi)
  | script t =>
    have hbody : (∀ n ∈ t.body, n.Spelled P) ↔
        (∀ n ∈ t.body.takeWhile Node.isDirective, n.Spelled P) ∧
          ∀ n ∈ t.body.dropWhile Node.isDirective, n.Spelled P := by
      rw [← List.forall_mem_append, List.takeWhile_append_dropWhile]
    rw [flush, flushScript, Program.spelled_script, Program.spelled_script, hbody]
    dsimp only
    rw [List.forall_mem_append, List.forall_mem_append, List.forall_mem_map, and_right_comm]
    exact and_congr_right fun _ => forall₂_congr fun i hi => spelled_toRequire hP i (hb i hi)

end Injector

/-! ### In the state of a file -/

/-- The state of a file that has got more imports than there were in `j`, all with names of some
sort, and so has the identifier that compiled css props call. -/
structure FileState.Within (P Q : String → Prop) (j : Injector) (s : FileState) : Prop where
  imports : s.imports.Within P Q
  subset : j.injected ⊆ s.imports.injected
  cssBinding : ∀ x ∈ s.cssBinding, P x.name

namespace FileState

variable {s : FileState} {j j' : Injector}

/-- Fewer imports keep to the sorts of names as well. -/
theorem Within.mono (h : s.Within P Q j') (hj : j.injected ⊆ j'.injected) : s.Within P Q j :=
  ⟨h.imports, List.Subset.trans hj h.subset, h.cssBinding⟩

/-- A state keeps to the sorts of names with its own imports. -/
theorem Within.self (h : s.Within P Q j) : s.Within P Q s.imports :=
  ⟨h.imports, List.Subset.refl _, h.cssBinding⟩

end FileState

end StyleLowering
