/-
# Directives and injected imports

A directive counts only as long as nothing but directives stands in front of it, so
where the injected imports go decides whether the directives of a program survive.
Putting them into a script keeps the prologue, the directives in front of all else;
a module gets them in front of everything, and then it has no prologue any more.  So
the prologue of a program is kept exactly if the program is a script, nothing waits
to be put in, or there is no prologue (`Injector.keepsPrologue_iff`).
-/

import StyleLowering.Proofs.Imports.Declarations

namespace StyleLowering

/-- Whether an item is nothing but a string. -/
def Item.isDirective : Item → Bool
  | .importing _ => false
  | .node n => n.isDirective

namespace Program

/-- The items of a program; all those of a script are statements. -/
def items : Program → List Item
  | .module m => m.body
  | .script s => s.body.map .node

/-- The directive prologue: the longest run of directives that a program starts with. -/
def prologue (p : Program) : List Item := p.items.takeWhile Item.isDirective

/-- What stands behind the prologue. -/
def behindPrologue (p : Program) : List Item := p.items.dropWhile Item.isDirective

/-- What an injected import becomes in a program, a declaration or a call of `require`. -/
def declaring : Program → Injection → Item
  | .module _, i => .importing i.toImport
  | .script _, i => .node i.toRequire

/-- A program is its prologue and what stands behind it. -/
theorem prologue_append_behindPrologue (p : Program) : p.prologue ++ p.behindPrologue = p.items :=
  List.takeWhile_append_dropWhile

/-- An import is declared in a module, and required in a script. -/
theorem isWritten_declaring (p : Program) (i : Injection) : i.IsWritten p (p.declaring i) := by
  cases p with
  | module m => exact ⟨_, Injection.isImport_iff.2 rfl, rfl⟩
  | script t => exact ⟨_, Injection.isRequire_iff.2 rfl, rfl⟩

/-- No injected import is a directive. -/
theorem isDirective_declaring (p : Program) (i : Injection) :
    (p.declaring i).isDirective = false := by
  cases p <;> rfl

/-- Behind a program that starts with an injected import nothing counts as a directive. -/
theorem prologue_of_items_eq {p q : Program} {is : List Injection} {rest : List Item}
    (hne : is ≠ []) (h : q.items = is.map p.declaring ++ rest) : q.prologue = [] := by
  obtain ⟨i, is, rfl⟩ := List.exists_cons_of_ne_nil hne
  rw [prologue, h, List.map_cons, List.cons_append,
    List.takeWhile_cons_of_neg (by simp [isDirective_declaring])]

end Program

namespace Injector

variable {j : Injector} {p : Program}

/-- Putting in what waits keeps the prologue of a program: it is the same afterwards, what
waited stands behind it in the order of injection, and then the rest follows as it was. -/
structure KeepsPrologue (j : Injector) (p : Program) : Prop where
  prologue : (j.flush p).prologue = p.prologue
  items : (j.flush p).items = p.prologue ++ j.pending.map p.declaring ++ p.behindPrologue

/-- In a module, what waits is put in at the very start. -/
theorem items_flush_module (j : Injector) (m : Module) :
    (j.flush (.module m)).items = j.pending.map (Program.module m).declaring ++ m.body := rfl

/-- In a script, what waits is put in behind the prologue. -/
theorem items_flush_script (j : Injector) (t : Script) :
    (j.flush (.script t)).items = (Program.script t).prologue ++
      j.pending.map (Program.script t).declaring ++ (Program.script t).behindPrologue := by
  have hdirective : Item.isDirective ∘ Item.node = Node.isDirective := rfl
  rw [Program.prologue, Program.behindPrologue, Program.items, List.takeWhile_map,
    List.dropWhile_map, hdirective, flush, flushScript, Program.items, List.map_append,
    List.map_append, List.map_map]
  rfl

/-- If nothing waits, nothing changes. -/
theorem items_flush_of_nil (h : j.pending = []) (p : Program) : (j.flush p).items = p.items := by
  cases p with
  | module m => rw [items_flush_module, h, List.map_nil, List.nil_append]; rfl
  | script t =>
    rw [items_flush_script, h, List.map_nil, List.append_nil,
      Program.prologue_append_behindPrologue]

/-- Where nothing waits, the prologue stays. -/
theorem keepsPrologue_of_nil (h : j.pending = []) (p : Program) : j.KeepsPrologue p where
  prologue := by rw [Program.prologue, items_flush_of_nil h]; rfl
  items := by
    rw [items_flush_of_nil h, h, List.map_nil, List.append_nil,
      Program.prologue_append_behindPrologue]

/-- In a script, what waits goes behind the prologue and does not lengthen it. -/
theorem keepsPrologue_script (j : Injector) (t : Script) : j.KeepsPrologue (.script t) := by
  by_cases hnil : j.pending = []
  · exact keepsPrologue_of_nil hnil _
  refine ⟨?_, items_flush_script j t⟩
  obtain ⟨i, is, hpending⟩ := List.exists_cons_of_ne_nil hnil
  have hall : ∀ a ∈ (Program.script t).prologue, a.isDirective = true :=
    List.all_eq_true.1 List.all_takeWhile
  rw [Program.prologue, items_flush_script, List.append_assoc,
    List.takeWhile_append_of_pos hall, hpending, List.map_cons, List.cons_append,
    List.takeWhile_cons_of_neg (by simp [Program.isDirective_declaring]), List.append_nil]

/-- In a module, what waits goes in front of everything, so it must not have a prologue. -/
theorem keepsPrologue_module_iff (hne : j.pending ≠ []) (m : Module) :
    j.KeepsPrologue (.module m) ↔ (Program.module m).prologue = [] := by
  have hflush := Program.prologue_of_items_eq hne (items_flush_module j m)
  refine ⟨fun h => h.prologue.symm.trans hflush, fun h => ⟨hflush.trans h.symm, ?_⟩⟩
  have hrest : (Program.module m).behindPrologue = m.body := by
    have happend := (Program.module m).prologue_append_behindPrologue
    rwa [h, List.nil_append] at happend
  rw [items_flush_module, h, List.nil_append, hrest]

/-- **Directives and injected imports.**  The prologue of a program is kept exactly if it is a
script, nothing waits, or it has no prologue.  A module gets what waits in front of all its
items, which stay as they are.  What waits is declared in a module, and required in a script. -/
theorem keepsPrologue_iff (j : Injector) (p : Program) :
    (j.KeepsPrologue p ↔ (∃ t, p = .script t) ∨ j.pending = [] ∨ p.prologue = []) ∧
      (∀ m, p = .module m → (j.flush p).items = j.pending.map p.declaring ++ m.body) ∧
      ∀ i : Injection, i.IsWritten p (p.declaring i) := by
  refine ⟨?_, ?_, p.isWritten_declaring⟩
  · by_cases hnil : j.pending = []
    · simp [hnil, keepsPrologue_of_nil hnil p]
    cases p with
    | script t => simp [keepsPrologue_script j t]
    | module m => simp [keepsPrologue_module_iff hnil m, hnil]
  · rintro m rfl
    exact items_flush_module j m

/-- The module `"use client";`. -/
def onlyDirective : Module where
  head := Head.empty
  body := [.node (.inner .expressionStatement Head.empty [Build.text "use client"])]

/-- The import `import _css from "@emotion/css"` waits. -/
def cssWaits : Injector :=
  let css : Injection := ⟨"@emotion/css", .default, .generated "_css"⟩
  ⟨[css], [css], ["_css"]⟩

/-- A directive of a module is none any more when an import is put in front of it. -/
theorem not_forall_keepsPrologue : ¬∀ (j : Injector) (p : Program), j.KeepsPrologue p := by
  intro h
  have hnil := (keepsPrologue_module_iff (j := cssWaits) (by decide) onlyDirective).1 (h _ _)
  exact absurd (congrArg List.length hnil) (by decide)

end Injector
end StyleLowering
