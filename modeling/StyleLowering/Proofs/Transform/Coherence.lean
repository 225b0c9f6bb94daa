/-
# The scope index along a run

An index that is not marked as stale ought to be that of the program as it is.  On the way
through a module it is: when the module is entered, after each step of the import pass and
after the last pass (`Transform.Honest`).  Putting in the injected imports changes the module
once more, and nothing marks the index; there a fresh index is right exactly if the names of
the imports have been declared before (`Transform.run_honest`).
-/

import StyleLowering.Proofs.Transform.Origins
import StyleLowering.Proofs.Transform.Phases

namespace StyleLowering

open Stateful

namespace Scope.Index

/-- The places where an identifier is used, declared or not. -/
def usesAt (i : Index) (x : Id) : List Span := (i.uses.filter fun u => u.1 = x).map Prod.snd

/-- An index that says about a program what a new one would say: which bindings it declares,
and where each name is used, in visiting order. -/
structure Coherent (i : Index) (p : Program) : Prop where
  declared : ∀ x, x ∈ i.declared ↔ x ∈ (ofProgram p).declared
  usesAt : ∀ x, i.usesAt x = (ofProgram p).usesAt x

/-- An index that is coherent unless it is marked as stale. -/
def Honest (i : Index) (p : Program) : Prop := i.stale = false → i.Coherent p

variable {i : Index} {p : Program}

/-- An index with the declarations and the uses of a program is coherent. -/
theorem coherent_of_eq (hd : i.declared = declaredOf p.mentions)
    (hu : i.uses = usesOf p.mentions) : i.Coherent p where
  declared x := by rw [hd]; rfl
  usesAt x := by rw [usesAt, hu]; rfl

/-- An index that is up to date or stale is honest. -/
theorem IsCurrent.honest (h : i.IsCurrent p) : i.Honest p := by
  rcases h with hs | ⟨hd, hu⟩
  · exact fun hf => absurd (hs.symm.trans hf) (by decide)
  · exact fun _ => coherent_of_eq hd hu

end Scope.Index

namespace ImportPass

variable {m : Module} {s : FileState}

/-- One round of the loop: the `n`-th item from the end is looked at, and dealt with if it is
an import declaration; then it is taken out if its recipe does not keep it. -/
def round (n : Nat) (m : Module) : FileM Module :=
  let i := m.body.length - n
  match m.body[i]? with
  | some (.importing d) => do
    let (o, m) ← importDecl d m
    if o = .expanded false then
      FileState.invalidate
      return { m with body := m.body.eraseIdx i }
    else return m
  | _ => pure m

/-- The module and the state of its file after each of the last `n` rounds. -/
def rounds : (n : Nat) → Module → FileState → List (Module × FileState)
  | 0, _, _ => []
  | n + 1, m, s => round (n + 1) m s :: rounds n (round (n + 1) m s).1 (round (n + 1) m s).2

/-- The rest of the loop is a round and the rest behind it. -/
theorem remaining_succ (n : Nat) (m : Module) (s : FileState) :
    ((remaining (n + 1) m s).1.2, (remaining (n + 1) m s).2) =
      ((remaining n (round (n + 1) m s).1 (round (n + 1) m s).2).1.2,
        (remaining n (round (n + 1) m s).1 (round (n + 1) m s).2).2) := by
  rw [remaining, round]
  dsimp only
  cases m.body[m.body.length - (n + 1)]? with
  | none => rfl
  | some i =>
    cases i with
    | node t => rfl
    | importing d =>
      simp only [bind_apply]
      split <;> rfl

/-- The last round leaves behind what the pass does. -/
theorem getLastD_rounds (n : Nat) (m : Module) (s : FileState) :
    (rounds n m s).getLastD (m, s) = ((remaining n m s).1.2, (remaining n m s).2) := by
  induction n generalizing m s with
  | zero => rfl
  | succ n ih =>
    rw [rounds, List.getLastD_cons, remaining_succ]
    exact ih _ _

/-- **One round.**  Whatever it changes, the index is current again, or marked as stale. -/
theorem isCurrent_round (n : Nat) (h : s.scope.IsCurrent (.module m)) :
    (round n m s).2.scope.IsCurrent (.module (round n m s).1) := by
  unfold round
  dsimp only
  cases m.body[m.body.length - n]? with
  | none => exact h
  | some i =>
    cases i with
    | node t => exact h
    | importing d =>
      have hd := isCurrent_importDecl d h
      simp only [bind_apply]
      split
      · exact .inl rfl
      · exact hd

/-- After each round the index is up to date or stale. -/
theorem isCurrent_rounds (n : Nat) (h : s.scope.IsCurrent (.module m)) :
    ∀ a ∈ rounds n m s, a.2.scope.IsCurrent (.module a.1) := by
  induction n generalizing m s with
  | zero => exact fun a ha => absurd ha List.not_mem_nil
  | succ n ih =>
    intro a ha
    rcases List.mem_cons.1 ha with rfl | ha
    · exact isCurrent_round (n + 1) h
    · exact ih (isCurrent_round (n + 1) h) a ha

/-- At the end of the loop the index is up to date or stale. -/
theorem isCurrent_remaining (n : Nat) (h : s.scope.IsCurrent (.module m)) :
    (remaining n m s).2.scope.IsCurrent (.module (remaining n m s).1.2) := by
  have hlast : (rounds n m s).getLastD (m, s) ∈ (m, s) :: rounds n m s := List.getLastD_mem_cons
  rw [getLastD_rounds] at hlast
  rcases List.mem_cons.1 hlast with he | ha
  · obtain ⟨hm, hs⟩ := Prod.mk.inj he
    rw [hm, hs]
    exact h
  · exact isCurrent_rounds n h _ ha

end ImportPass

namespace Transform

/-- **The last pass keeps the index current or stale:** where it changes the program, it marks the
index. -/
theorem isCurrent_walk {p : Program} {w : Walk} (h : w.file.scope.IsCurrent p) :
    (Walk.program p w).2.file.scope.IsCurrent (Walk.program p w).1 := by
  rcases Walk.staleOrEq_program p w with hs | ⟨hp, hf⟩
  · exact .inl hs
  · rw [hp, hf]
    exact h

/-- Before the injected imports are put in, the index is up to date or stale. -/
theorem isCurrent_rewrite (o : Options) (env : FileEnv) (m : Module) :
    (rewrite o env (.module m)).2.file.scope.IsCurrent (rewrite o env (.module m)).1 := by
  have hentered : (FileState.ofProgram o env (.module m)).scope.IsCurrent (.module m) :=
    .inr ⟨rfl, rfl⟩
  exact isCurrent_walk (w := ⟨_, []⟩) (ImportPass.isCurrent_remaining m.body.length hentered)

/-- An injected import that is put into a module declares its name, and uses nothing. -/
theorem mentions_flushModule (j : Injector) (m : Module) :
    (j.flushModule m).mentions =
      j.pending.map (fun i => ⟨.binding, i.binding⟩) ++ m.mentions := by
  have hitem : ∀ i : Injection, (Item.importing i.toImport).mentions = [⟨.binding, i.binding⟩] :=
    mentions_toImport
  rw [Injector.flushModule, Module.mentions, List.flatMap_append, List.flatMap_map]
  simp only [hitem]
  rw [← List.map_eq_flatMap]
  rfl

/-- The names of the injected imports are declared in front of all others. -/
theorem declaredOf_flushModule (j : Injector) (m : Module) :
    Scope.Index.declaredOf (j.flushModule m).mentions =
      j.pending.map (·.binding.id) ++ Scope.Index.declaredOf m.mentions := by
  have hall : (j.pending.map fun i => (⟨.binding, i.binding⟩ : Mention)).filter
      Scope.isDeclaration = j.pending.map fun i => ⟨.binding, i.binding⟩ :=
    List.filter_eq_self.2 <| List.forall_mem_map.2 fun _ _ => rfl
  rw [mentions_flushModule, Scope.Index.declaredOf, List.filter_append, List.map_append, hall,
    List.map_map]
  rfl

/-- Putting in the injected imports uses nothing. -/
theorem usesOf_flushModule (j : Injector) (m : Module) :
    Scope.Index.usesOf (j.flushModule m).mentions = Scope.Index.usesOf m.mentions := by
  have hnone : (j.pending.map fun i => (⟨.binding, i.binding⟩ : Mention)).filter
      Scope.isUse = [] :=
    List.filter_eq_nil_iff.2 <| List.forall_mem_map.2 fun _ _ => Bool.false_ne_true
  rw [mentions_flushModule, Scope.Index.usesOf, List.filter_append, hnone, List.nil_append]
  rfl

/-- An index of a module is one of the module with the injected imports as well if their names
have been declared before, and only then. -/
theorem coherent_flushModule_iff {i : Scope.Index} {m : Module} (h : i.Coherent (.module m))
    (j : Injector) :
    i.Coherent (.module (j.flushModule m)) ↔ ∀ a ∈ j.pending, a.binding.id ∈ i.declared := by
  have hdeclared : ∀ x, x ∈ (Scope.Index.ofProgram (.module (j.flushModule m))).declared ↔
      x ∈ j.pending.map (·.binding.id) ∨ x ∈ i.declared := by
    intro x
    rw [h.declared, ← List.mem_append]
    exact Iff.of_eq (congrArg (x ∈ ·) (declaredOf_flushModule j m))
  have huses : (Scope.Index.ofProgram (.module (j.flushModule m))).uses =
      (Scope.Index.ofProgram (.module m)).uses := usesOf_flushModule j m
  constructor
  · intro hc a ha
    rw [hc.declared, hdeclared]
    exact .inl (List.mem_map_of_mem ha)
  · intro hall
    refine ⟨fun x => ?_, fun x => ?_⟩
    · rw [hdeclared]
      refine ⟨.inr, fun hx => hx.elim (fun hx => ?_) id⟩
      obtain ⟨a, ha, rfl⟩ := List.mem_map.1 hx
      exact hall a ha
    · rw [h.usesAt, Scope.Index.usesAt, Scope.Index.usesAt, huses]

/-- What the index says on the way through a module, until the injected imports are put in. -/
structure Honest (o : Options) (env : FileEnv) (m : Module) : Prop where
  entered : (FileState.ofProgram o env (.module m)).scope.Honest (.module m)
  rounds : ∀ a ∈ ImportPass.rounds m.body.length m (FileState.ofProgram o env (.module m)),
    a.2.scope.Honest (.module a.1)
  /-- What the import pass does is what its last round leaves behind. -/
  importPass : importPass (.module m) (FileState.ofProgram o env (.module m)) =
    let a := (ImportPass.rounds m.body.length m (FileState.ofProgram o env (.module m))).getLastD
      (m, FileState.ofProgram o env (.module m))
    (.module a.1, a.2)
  walked : (rewrite o env (.module m)).2.file.scope.Honest (rewrite o env (.module m)).1

/-- **The index is right until the end.**  Before the injected imports are put in, an index
that is not marked as stale is that of the module.  Afterwards it is exactly if each of the
imports that were put in has a name that the index has as declared. -/
theorem run_honest (o : Options) (env : FileEnv) (m : Module) :
    Honest o env m ∧
      ((run o env (.module m)).2.file.scope.stale = false →
        ((run o env (.module m)).2.file.scope.Coherent (run o env (.module m)).1 ↔
          ∀ i ∈ (rewrite o env (.module m)).2.file.imports.pending,
            i.binding.id ∈ (run o env (.module m)).2.file.scope.declared)) := by
  have hentered : (FileState.ofProgram o env (.module m)).scope.IsCurrent (.module m) :=
    .inr ⟨rfl, rfl⟩
  have hwalked := isCurrent_rewrite o env m
  refine ⟨⟨hentered.honest, fun a ha => (ImportPass.isCurrent_rounds _ hentered a ha).honest, ?_,
    hwalked.honest⟩, ?_⟩
  · rw [ImportPass.getLastD_rounds]
    rfl
  · intro hs
    obtain ⟨m', hm'⟩ : ∃ m', (rewrite o env (.module m)).1 = .module m' := ⟨_, rfl⟩
    have hrun : (run o env (.module m)).1 =
        .module ((rewrite o env (.module m)).2.file.imports.flushModule m') :=
      congrArg (rewrite o env (.module m)).2.file.imports.flush hm'
    rw [hm'] at hwalked
    rw [hrun]
    exact coherent_flushModule_iff (hwalked.honest hs) _

/-- The module `import css from "@emotion/css"; import { cx } from "emotion"; css;`.  The index
is stale when the first import is gone, and fresh again when the second one has been looked
at, which is not used. -/
def unusedBehindUsed : Module where
  head := Head.empty
  body :=
    let local_ (name : String) : Ident := ⟨Span.dummy, 2, name, false⟩
    [.importing ⟨Span.dummy, [.default Span.dummy (local_ "css")],
      ⟨Span.dummy, "@emotion/css", none⟩, .absent, false, "evaluation"⟩,
     .importing ⟨Span.dummy, [.named Span.dummy (local_ "cx") none false],
      ⟨Span.dummy, "emotion", none⟩, .absent, false, "evaluation"⟩,
     .node (.inner .expressionStatement Head.empty [.ident .reference (local_ "css")])]

/-- The index of a run may be fresh at the end and not know of an import that was put in. -/
theorem not_forall_run_honest :
    ¬∀ (o : Options) (env : FileEnv) (m : Module),
      Honest o env m ∧ (run o env (.module m)).2.file.scope.Honest (run o env (.module m)).1 := by
  intro h
  have hcoherent := (h {} ⟨none, "", none⟩ unusedBehindUsed).2 (by decide +kernel)
  have hdeclared := (hcoherent.declared ⟨"_css", Context.empty⟩).2 (by decide +kernel)
  revert hdeclared
  decide +kernel

end Transform
end StyleLowering
