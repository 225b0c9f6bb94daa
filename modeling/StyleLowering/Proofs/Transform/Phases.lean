/-
# The phases of a run

A run rewrites a program and puts the injected imports in at the end
(`Transform.run_eq_flush`).  Rewriting does not tell a module from a script: a list of
statements is rewritten in one way, with one state of the file at the end, and only
the injected imports take another form and another place (`Transform.run_statements`).
-/

import StyleLowering.Proofs.Imports.Declarations
import StyleLowering.Proofs.Walk.Invariant
import StyleLowering.Transform

namespace StyleLowering

open Stateful

/-! ### Entering -/

/-- A module and a script with the same statements are entered in the same state. -/
theorem FileState.ofProgram_statements (o : Options) (env : FileEnv) (hm ht : Head)
    (ns : List Node) :
    ofProgram o env (.module ⟨hm, ns.map .node⟩) = ofProgram o env (.script ⟨ht, ns⟩) := by
  have hmentions : (Program.module ⟨hm, ns.map .node⟩).mentions =
      (Program.script ⟨ht, ns⟩).mentions := by
    simp only [Program.mentions, Module.mentions, Script.mentions, List.flatMap_map,
      Node.mentionsAll_eq_flatMap]
    rfl
  have hjsx : Module.importsCoreJsx ⟨hm, ns.map .node⟩ = false := by
    simp [Module.importsCoreJsx]
  simp only [ofProgram, start, Scope.Index.ofProgram, hmentions, hjsx]

/-- There is nothing to do in the import pass if there are no imports. -/
theorem ImportPass.remaining_of_statements (n : Nat) (h : Head) (ns : List Node)
    (s : FileState) :
    remaining n ⟨h, ns.map .node⟩ s = (([], ⟨h, ns.map .node⟩), s) := by
  induction n with
  | zero => rfl
  | succ n ih =>
    rw [remaining]
    dsimp only
    rw [List.getElem?_map]
    cases ns[(ns.map Item.node).length - (n + 1)]? <;> exact ih

/-! ### Directives and waiting imports -/

/-- A directive is a statement of nothing but a string. -/
theorem Node.isDirective_iff {n : Node} :
    n.isDirective = true ↔ ∃ h s, n = .inner .expressionStatement h [.text s] := by
  constructor
  · intro hn
    unfold isDirective at hn
    split at hn
    · exact ⟨_, _, rfl⟩
    · cases hn
  · rintro ⟨h, s, rfl⟩
    rfl

namespace Walk

/-- The items of a script are gone through as its statements are. -/
theorem items_map_node (ns : List Node) (w : Walk) :
    items (ns.map .node) w =
      ((nodes LabelStack.empty ns w).1.map .node, (nodes LabelStack.empty ns w).2) := by
  induction ns generalizing w with
  | nil =>
    rw [nodes_nil]
    rfl
  | cons n ns ih =>
    rw [nodes_cons, List.map_cons, List.map_cons]
    simp only [items, item, bind_apply, map_apply, pure_apply, ih]

/-- A directive stays. -/
theorem node_of_isDirective {n : Node} (hn : n.isDirective = true) (labels : LabelStack)
    (w : Walk) : node labels n w = (n, w) := by
  obtain ⟨h, s, rfl⟩ := Node.isDirective_iff.1 hn
  rw [node_inner_of_enter labels (enter_of_ne (by decide) _ _), leave_of_ne _ _ (by decide),
    nodes_cons, node_leaf, nodes_nil]

/-- Only a leaf comes out as a leaf. -/
theorem eq_leaf_of_node {n : Node} {labels : LabelStack} {w : Walk} {a : Leaf}
    (h : (node labels n w).1 = .leaf a) : n = .leaf a := by
  cases n with
  | leaf b =>
    rw [node_leaf] at h
    exact h
  | run ns =>
    rw [node_run] at h
    cases h
  | inner k hd ps =>
    obtain ⟨qs, he⟩ := exists_node_inner labels k hd ps w
    rw [he] at h
    cases h

/-- Nothing becomes a directive. -/
theorem isDirective_node (n : Node) (labels : LabelStack) (w : Walk) :
    (node labels n w).1.isDirective = n.isDirective := by
  refine Bool.eq_iff_iff.2 ⟨fun hd => ?_, fun hn => by rw [node_of_isDirective hn, hn]⟩
  obtain ⟨h, s, hd⟩ := Node.isDirective_iff.1 hd
  cases n with
  | leaf a =>
    rw [node_leaf] at hd
    cases hd
  | run ns =>
    rw [node_run] at hd
    cases hd
  | inner k h' ps =>
    obtain ⟨qs, he⟩ := exists_node_inner labels k h' ps w
    rw [he] at hd
    cases hd
    rw [node_inner_of_ne labels (by decide) (by decide)] at he
    have hparts : (nodes (labels.enter .expressionStatement ps) ps w).1 = [.text s] :=
      (Node.inner.inj he).2.2
    match ps with
    | [] => rw [nodes_nil] at hparts; cases hparts
    | e :: es =>
      rw [nodes_cons] at hparts
      obtain ⟨hleaf, hrest⟩ := List.cons.inj hparts
      cases es with
      | nil =>
        rw [eq_leaf_of_node hleaf]
        rfl
      | cons e' es =>
        rw [nodes_cons] at hrest
        cases hrest

/-- The directives in front of statements stay, and no more come behind them. -/
theorem takeWhile_isDirective_nodes (labels : LabelStack) (ns : List Node) (w : Walk) :
    (nodes labels ns w).1.takeWhile Node.isDirective = ns.takeWhile Node.isDirective := by
  induction ns generalizing w with
  | nil => rw [nodes_nil]
  | cons n ns ih =>
    rw [nodes_cons, List.takeWhile_cons, List.takeWhile_cons, isDirective_node]
    split
    · next hn => rw [node_of_isDirective hn, ih]
    · rfl

/-- Everything that has been injected waits to be put into the program. -/
theorem preserves_pending : Preserves fun s => s.imports.pending = s.imports.injected where
  enter k parts s h := by
    have hcss : (FileState.cssIdentifier s).2.imports.pending =
        (FileState.cssIdentifier s).2.imports.injected := by
      refine cssIdentifier_cases s (P := fun p => p.2.imports.pending = p.2.imports.injected)
        (fun _ _ => h) fun _ => ?_
      exact Injector.add_cases s.scope "@emotion/css" .default "css" s.imports
        (P := fun p => p.2.pending = p.2.injected) (fun _ _ => h) fun _ => congrArg (· ++ _) h
    rw [enter_apply]
    split
    · exact hcss
    · exact h
  normalize name n s h :=
    normalize_cases name n s (P := fun p => p.2.imports.pending = p.2.imports.injected) h
      (fun _ _ _ _ _ => h) fun _ _ _ _ _ => h

end Walk

namespace Transform

/-- A run up to the point at which the injected imports are put in. -/
def rewrite (o : Options) (env : FileEnv) (p : Program) : Program × Walk :=
  let (p, file) := importPass p (FileState.ofProgram o env p)
  Walk.program p ⟨file, []⟩

/-- At the end of a run, what waits is put into the rewritten program. -/
theorem run_eq_flush (o : Options) (env : FileEnv) (p : Program) :
    run o env p =
      let (p', w) := rewrite o env p
      (w.file.imports.flush p',
        { w with file := { w.file with imports := w.file.imports.clear } }) :=
  rfl

/-- Statements that begin with the given directives, the statements of nothing but a string, and
go on with something else. -/
structure BeginsWith (ns directives rest : List Node) : Prop where
  eq : ns = directives ++ rest
  directives : ∀ n ∈ directives, ∃ h s, n = .inner .expressionStatement h [.text s]
  rest : ∀ n ∈ rest.head?, ¬∃ h s, n = .inner .expressionStatement h [.text s]

/-- The directives in front of any statements. -/
theorem beginsWith_takeWhile (ns : List Node) :
    BeginsWith ns (ns.takeWhile Node.isDirective) (ns.dropWhile Node.isDirective) where
  eq := List.takeWhile_append_dropWhile.symm
  directives n hn := Node.isDirective_iff.1 (List.all_eq_true.1 List.all_takeWhile n hn)
  rest n hn := by
    have hnot := List.head?_dropWhile_not Node.isDirective ns
    rw [Option.mem_def.1 hn] at hnot
    rw [← Node.isDirective_iff, Bool.not_eq_true]
    exact hnot

/-- A module and a script with the statements `ns` are rewritten alike: to the statements
`ns'`, with the state `w` of the file and the reports.  Among the statements, `directives` are
those in front that are nothing but a string, and `rest` are those behind them. -/
structure RewritesAlike (o : Options) (env : FileEnv) (hm ht : Head)
    (ns ns' directives rest : List Node) (w : Walk) : Prop where
  rewrite_module : rewrite o env (.module ⟨hm, ns.map .node⟩) = (.module ⟨hm, ns'.map .node⟩, w)
  rewrite_script : rewrite o env (.script ⟨ht, ns⟩) = (.script ⟨ht, ns'⟩, w)
  /-- The directives in front are the same as before. -/
  before : ∃ behind, BeginsWith ns directives behind
  after : BeginsWith ns' directives rest
  /-- In a module, each injected import is a declaration `import x from "source";` or
  `import { name as x } from "source";`, and they stand in front of all statements. -/
  run_module : ∃ ds, List.Forall₂ Injection.IsImport w.file.imports.injected ds ∧
    (run o env (.module ⟨hm, ns.map .node⟩)).1 =
      .module ⟨hm, ds.map .importing ++ ns'.map .node⟩
  /-- In a script, each of them is a statement `var x = require("source").name;`, and they stand
  behind the directives, in the same order. -/
  run_script : ∃ rs, List.Forall₂ Injection.IsRequire w.file.imports.injected rs ∧
    (run o env (.script ⟨ht, ns⟩)).1 = .script ⟨ht, directives ++ rs ++ rest⟩
  /-- The state at the end is the same, the reports, the counter and the injected imports
  among it. -/
  state : (run o env (.module ⟨hm, ns.map .node⟩)).2 = (run o env (.script ⟨ht, ns⟩)).2
  injected : (run o env (.script ⟨ht, ns⟩)).2.file.imports.injected = w.file.imports.injected
  diagnostics : (run o env (.script ⟨ht, ns⟩)).2.diagnostics = w.diagnostics
  targets : (run o env (.script ⟨ht, ns⟩)).2.file.targets = w.file.targets

/-- **Modules and scripts are rewritten alike.**  A list of statements becomes the same
statements, with the same state of the file at the end, whether it is the body of a module or
of a script; only what becomes of the injected imports differs. -/
theorem run_statements (o : Options) (env : FileEnv) (hm ht : Head) (ns : List Node) :
    ∃ ns' directives rest w, RewritesAlike o env hm ht ns ns' directives rest w := by
  let start := FileState.ofProgram o env (.script ⟨ht, ns⟩)
  let after := Walk.nodes LabelStack.empty ns ⟨start, []⟩
  -- Without imports a module is entered as a script is, and its items are visited as statements
  -- are.
  have hmodule : rewrite o env (.module ⟨hm, ns.map .node⟩) =
      (.module ⟨hm, after.1.map .node⟩, after.2) := by
    have himports : importPass (.module ⟨hm, ns.map .node⟩) start =
        (.module ⟨hm, ns.map .node⟩, start) := by
      simp only [importPass, ImportPass.module, bind_apply, pure_apply,
        ImportPass.remaining_of_statements]
    rw [rewrite, FileState.ofProgram_statements o env hm ht, himports]
    simp only [Walk.program, bind_apply, pure_apply, Walk.items_map_node]
    rfl
  have hscript : rewrite o env (.script ⟨ht, ns⟩) = (.script ⟨ht, after.1⟩, after.2) := rfl
  have hpending : after.2.file.imports.pending = after.2.file.imports.injected :=
    Walk.program_preserves Walk.preserves_pending (.script ⟨ht, ns⟩) ⟨start, []⟩ rfl
  have hdirectives : after.1.takeWhile Node.isDirective = ns.takeWhile Node.isDirective :=
    Walk.takeWhile_isDirective_nodes LabelStack.empty ns ⟨start, []⟩
  have hbefore := beginsWith_takeWhile ns
  rw [← hdirectives] at hbefore
  refine ⟨after.1, _, _, after.2, hmodule, hscript, ⟨_, hbefore⟩, beginsWith_takeWhile after.1,
    ⟨_, Injection.forall₂_isImport.2 rfl, ?_⟩, ⟨_, Injection.forall₂_isRequire.2 rfl, ?_⟩, ?_,
    rfl, rfl, rfl⟩
  · rw [run_eq_flush, hmodule, List.map_map]
    dsimp only [Injector.flush, Injector.flushModule]
    rw [hpending]
    rfl
  · rw [run_eq_flush, hscript]
    dsimp only [Injector.flush, Injector.flushScript]
    rw [hpending]
  · rw [run_eq_flush, run_eq_flush, hmodule, hscript]

end Transform
end StyleLowering
