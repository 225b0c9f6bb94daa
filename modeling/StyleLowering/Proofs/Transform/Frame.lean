/-
# What a run leaves alone

A statement is quiet if no identifier in it is a target of the import pass and the
last pass has nothing to do in it.  Quiet statements are in the output as they
were, at whatever depth they stand, and a program in which there is nothing to do
is the output itself (`Transform.run_leavesAlone`).
-/

import StyleLowering.Proofs.Transform.Passage
import StyleLowering.Proofs.Walk.Frame

namespace StyleLowering

open Rewrite Stateful

/-- What is kept by each step from the left is on the right, as often as on the left. -/
theorem filter_le_of_rel {α : Type} {q : α → Prop} [DecidablePred q] {step : α → α → Prop}
    {as bs : Multiset α} (h : Multiset.Rel step as bs) (hq : ∀ a b, step a b → q a → b = a) :
    as.filter q ≤ bs := by
  induction h with
  | zero => exact Multiset.filter_le q 0
  | @cons a b as bs hab _ ih =>
    by_cases ha : q a
    · rw [Multiset.filter_cons_of_pos as ha, hq a b hab ha]
      exact Multiset.cons_le_cons a ih
    · rw [Multiset.filter_cons_of_neg as ha]
      exact ih.trans (Multiset.le_cons_self bs b)

/-- Statements, and the items of a module other than imports. -/
def Kind.isStatement : Kind → Bool
  | .exportDeclaration | .exportNamed | .exportDefaultDeclaration | .exportDefaultExpression
  | .exportAll | .functionDeclaration | .classDeclaration | .variableDeclaration
  | .blockStatement | .expressionStatement | .returnStatement | .throwStatement | .ifStatement
  | .switchStatement | .whileStatement | .doWhileStatement | .forStatement | .forInStatement
  | .forOfStatement | .tryStatement | .withStatement | .labeledStatement | .breakStatement
  | .continueStatement | .emptyStatement | .debuggerStatement => true
  | _ => false

/-- A reading of the statements of a tree, with all that is in them. -/
def statements : Reading Node where
  own k h parts := if k.isStatement then {.inner k h parts} else 0
  own_frame := by
    intro k hk h parts
    have hnot : k.isStatement = false := by
      cases k <;> first | rfl | cases hk
    rw [hnot]
    rfl
  own_shorthand _ _ := rfl

/-- A statement takes the step that its tree takes. -/
theorem rel_own_statements {step : Node → Node → Prop} {k : Kind} {h : Head} {ps qs : List Node}
    (hs : step (.inner k h ps) (.inner k h qs)) :
    Multiset.Rel step (statements.own k h ps) (statements.own k h qs) := by
  unfold statements
  dsimp only
  split
  · exact .cons hs .zero
  · exact .zero

/-- Whether a run has nothing to do in a tree: no identifier is a target in one of the
tables, no css prop is compiled, and no `withComponent` member is called. -/
def Node.IsQuiet (f : FileInfo) (tss : List Targets) (n : Node) : Prop :=
  (∀ ts ∈ tss, ts.Avoids n.mentions) ∧ n.isIdle f = true

instance (ts : Targets) (as : List Mention) : Decidable (ts.Avoids as) :=
  inferInstanceAs (Decidable (∀ a ∈ as, _ = _))

instance (f : FileInfo) (tss : List Targets) : DecidablePred (Node.IsQuiet f tss) := fun n =>
  inferInstanceAs (Decidable ((∀ ts ∈ tss, ts.Avoids n.mentions) ∧ _))

/-- Quiet statements stay, and other ones may become and come in as they like. -/
def frameRule (f : FileInfo) (tss : List Targets) : statements.Rule f where
  step a b := a.IsQuiet f tss → b = a
  new _ _ _ := True
  step_refl _ _ := rfl
  step_trans h h' ha := by
    obtain rfl := h ha
    exact h' ha
  new_zero _ := trivial
  new_add _ _ := trivial
  new_step _ _ := trivial
  new_generated _ _ _ := trivial
  new_object _ _ := trivial
  extended _ _ _ _ _ := .zero
  new_declaration _ _ := trivial

/-- A rewrite leaves the statements alone that its targets do not touch. -/
theorem Rewriter.keeps_frameRule (r : Rewriter) {tss : List Targets} (hr : r.targets ∈ tss) :
    r.Keeps (frameRule r.info tss) := by
  intro labels k h parts s _
  refine rel_own_statements fun hquiet => ?_
  have havoids := hquiet.1 r.targets hr
  rw [Node.mentions_inner, ← Node.mentions_run] at havoids
  have hrun := r.node_of_avoids havoids labels s
  rw [node_run] at hrun
  rw [Node.run.inj (congrArg Prod.fst hrun)]

/-- The last pass leaves idle statements alone. -/
theorem Walk.keeps_frameRule (f : FileInfo) (tss : List Targets) :
    Walk.Keeps (frameRule f tss) := by
  intro labels k h parts w hw _
  refine rel_own_statements fun hquiet => ?_
  have hidle := (Node.isIdle_inner.1 hquiet.2).2
  rw [← hw] at hidle
  rw [nodes_of_isIdle hidle]

/-- The import pass leaves a module alone if it expands none of its declarations. -/
theorem ImportPass.remaining_of_not_expanded (n : Nat) (m : Module) (s : FileState)
    (h : ∀ keep, .expanded keep ∉ (remaining n m s).1.1) :
    (remaining n m s).1.2 = m ∧ (remaining n m s).2.imports = s.imports ∧
      (remaining n m s).2.info = s.info := by
  induction n generalizing m s with
  | zero => exact ⟨rfl, rfl, rfl⟩
  | succ n ih =>
    rw [remaining] at h ⊢
    dsimp only at h ⊢
    cases hi : m.body[m.body.length - (n + 1)]? with
    | none =>
      rw [hi] at h
      exact ih m s h
    | some i =>
      rw [hi] at h
      cases i with
      | node t => exact ih m s h
      | importing d =>
        obtain ⟨hrewritten, -, hleft⟩ := deals_importDecl d m s
        have hinfo := hrewritten.info
        dsimp only at h ⊢
        simp only [bind_apply] at h ⊢
        generalize importDecl d m s = p at hinfo hleft h ⊢
        obtain ⟨⟨o, m'⟩, s'⟩ := p
        dsimp only at hinfo hleft h ⊢
        split at h
        · next ho => exact absurd (ho ▸ List.mem_cons_self ..) (h false)
        · next ho =>
          -- the declaration is not expanded at all, so the module is the same for the rest
          rw [if_neg ho]
          have hnot : ∀ keep, o ≠ .expanded keep := by
            rintro keep rfl
            exact h keep (List.mem_cons_self ..)
          obtain ⟨rfl, himports⟩ := hleft hnot
          have hrest := ih m' s' fun keep hk => h keep (List.mem_cons_of_mem _ hk)
          exact ⟨hrest.1, hrest.2.1.trans himports, hrest.2.2.trans hinfo⟩

namespace Transform

variable {p : Program}

/-- What happens to the import declarations of a program, in their order. -/
def outcomes (o : Options) (env : FileEnv) : Program → List Outcome
  | .module m => (ImportPass.module m (FileState.ofProgram o env (.module m))).1.1
  | .script _ => []

/-- What a run leaves alone: quiet statements, and whole programs. -/
structure LeavesAlone (o : Options) (env : FileEnv) (p : Program) : Prop where
  kept : (keptImports o env p).Sublist p.imports
  quiet : (p.readOutside statements + readAttributes statements (keptImports o env p)).filter
    (Node.IsQuiet (FileState.ofProgram o env p).info (tables o env p)) ≤
      (run o env p).1.read statements
  unchanged : (∀ keep, .expanded keep ∉ outcomes o env p) →
    p.isIdle (FileState.ofProgram o env p).info = true →
      (run o env p).1 = p ∧ (run o env p).2.file.imports.injected = []

/-- A quiet statement is in the output. -/
theorem LeavesAlone.mem_read {o : Options} {env : FileEnv} (h : LeavesAlone o env p) {n : Node}
    (hn : n ∈ p.readOutside statements)
    (hq : n.IsQuiet (FileState.ofProgram o env p).info (tables o env p)) :
    n ∈ (run o env p).1.read statements :=
  Multiset.mem_of_le h.quiet
    (Multiset.mem_filter.2 ⟨Multiset.mem_add.2 (.inl hn), hq⟩)

/-- If nothing is expanded, the import pass leaves the program as it is and injects nothing. -/
theorem importPass_of_not_expanded (o : Options) (env : FileEnv)
    (h : ∀ keep, .expanded keep ∉ outcomes o env p) :
    let q := importPass p (FileState.ofProgram o env p)
    q.1 = p ∧ q.2.imports = Injector.empty ∧ q.2.info = (FileState.ofProgram o env p).info := by
  cases p with
  | script t => exact ⟨rfl, rfl, rfl⟩
  | module m =>
    obtain ⟨hmodule, himports, hinfo⟩ := ImportPass.remaining_of_not_expanded m.body.length m
      (FileState.ofProgram o env (.module m)) h
    exact ⟨congrArg Program.module hmodule, himports, hinfo⟩

/-- A program stays if no import is expanded and the last pass has nothing to do. -/
theorem run_of_isIdle (o : Options) (env : FileEnv)
    (h : ∀ keep, .expanded keep ∉ outcomes o env p)
    (hp : p.isIdle (FileState.ofProgram o env p).info = true) :
    (run o env p).1 = p ∧ (run o env p).2.file.imports.injected = [] := by
  obtain ⟨hprogram, himports, hinfo⟩ := importPass_of_not_expanded o env h
  unfold run
  generalize importPass p (FileState.ofProgram o env p) = q at hprogram himports hinfo ⊢
  obtain ⟨p', s⟩ := q
  dsimp only at hprogram himports hinfo ⊢
  subst hprogram
  rw [← hinfo] at hp
  have hwalk : Walk.program p' ⟨s, []⟩ = (p', ⟨s, []⟩) := Walk.program_of_isIdle hp
  rw [hwalk]
  dsimp only [FileState.flush]
  rw [himports]
  refine ⟨?_, rfl⟩
  cases p' with
  | module m => rfl
  | script t =>
    have hbody : t.body.takeWhile Node.isDirective ++ [] ++ t.body.dropWhile Node.isDirective =
        t.body := by
      rw [List.append_nil, List.takeWhile_append_dropWhile]
    exact congrArg (fun body => Program.script { t with body }) hbody

/-- **What a run leaves alone.**  Quiet statements are in the output as they were, with
their places and contexts; if no import is expanded and nothing is left to do, the output
is the input and nothing is injected. -/
theorem run_leavesAlone (o : Options) (env : FileEnv) (hp : p.wellShaped true = true) :
    LeavesAlone o env p := by
  obtain ⟨hkept, image, added, hrel, -, hread⟩ :=
    run_passes (R := frameRule (FileState.ofProgram o env p).info (tables o env p)) hp
      (fun ts hts => Rewriter.keeps_frameRule ⟨_, ts⟩ hts) (Walk.keeps_frameRule _ _)
  refine ⟨hkept, ?_, run_of_isIdle o env⟩
  have hquiet := filter_le_of_rel
    (q := Node.IsQuiet (FileState.ofProgram o env p).info (tables o env p)) hrel
    fun a b hab ha => hab ha
  rw [hread]
  exact hquiet.trans (Multiset.le_add_right image added)

/-- The statement `a;`. -/
def quietStatement : Node :=
  .inner .expressionStatement (Head.ofSpan ⟨38, 40⟩)
    [.ident .reference ⟨⟨38, 39⟩, 1, "a", false⟩]

/-- The module `import css from "@emotion/css"; { a; css; }`. -/
def cssBesideQuiet : Module where
  head := Head.empty
  body :=
    [.importing ⟨Span.dummy, [.default Span.dummy ⟨⟨8, 11⟩, 2, "css", false⟩],
      ⟨Span.dummy, "@emotion/css", none⟩, .absent, false, "evaluation"⟩,
     .node (.inner .blockStatement (Head.ofSpan ⟨34, 49⟩)
      [.run [quietStatement, .inner .expressionStatement (Head.ofSpan ⟨41, 45⟩)
        [.ident .reference ⟨⟨41, 44⟩, 2, "css", false⟩]]])]

/-- The module `import x from "x"; a;`. -/
def onlyQuiet : Module where
  head := Head.empty
  body :=
    [.importing ⟨Span.dummy, [.default Span.dummy ⟨⟨8, 9⟩, 2, "x", false⟩],
      ⟨Span.dummy, "x", none⟩, .absent, false, "evaluation"⟩,
     .node quietStatement]

/-- The statement `a;` stays where the block around it changes, and the module with nothing
to do stays. -/
theorem leavesAlone_quiet :
    (Program.module cssBesideQuiet).wellShaped true = true ∧
      (Program.module onlyQuiet).wellShaped true = true ∧
      (.expanded false ∈ outcomes {} ⟨some "a.js", "/", none⟩ (.module cssBesideQuiet)) ∧
      quietStatement ∈
        (run {} ⟨some "a.js", "/", none⟩ (.module cssBesideQuiet)).1.read statements ∧
      (run {} ⟨some "a.js", "/", none⟩ (.module onlyQuiet)).1 = .module onlyQuiet ∧
      (run {} ⟨some "a.js", "/", none⟩ (.module onlyQuiet)).2.file.imports.injected = [] := by
  have hp : (Program.module cssBesideQuiet).wellShaped true = true := by decide
  have hp' : (Program.module onlyQuiet).wellShaped true = true := by decide
  have hexpanded : .expanded false ∈
      outcomes {} ⟨some "a.js", "/", none⟩ (.module cssBesideQuiet) := by
    decide +kernel
  have hread : quietStatement ∈ (Program.module cssBesideQuiet).readOutside statements := by
    simp [Program.readOutside, cssBesideQuiet, Item.readOutside, Node.read_inner, quietStatement,
      statements, Kind.isStatement]
  have hquiet : quietStatement.IsQuiet
      (FileState.ofProgram {} ⟨some "a.js", "/", none⟩ (.module cssBesideQuiet)).info
      (tables {} ⟨some "a.js", "/", none⟩ (.module cssBesideQuiet)) := by
    decide +kernel
  have hnone : ∀ keep, .expanded keep ∉
      outcomes {} ⟨some "a.js", "/", none⟩ (.module onlyQuiet) := by
    decide +kernel
  have hidle : (Program.module onlyQuiet).isIdle
      (FileState.ofProgram {} ⟨some "a.js", "/", none⟩ (.module onlyQuiet)).info = true := by
    decide +kernel
  have hstays := (run_leavesAlone {} ⟨some "a.js", "/", none⟩ hp').unchanged hnone hidle
  exact ⟨hp, hp', hexpanded,
    (run_leavesAlone {} ⟨some "a.js", "/", none⟩ hp).mem_read hread hquiet, hstays⟩

end Transform
end StyleLowering
