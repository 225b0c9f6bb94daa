/-
# Injected names are fresh, and the output is closed over them

Two things that hold of every run.  No identifier of the user is spelled like an
injected import, whatever its scope (`Transform.run_namesFresh`).  And what the
rewrites put into the program are the names of injected imports, each of which is
declared once, imports what is prescribed, and is used
(`Transform.run_closed`).
-/

import StyleLowering.Proofs.Transform.Origins

namespace StyleLowering

variable {prescribed : Id → String × Export → Prop} {j : Injector} {a b : Mention}

/-- What is known of the injected imports holds whether they wait or not. -/
theorem Becomes.clear (h : Becomes prescribed j a b) : Becomes prescribed j.clear a b := by
  cases h with
  | user h => exact .user h
  | runtime hi h => exact .runtime hi h

/-- What may come in still may once the imports are put in. -/
theorem Comes.clear (h : Comes prescribed j b) : Comes prescribed j.clear b := by
  cases h with
  | outerName h => exact .outerName h
  | global h => exact .global h
  | runtime hi hx h => exact .runtime hi hx h
  | cssProp hi h => exact .cssProp hi h
  | declared hi => exact .declared hi

/-- A trace is one still once the imports are put in. -/
theorem Trace.clear {whole : Bool} {as bs : List Mention}
    (t : Trace (Becomes prescribed j) (Comes prescribed j) whole as bs) :
    Trace (Becomes prescribed j.clear) (Comes prescribed j.clear) whole as bs :=
  t.mono (fun _ _ _ _ => Becomes.clear) fun _ _ => Comes.clear

/-- An identifier that is spelled like an injected import is that import. -/
theorem Trace.eq_binding (hv : j.Valid) {whole : Bool} {as bs : List Mention}
    (t : Trace (Becomes prescribed j) (Comes prescribed j) whole as bs) (hb : b ∈ bs)
    (hr : b.role ≠ .label) {i : Injection} (hi : i ∈ j.injected)
    (hn : b.ident.name = i.binding.name) : b.ident = i.binding.moveTo b.ident.span := by
  have hname : b.ident.name ∈ j.names := Injector.mem_names.2 ⟨i, hi, hn.symm⟩
  rcases t.exists_of_mem_right hb with ⟨a, -, h⟩ | h
  · cases h with
    | user h => exact absurd hname (h.resolve_left hr)
    | runtime hk => rw [hv.eq_of_name_eq hi hk hn.symm]; rfl
  · cases h with
    | outerName h => exact absurd hname h
    | global h => exact absurd hname (hv.name_ne h)
    | runtime hk => rw [hv.eq_of_name_eq hi hk hn.symm]; rfl
    | cssProp hk => rw [hv.eq_of_name_eq hi hk hn.symm]; rfl
    | declared hk => rw [hv.eq_of_name_eq hi hk hn.symm]; rfl

/-- The injected imports differ in what they import, by source and name. -/
theorem Injector.Valid.nodup_exports (hv : j.Valid) :
    (j.injected.map fun i => (i.source, i.exported.name)).Nodup := by
  refine List.Nodup.map_on (fun i hi k hk he => ?_) (hv.nodup_keys.of_map _)
  obtain ⟨hs, hn⟩ := Prod.mk.inj he
  refine hv.eq_of_key_eq hi hk ?_
  rw [Injection.key, Injection.key, hv.exported i hi, hv.exported k hk, hs, hn]

instance (j : Injector) (ms : List Mention) : Decidable (j.AllUsed ms) :=
  inferInstanceAs (Decidable (∀ i ∈ j.injected, ∃ a ∈ ms, _ ∧ _))

namespace Transform

variable {fit : Bool} {p : Program}

/-- The phases of a run. -/
theorem run_spec (o : Options) (env : FileEnv) (hp : p.wellShaped fit = true) :
    ∃ p₂ j, j.Valid ∧ Accounted fit (FileState.ofProgram o env p).info p p₂ j ∧
      (run o env p).1 = j.flush p₂ ∧ (run o env p).2.file.imports = j.clear := by
  have h := importPass_entered o env hp
  have hw := Walk.passes_program h.shaped
    ⟨(importPass p (FileState.ofProgram o env p)).2, []⟩ h.inOrder
  exact ⟨_, _, hw.passes.inOrder.valid, accounted_walk h hw, rfl, rfl⟩

/-- The import declarations of a program at the end: those that are injected, and behind
them some of the user's. -/
def ImportsSettled (f : FileInfo) (p p' : Program) (j : Injector) : Prop :=
  ∃ ds rest, Declares j.injected rest p' ∧ ds.Sublist p.imports ∧
    List.Forall₂ (ImportDecl.Stays (f.Prescribes p.imports) j) ds rest

/-- **Every import of the output** is an injected one or was there and is kept. -/
theorem run_importsSettled (o : Options) (env : FileEnv) (hp : p.wellShaped fit = true) :
    ImportsSettled (FileState.ofProgram o env p).info p (run o env p).1
      (run o env p).2.file.imports := by
  obtain ⟨p₂, j, hv, h, hrun, hj⟩ := run_spec o env hp
  obtain ⟨ds, hds, hf⟩ := h.imports
  rw [hrun, hj]
  exact ⟨ds, p₂.imports, (flush_spec hv h).2.1, hds, hf.imp fun d d' hd => ⟨hd.eq, hd.trace.clear⟩⟩

/-- Injected names are fresh over a run from `p` to `p'`. -/
structure NamesFresh (fit : Bool) (f : FileInfo) (p p' : Program) (j : Injector) : Prop where
  distinct : j.names.Nodup
  /-- An identifier of the user that stays is spelled unlike all injected imports. -/
  outside : Trace (Becomes (f.Prescribes p.imports) j) (Comes (f.Prescribes p.imports) j) fit
    p.outside p'.outside
  imports : ImportsSettled f p p' j
  /-- What is spelled like an injected import is that import. -/
  spelled : ∀ b ∈ p'.mentions, b.role ≠ .label → ∀ i ∈ j.injected,
    b.ident.name = i.binding.name → b.ident = i.binding.moveTo b.ident.span

/-- **Injected names are fresh.**  They are pairwise different, and an identifier of the
output that is spelled like one of them, the name of a statement apart, is the name of
that import: in its declaration, or where a rewrite has put it.  No identifier of the
user shares the spelling, in any scope. -/
theorem run_namesFresh (o : Options) (env : FileEnv) (hp : p.wellShaped fit = true) :
    NamesFresh fit (FileState.ofProgram o env p).info p (run o env p).1
      (run o env p).2.file.imports := by
  have himports := run_importsSettled o env hp
  obtain ⟨p₂, j, hv, h, hrun, hj⟩ := run_spec o env hp
  obtain ⟨hout, hdecl, -⟩ := flush_spec hv h
  obtain ⟨ds, -, hf⟩ := h.imports
  rw [hrun, hj] at himports ⊢
  refine ⟨hv.nodup_names, hout.clear, himports, fun b hb hr i hi hn => ?_⟩
  cases p₂ with
  | script t => exact hout.eq_binding hv hb hr hi hn
  | module m =>
    rcases Module.mem_mentions.1 hb with hb | ⟨d, hd, hb⟩
    · exact hout.eq_binding hv hb hr hi hn
    · obtain ⟨is, his, himports⟩ := hdecl
      rw [Injection.forall₂_isImport.1 his] at himports
      rcases List.mem_append.1 (himports ▸ hd) with hd | hd
      · obtain ⟨k, hk, rfl⟩ := List.mem_map.1 hd
        rw [mentions_toImport, List.mem_singleton] at hb
        subst hb
        rw [hv.eq_of_name_eq hi hk hn.symm]
        rfl
      · obtain ⟨e, -, he⟩ := exists_of_mem_forall₂ hf hd
        exact he.trace.eq_binding hv hb hr hi hn

/-- The module `import css from "@emotion/css"; var _css; css(_css);`. -/
def cssBesideCss : Module where
  head := Head.empty
  body :=
    let css : Ident := ⟨⟨8, 11⟩, 2, "css", false⟩
    let own : Ident := ⟨⟨36, 40⟩, 2, "_css", false⟩
    [.importing ⟨Span.dummy, [.default Span.dummy css], ⟨Span.dummy, "@emotion/css", none⟩, .absent,
      false, "evaluation"⟩,
     .node (.inner .variableDeclaration Head.empty
      [.run [.inner .declarator Head.empty [.ident .binding own, .absent]]]),
     .node (.inner .expressionStatement Head.empty
      [.call Head.empty (.ident .reference css) [.argument Head.empty (.ident .reference own)]])]

/-- A variable `_css` keeps its name apart from the injected one. -/
theorem namesFresh_cssBesideCss :
    NamesFresh true (FileState.ofProgram {} ⟨none, "", none⟩ (.module cssBesideCss)).info
      (.module cssBesideCss) (run {} ⟨none, "", none⟩ (.module cssBesideCss)).1
      (run {} ⟨none, "", none⟩ (.module cssBesideCss)).2.file.imports :=
  run_namesFresh {} ⟨none, "", none⟩ (by decide)

example : (run {} ⟨none, "", none⟩ (.module cssBesideCss)).2.file.imports.names = ["_css2"] := by
  decide +kernel

/-- The output of a run from `p` to `p'` is closed over the injected imports. -/
structure Closed (f : FileInfo) (p p' : Program) (j : Injector) : Prop where
  /-- There is one import for an export of a source. -/
  distinct : (j.injected.map fun i => (i.source, i.exported.name)).Nodup
  /-- What takes the place of an identifier is the name of an import that is prescribed for
  it, and what css props call is the name of theirs. -/
  outside : Trace (Becomes (f.Prescribes p.imports) j) (Comes (f.Prescribes p.imports) j) true
    p.outside p'.outside
  /-- Each injected import is declared once. -/
  imports : ImportsSettled f p p' j
  unique : ∀ i ∈ j.injected, ∀ k ∈ j.injected, i.binding.name = k.binding.name → i = k
  used : p.IsPlain → j.AllUsed p'.mentions
  pending : j.pending = []

/-- **The output is closed over the injected imports.**  There is one declaration for an
export of a source; what a rewrite puts into the program is the name of exactly one of
them, and it imports what the recipe or the css prop prescribes; none is left waiting;
and where imports are plain, the name of each of them is used. -/
theorem run_closed (o : Options) (env : FileEnv) (hp : p.wellShaped true = true) :
    Closed (FileState.ofProgram o env p).info p (run o env p).1
      (run o env p).2.file.imports := by
  have himports := run_importsSettled o env hp
  obtain ⟨p₂, j, hv, h, hrun, hj⟩ := run_spec o env hp
  obtain ⟨hout, -, hsub⟩ := flush_spec hv h
  rw [hrun, hj] at himports ⊢
  refine ⟨hv.nodup_exports, hout.clear, himports, fun i hi k hk => hv.eq_of_name_eq hi hk,
    fun hplain i hi => ?_, rfl⟩
  obtain ⟨a, ha, hu⟩ := h.used rfl hplain i hi
  exact ⟨a, hsub ha, hu⟩

/-- The injected import of the module is used. -/
theorem used_cssBesideCss :
    (run {} ⟨none, "", none⟩ (.module cssBesideCss)).2.file.imports.AllUsed
      (run {} ⟨none, "", none⟩ (.module cssBesideCss)).1.mentions :=
  (run_closed {} ⟨none, "", none⟩ (p := .module cssBesideCss) (by decide)).used
    ⟨by decide, by decide, by decide, by decide⟩

/-- The module `import { css as x, cx as x } from "emotion"; x;`. -/
def twoUnderOneName : Module where
  head := Head.empty
  body :=
    let x (start : Nat) : Ident := ⟨⟨start, start + 1⟩, 2, "x", false⟩
    let import_ (start : Nat) (name : String) : ImportSpecifier :=
      .named Span.dummy (x start) (some (.ident (.global name))) false
    [.importing ⟨Span.dummy, [import_ 17 "css", import_ 26 "cx"],
      ⟨Span.dummy, "emotion", none⟩, .absent, false, "evaluation"⟩,
     .node (.inner .expressionStatement Head.empty [.ident .reference (x 46)])]

/-- The module `import css from "@emotion/css" with { css }`. -/
def usedInAttributes : Module where
  head := Head.empty
  body :=
    let css (start : Nat) : Ident := ⟨⟨start, start + 3⟩, 2, "css", false⟩
    [.importing ⟨Span.dummy, [.default Span.dummy (css 8)], ⟨Span.dummy, "@emotion/css", none⟩,
      .object Head.empty [.ident .shorthand (css 38)], false, "evaluation"⟩]

/-- The module `import css from "@emotion/css"; import css from "@emotion/styled";` with
`export { css };`, where the first `css` is exported and the second one belongs to no
scope. -/
def boundNowhere : Module where
  head := Head.empty
  body :=
    let css (context : Context) : Ident := ⟨⟨8, 11⟩, context, "css", false⟩
    let import_ (context : Context) (source : String) : Item :=
      .importing ⟨Span.dummy, [.default Span.dummy (css context)], ⟨Span.dummy, source, none⟩,
        .absent, false, "evaluation"⟩
    [import_ 2 "@emotion/css", import_ Context.empty "@emotion/styled",
     .node (.inner .exportNamed Head.empty
      [.run [.inner .exportSpecifier Head.empty [.ident .exportLocal (css 2), .absent]]])]

/-- Whether all injected imports are used wherever the imports of a module are in order. -/
def UsesAllWhere (inOrder : Module → Prop) : Prop :=
  ∀ (o : Options) (env : FileEnv) (m : Module), m.wellShaped true = true → m.IsResolved →
    inOrder m → (run o env (.module m)).2.file.imports.AllUsed (run o env (.module m)).1.mentions

/-- Injected imports may be left without a use, and none of the conditions on the imports of
a module can be left out: two exports may be imported under one name, the only use may
stand in the attributes, and the outer name that an export gets may be taken for a binding
of no scope. -/
theorem not_forall_allUsed :
    (¬UsesAllWhere fun m => m.IsScoped ∧ m.AttributesApart) ∧
      (¬UsesAllWhere fun m => m.IsScoped ∧ m.ImportsApart) ∧
      ¬UsesAllWhere fun m => m.ImportsApart ∧ m.AttributesApart := by
  refine ⟨fun h => ?_, fun h => ?_, fun h => ?_⟩
  · have := h {} ⟨none, "", none⟩ twoUnderOneName (by decide) (by decide) (by decide)
    revert this
    decide +kernel
  · have := h {} ⟨none, "", none⟩ usedInAttributes (by decide) (by decide) (by decide)
    revert this
    decide +kernel
  · have := h {} ⟨none, "", none⟩ boundNowhere (by decide) (by decide) (by decide)
    revert this
    decide +kernel

end Transform
end StyleLowering
