/-
# A whole run, traced back

The three phases of a run, one behind the other: the import pass, the last pass,
and the declarations that are put in at the end.  What is known after each of
them is the same: every identifier outside of the imports can be traced back to
the program that was entered, the imports that are left belong to the user, and
what has been injected is used (`Transform.importPass_entered`,
`Transform.accounted_walk`, `Transform.flush_spec`).
-/

import StyleLowering.Proofs.ImportPass.Origins
import StyleLowering.Proofs.Imports.Declarations
import StyleLowering.Proofs.Walk.Origins
import StyleLowering.Transform

namespace StyleLowering

/-- A program in which every import that is used is used in the code. -/
def Program.IsPlain : Program → Prop
  | .module m => m.IsPlain
  | .script _ => True

/-- An import declaration of the user keeps all but its attributes, and its identifiers can
be traced back. -/
structure ImportDecl.Stays (prescribed : Id → String × Export → Prop) (j : Injector)
    (d d' : ImportDecl) : Prop where
  eq : d' = { d with attributes := d'.attributes }
  trace : Trace (Becomes prescribed j) (Comes prescribed j) true d.mentions d'.mentions

namespace Transform

open Stateful

/-- A program, on the way from `p₀` to the end of the run, and its injected imports. -/
structure Accounted (fit : Bool) (f : FileInfo) (p₀ p : Program) (j : Injector) : Prop where
  outside : Trace (Becomes (f.Prescribes p₀.imports) j) (Comes (f.Prescribes p₀.imports) j) fit
    p₀.outside p.outside
  imports : ∃ ds, ds.Sublist p₀.imports ∧
    List.Forall₂ (ImportDecl.Stays (f.Prescribes p₀.imports) j) ds p.imports
  used : fit = true → p₀.IsPlain → j.AllUsed p.mentions

variable {fit : Bool} {p₀ p p' : Program} {f : FileInfo} {s s' : FileState}

/-- The identifiers outside of imports are among those of the program. -/
theorem mem_mentions_of_outside {p : Program} {a : Mention} (h : a ∈ p.outside) :
    a ∈ p.mentions := by
  cases p with
  | module m => exact Module.mem_mentions.2 (.inl h)
  | script t => exact h

/-- A program, and the state it is in, when the last pass begins. -/
structure Entered (fit : Bool) (f : FileInfo) (p₀ p : Program) (s : FileState) : Prop where
  shaped : p.wellShaped fit = true
  inOrder : s.InOrder
  covered : ∀ name ∈ Mention.names p.mentions,
    name ∈ s.scope.names ∨ name ∈ s.imports.names ∨ name = "Object"
  outside : Trace (Becomes (f.Prescribes p₀.imports) s.imports)
    (Comes (f.Prescribes p₀.imports) s.imports) fit p₀.outside p.outside
  imports : p.imports.Sublist p₀.imports
  apart : ∀ d ∈ p.imports, ∀ name ∈ Mention.names d.mentions, name ∉ s.imports.names
  used : fit = true → p₀.IsPlain → s.imports.AllUsed p.mentions

/-- **After the import pass.** -/
theorem importPass_entered (o : Options) (env : FileEnv) {p : Program}
    (hp : p.wellShaped fit = true) :
    Entered fit (FileState.ofProgram o env p).info p (importPass p (FileState.ofProgram o env p)).1
      (importPass p (FileState.ofProgram o env p)).2 := by
  cases p with
  | module m =>
    have h := ImportPass.module_processed o env hp
    have hcss : (importPass (.module m) (FileState.ofProgram o env (.module m))).2.cssBinding =
        none := h.ready.cssBinding
    refine ⟨h.ready.shaped, ⟨h.ready.valid, fun x hx => ?_⟩, h.ready.covered, h.outside, h.imports,
      h.apart, fun hf hplain i hi => ?_⟩
    · cases hcss.symm.trans hx
    · obtain ⟨a, ha, hu⟩ := h.used hf hplain i hi
      exact ⟨a, Module.mem_mentions.2 (.inl ha), hu⟩
  | script t =>
    have hnames : ∀ name, name ∉ Injector.empty.names := fun _ => List.not_mem_nil
    refine ⟨hp, ⟨Injector.valid_empty, fun x hx => by cases hx⟩, fun name hn => ?_,
      .refl fun a _ => .user (.inr (hnames _)), List.nil_sublist _,
      fun d hd => absurd hd List.not_mem_nil, fun _ _ i hi => absurd hi List.not_mem_nil⟩
    obtain ⟨a, ha, rfl⟩ := List.mem_map.1 hn
    obtain ⟨ha, hr⟩ := List.mem_filter.1 ha
    exact .inl (Scope.Index.mem_names (p := .script t) rfl rfl ha (bne_iff_ne.1 hr))

/-- The identifiers of an import are among those of the program. -/
theorem mem_mentions_of_import {p : Program} {d : ImportDecl} {a : Mention} (hd : d ∈ p.imports)
    (h : a ∈ d.mentions) : a ∈ p.mentions := by
  cases p with
  | module m => exact Module.mem_mentions.2 (.inr ⟨d, hd, h⟩)
  | script t => exact absurd hd List.not_mem_nil

/-- Identifiers that have been traced back still are after the last pass. -/
theorem trace_walk (h : Entered fit f p₀ p s) (hw : Walk.ProgramPasses p s p' s') {whole : Bool}
    {as bs cs : List Mention} (hsub : bs ⊆ p.mentions)
    (t : Trace (Becomes (f.Prescribes p₀.imports) s.imports)
      (Comes (f.Prescribes p₀.imports) s.imports) whole as bs)
    (t' : Trace (· = ·) (Walk.Adds s'.imports) true bs cs) :
    Trace (Becomes (f.Prescribes p₀.imports) s'.imports)
      (Comes (f.Prescribes p₀.imports) s'.imports) whole as cs := by
  have hgrow := hw.passes.grows.extend
  have hocc : ∀ b ∈ bs, b.role ≠ .label →
      b.ident.name ∈ s.scope.names ++ (s.imports.names ++ ["Object"]) := by
    intro b hb hr
    rw [List.mem_append, List.mem_append, List.mem_singleton]
    exact h.covered _ (Mention.mem_names (hsub hb) hr)
  have t := t.mono (fun a _ b hb => Becomes.grow hgrow (hocc b hb))
    fun b hb => Comes.grow hgrow (hocc b hb)
  refine t.comp (t'.weaken whole) (fun _ _ _ _ _ hab hbc => hbc ▸ hab)
    (fun _ _ _ hb hbc => hbc ▸ hb) fun c hc => ?_
  cases hc with
  | object => exact .global (.inl rfl)
  | cssProp hi hk => exact .cssProp hi hk

/-- **After the last pass.** -/
theorem accounted_walk (h : Entered fit f p₀ p s) (hw : Walk.ProgramPasses p s p' s') :
    Accounted fit f p₀ p' s'.imports where
  outside := trace_walk h hw (fun _ => mem_mentions_of_outside) h.outside hw.outside
  imports := by
    refine ⟨p.imports, h.imports, ?_⟩
    refine ((List.forall₂_and_left _ _).2 ⟨fun d hd => hd, hw.imports⟩).imp ?_
    rintro d d' ⟨hd, hk⟩
    refine ⟨hk.eq, trace_walk h hw (fun _ => mem_mentions_of_import hd) (.refl fun a ha => ?_)
      hk.trace⟩
    by_cases hl : a.role = .label
    · exact .user (.inl hl)
    · exact .user (.inr (h.apart d hd _ (Mention.mem_names ha hl)))
  used hf hplain i hi := by
    rcases hw.passes.used i hi with hi | hu
    · obtain ⟨a, ha, hu⟩ := h.used hf hplain i hi
      obtain ⟨b, hb, rfl⟩ := hw.passes.trace.exists_of_mem_left ha
      exact ⟨a, hb, hu⟩
    · exact hu

/-- A program that declares the given injected imports, each of them once and in this order, and
the given other imports.  A script declares them by calls of `require`. -/
def Declares (is : List Injection) (rest : List ImportDecl) : Program → Prop
  | .module m => ∃ ds, List.Forall₂ Injection.IsImport is ds ∧ m.imports = ds ++ rest
  | .script t => rest = [] ∧ ∃ before rs after, List.Forall₂ Injection.IsRequire is rs ∧
    t.body = before ++ rs ++ after

/-- The statement for a script binds one name and uses `require`. -/
theorem mentions_toRequire (i : Injection) :
    i.toRequire.mentions = [⟨.binding, i.binding⟩, ⟨.reference, .global "require"⟩] := by
  simp [Injection.toRequire, Build.declaration, Build.member, Build.call, Build.reference,
    Build.word, Build.argument, Leaf.mentions]

/-- The declaration for a module binds one name and uses none. -/
theorem mentions_toImport (i : Injection) : i.toImport.mentions = [⟨.binding, i.binding⟩] := by
  have hb : i.specifier.binding = i.binding := by
    unfold Injection.specifier
    split <;> rfl
  simp [ImportDecl.mentions, Injection.toImport, hb, Leaf.mentions]

/-- What is put into a script are the names of the declarations, and `require`. -/
theorem trace_flushScript (j : Injector) (t : Script) :
    Trace (· = ·) (fun b => (∃ i ∈ j.injected, b = ⟨.binding, i.binding⟩) ∨
      b = ⟨.reference, .global "require"⟩) true t.mentions
      (Node.mentionsAll (t.body.takeWhile Node.isDirective ++ j.injected.map Injection.toRequire ++
        t.body.dropWhile Node.isDirective)) := by
  have hbody : t.mentions = Node.mentionsAll (t.body.takeWhile Node.isDirective) ++
      Node.mentionsAll (t.body.dropWhile Node.isDirective) := by
    rw [← Node.mentionsAll_append, List.takeWhile_append_dropWhile]
    rfl
  rw [hbody, Node.mentionsAll_append, Node.mentionsAll_append, List.append_assoc]
  refine .append (.refl fun _ _ => rfl) (.new_append (fun b hb => ?_) (.refl fun _ _ => rfl))
  rw [Node.mentionsAll_eq_flatMap, List.mem_flatMap] at hb
  obtain ⟨n, hn, hb⟩ := hb
  obtain ⟨i, hi, rfl⟩ := List.mem_map.1 hn
  rw [mentions_toRequire, List.mem_pair] at hb
  exact hb.imp_left fun hb => ⟨i, hi, hb⟩

/-- **After the end.**  All that has been injected is declared, and nothing else changes. -/
theorem flush_spec {j : Injector} (hv : j.Valid) (h : Accounted fit f p₀ p j) :
    Trace (Becomes (f.Prescribes p₀.imports) j) (Comes (f.Prescribes p₀.imports) j) fit
      p₀.outside (j.flush p).outside ∧ Declares j.injected p.imports (j.flush p) ∧
      p.mentions ⊆ (j.flush p).mentions := by
  cases p with
  | module m =>
    have hbody : (j.flushModule m).body =
        j.injected.map (fun i => .importing i.toImport) ++ m.body := by
      rw [Injector.flushModule, hv.pending]
    refine ⟨?_, ?_, ?_⟩
    · have hout : (j.flushModule m).outside = m.outside := by
        rw [Module.outside, hbody, List.flatMap_append, List.flatMap_map]
        simp [Item.outside, Module.outside]
      rw [Injector.flush, Program.outside, hout]
      exact h.outside
    · have himp : (j.flushModule m).imports = j.injected.map (·.toImport) ++ m.imports := by
        rw [Module.imports, hbody, List.filterMap_append, List.filterMap_map]
        simp [Item.import?, Module.imports, Function.comp_def]
      exact ⟨_, Injection.forall₂_isImport.2 rfl, himp⟩
    · intro a ha
      obtain ⟨i, hi, ha⟩ := List.mem_flatMap.1 ha
      refine List.mem_flatMap.2 ⟨i, ?_, ha⟩
      rw [hbody]
      exact List.mem_append_right _ hi
  -- In a script the statements add a binding and a use of `require` each.
  | script t =>
    have t' := trace_flushScript j t
    have hbody : (j.flushScript t).body = t.body.takeWhile Node.isDirective ++
        j.injected.map Injection.toRequire ++ t.body.dropWhile Node.isDirective := by
      rw [Injector.flushScript, hv.pending]
    rw [← hbody] at t'
    refine ⟨h.outside.comp (t'.weaken fit) (fun _ _ _ _ _ hab hbc => hbc ▸ hab)
      (fun _ _ _ hb hbc => hbc ▸ hb) fun c hc => ?_,
      ⟨rfl, _, _, _, Injection.forall₂_isRequire.2 rfl, hbody⟩, fun a ha => ?_⟩
    · rcases hc with ⟨i, hi, rfl⟩ | rfl
      · exact .declared hi
      · exact .global (.inr rfl)
    · obtain ⟨b, hb, rfl⟩ := t'.exists_of_mem_left ha
      exact hb

end Transform
end StyleLowering
