/-
# Names that can be seen from outside stay

A run gives identifiers other names, but the names under which a program exports
something stay, and so do the keys of its object literals
(`Transform.run_keepsNames`).  Literals that are the options of styled components
only get generated keys behind their own ones.
-/

import StyleLowering.Proofs.Transform.Passage

namespace StyleLowering

open Rewrite Stateful

/-! ### Exported names -/

/-- A body exports what its items export. -/
theorem Item.forall₂_exportEntries {is js : List Item}
    (h : List.Forall₂ (fun i j : Item => j.exportEntries = i.exportEntries) is js) :
    js.flatMap Item.exportEntries = is.flatMap Item.exportEntries :=
  flatMap_eq_of_forall₂ h fun _ _ _ he => he

/-- A rewrite exports what the module exported, unless it replaces an exported name. -/
theorem Rewriter.exportEntries_module (r : Rewriter) {m : Module} (s : Nat)
    (h : ∀ x, .declared x ∈ (Program.module m).exportEntries → r.targets.replacement? x = none) :
    (Program.module (r.module m s).1).exportEntries = (Program.module m).exportEntries := by
  rw [Program.exportEntries, body_module]
  refine Item.forall₂_exportEntries (r.forall₂_items (fun i hi s => ?_) s)
  cases i with
  | importing d => rw [item_importing]
  | node n =>
    rw [item_node]
    exact r.isRenaming.exportEntries_eq ⟨_, s, rfl⟩ fun x hx => h x (List.mem_flatMap_of_mem hi hx)

/-- The last pass exports what the program exported. -/
theorem Walk.exportEntries_program (p : Program) (w : Walk) :
    (Walk.program p w).1.exportEntries = p.exportEntries := by
  cases p with
  | script t => rfl
  | module m =>
    have hitems : ∀ (is : List Item) (w : Walk),
        List.Forall₂ (fun i j : Item => j.exportEntries = i.exportEntries) is (items is w).1 := by
      intro is
      induction is with
      | nil =>
        intro w
        exact .nil
      | cons i is ih =>
        intro w
        refine .cons ?_ (ih _)
        cases i with
        | importing d => rfl
        | node n => exact isRenaming.exportEntries_eq ⟨_, w, rfl⟩ fun _ _ => rfl
    exact Item.forall₂_exportEntries (hitems m.body w)

/-- Injected imports export nothing. -/
theorem Injector.exportEntries_flush (j : Injector) (p : Program) :
    (j.flush p).exportEntries = p.exportEntries := by
  cases p with
  | script t => rfl
  | module m =>
    have himports : (j.pending.map fun i => Item.importing i.toImport).flatMap
        Item.exportEntries = [] := by
      rw [List.flatMap_map, List.flatMap_eq_nil_iff]
      exact fun _ _ => rfl
    rw [flush, flushModule, Program.exportEntries, List.flatMap_append]
    rw [himports]
    rfl

/-- An import exports nothing, so to drop it changes no export. -/
theorem Module.Drops.exportEntries {d : ImportDecl} {m m' : Module} (h : m.Drops d m') :
    (Program.module m').exportEntries = (Program.module m).exportEntries := by
  obtain ⟨before, after, hm, hm'⟩ := h
  rw [Program.exportEntries, Program.exportEntries, hm, hm', List.flatMap_append,
    List.flatMap_append, List.flatMap_cons]
  rfl

/-- The import pass keeps exported names, as none of them is that of an import. -/
theorem ImportPass.Stages.exportEntries {tss : List Targets} {m m' : Module} {s s' : FileState}
    (h : Stages tss m s m' s') (hr : (Program.module m).ExportsResolved) :
    (Program.module m').exportEntries = (Program.module m).exportEntries := by
  induction h with
  | done => rfl
  | @rewrite d ts tss m m₁ m' s s₁ s' hd hts hrewritten _ ih =>
    -- the targets are bindings of `d`, and no exported declaration has one of these
    have hnone : ∀ x, .declared x ∈ (Program.module m).exportEntries →
        ts.replacement? x = none := by
      intro x hx
      have hget : ts.get? x = none := by
        rw [Targets.get?, List.lookup_eq_none_iff]
        intro e he
        rw [bne_iff_ne]
        rintro heq
        exact hr x hx d hd (heq ▸ hts e he)
      rw [Targets.replacement?, hget]
      rfl
    have hentries : (Program.module m₁).exportEntries = (Program.module m).exportEntries := by
      rw [hrewritten.module]
      exact Rewriter.exportEntries_module _ _ hnone
    have himports : (Program.module m₁).imports = (Program.module m).imports := by
      rw [hrewritten.module]
      exact (Rewriter.keepsImports_module _ m s.targets).imports
    refine (ih fun x hx e he => ?_).trans hentries
    rw [hentries] at hx
    rw [himports] at he
    exact hr x hx e he
  | drop hdrops _ _ ih =>
    refine (ih fun x hx e he => ?_).trans hdrops.exportEntries
    rw [hdrops.exportEntries] at hx
    exact hr x hx e (hdrops.imports_sublist.subset he)

/-! ### Keys -/

/-- What an object literal says about itself, and its keys. -/
structure ObjectKeys where
  head : Head
  keys : List PropertyKey
  deriving DecidableEq, Repr

/-- A literal has the keys of another one, and generated ones behind them. -/
structure ObjectKeys.Extends (a b : ObjectKeys) : Prop where
  head : b.head = a.head
  keys : ∃ more, b.keys = a.keys ++ more ∧ ∀ k ∈ more, k = .name "target" ∨ k = .name "label"

/-- Keys extend themselves. -/
theorem ObjectKeys.Extends.refl (a : ObjectKeys) : a.Extends a :=
  ⟨rfl, [], (List.append_nil _).symm, fun _ h => absurd h List.not_mem_nil⟩

/-- Keys that are extended twice are extended. -/
theorem ObjectKeys.Extends.trans {a b d : ObjectKeys} (h : a.Extends b) (h' : b.Extends d) :
    a.Extends d := by
  obtain ⟨hhead, more, hkeys, hmore⟩ := h
  obtain ⟨hhead', more', hkeys', hmore'⟩ := h'
  refine ⟨hhead'.trans hhead, more ++ more', ?_, fun k hk => ?_⟩
  · rw [hkeys', hkeys, List.append_assoc]
  · exact (List.mem_append.1 hk).elim (hmore k) (hmore' k)

/-- A reading of the keys of object literals. -/
def objectKeys : Reading ObjectKeys where
  own k h parts := if k = .object then {⟨h, parts.flatMap Node.propertyKeys⟩} else 0
  own_frame := by
    intro k hk h parts
    refine if_neg ?_
    rintro rfl
    cases hk
  own_shorthand _ _ := rfl

/-- Where keys stay, nothing changes that is read. -/
theorem own_objectKeys_congr {k : Kind} {h : Head} {ps qs : List Node}
    (hp : qs.flatMap Node.propertyKeys = ps.flatMap Node.propertyKeys) :
    objectKeys.own k h qs = objectKeys.own k h ps := by
  simp only [objectKeys, hp]

/-- Generated keys come behind those of a literal, and new literals come in. -/
def objectKeysRule (f : FileInfo) : objectKeys.Rule f where
  step := ObjectKeys.Extends
  new _ _ _ := True
  step_refl := .refl
  step_trans := .trans
  new_zero _ := trivial
  new_add _ _ := trivial
  new_step _ _ := trivial
  new_generated _ _ _ := trivial
  new_object _ _ := trivial
  extended name isWeb s h ps := by
    refine .cons ⟨rfl, (Styled.generated f name isWeb s).1.map Node.propertyKey, ?_, ?_⟩ .zero
    · simp [Node.propertyKeys]
    · intro k hk
      obtain ⟨n, hn, rfl⟩ := List.mem_map.1 hk
      obtain ⟨key, value, rfl, rfl | rfl⟩ := Styled.mem_generated hn
      · exact .inl rfl
      · exact .inr rfl
  new_declaration _ _ := trivial

/-- A rewrite extends the keys of object literals and does not touch them otherwise. -/
theorem Rewriter.keeps_objectKeysRule (r : Rewriter) : r.Keeps (objectKeysRule r.info) := by
  intro labels k h parts s _
  rw [own_objectKeys_congr (flatMap_eq_of_forall₂ (r.forall₂_makes labels parts s)
    fun _ _ _ => r.isRenaming.propertyKeys_eq)]
  exact Reading.Rule.rel_step_refl _

/-- The last pass extends the keys of object literals and does not touch them otherwise. -/
theorem Walk.keeps_objectKeysRule (f : FileInfo) : Walk.Keeps (objectKeysRule f) := by
  intro labels k h parts w _ _
  rw [own_objectKeys_congr (flatMap_eq_of_forall₂ (forall₂_makes labels parts w)
    fun _ _ _ => isRenaming.propertyKeys_eq)]
  exact Reading.Rule.rel_step_refl _

namespace Transform

variable {p : Program}

/-- What can be seen from outside is as it was: the exported names, and the keys of object
literals outside of imports and in the attributes of those in `ds`, with generated ones
behind them where a literal has been extended. -/
structure KeepsNames (p p' : Program) (ds : List ImportDecl) : Prop where
  kept : ds.Sublist p.imports
  exports : p'.exports = p.exports
  keys : ∃ image, Multiset.Rel ObjectKeys.Extends
    (p.readOutside objectKeys + readAttributes objectKeys ds) image ∧ image ≤ p'.read objectKeys

/-- Each literal is still there, with its keys in front. -/
theorem KeepsNames.exists_extends {p' : Program} {ds : List ImportDecl} (h : KeepsNames p p' ds)
    {a : ObjectKeys} (ha : a ∈ p.readOutside objectKeys + readAttributes objectKeys ds) :
    ∃ b, a.Extends b ∧ b ∈ p'.read objectKeys := by
  obtain ⟨image, hrel, himage⟩ := h.keys
  obtain ⟨b, hb, hextends⟩ := Multiset.exists_mem_of_rel_of_mem hrel ha
  exact ⟨b, hextends, Multiset.mem_of_le himage hb⟩

/-- **A run exports the same names** if what is exported by name is bound. -/
theorem exports_run (o : Options) (env : FileEnv) (hr : p.ExportsResolved) :
    (run o env p).1.exports = p.exports := by
  have himports : (importPass p (FileState.ofProgram o env p)).1.exportEntries =
      p.exportEntries := by
    cases p with
    | script t => rfl
    | module m => exact (ImportPass.stages_module m _).exportEntries hr
  have hrun : (run o env p).1.exportEntries = p.exportEntries :=
    (Injector.exportEntries_flush _ _).trans ((Walk.exportEntries_program _ _).trans himports)
  rw [Program.exports, hrun, Program.exports]

/-- **Names that can be seen from outside stay.**  A run keeps the sequence of exported
names, and each object literal keeps the keys of its properties, in their order. -/
theorem run_keepsNames (o : Options) (env : FileEnv) (hp : p.wellShaped true = true)
    (hr : p.ExportsResolved) : KeepsNames p (run o env p).1 (keptImports o env p) := by
  obtain ⟨hkept, image, added, hrel, -, hread⟩ :=
    run_passes (R := objectKeysRule (FileState.ofProgram o env p).info) hp
      (fun ts _ => Rewriter.keeps_objectKeysRule ⟨_, ts⟩) (Walk.keeps_objectKeysRule _)
  refine ⟨hkept, exports_run o env hr, image, hrel, ?_⟩
  rw [hread]
  exact Multiset.le_add_right image added

/-- The module `import css from "@emotion/css"; export { css }; export * as ns from "m";
export default { css };`. -/
def exportsCss : Module where
  head := Head.empty
  body :=
    let css (start : Nat) : Ident := ⟨⟨start, start + 3⟩, 2, "css", false⟩
    [.importing ⟨Span.dummy, [.default Span.dummy (css 8)], ⟨Span.dummy, "@emotion/css", none⟩,
      .absent, false, "evaluation"⟩,
     .node (.inner .exportNamed Head.empty
      [.run [.inner .exportSpecifier Head.empty [.ident .exportLocal (css 41), .absent]],
       .absent, .absent]),
     .node (.inner .exportNamed Head.empty
      [.run [.inner .exportNamespace Head.empty [.ident .exported ⟨⟨60, 62⟩, 0, "ns", false⟩]],
       .text ⟨⟨68, 71⟩, "m", none⟩, .absent]),
     .node (.inner .exportDefaultExpression Head.empty
      [.object (Head.ofSpan ⟨88, 95⟩) [.ident .shorthand (css 90)]])]

/-- The binding gets another name everywhere, and the names of the exports and of the property
are those of before. -/
theorem keepsNames_exportsCss :
    (Program.module exportsCss).wellShaped true = true ∧
      (Program.module exportsCss).ExportsResolved ∧
      (∀ a ∈ (run {} ⟨some "a.js", "/", none⟩ (.module exportsCss)).1.mentions,
        a.ident.id ≠ ⟨"css", 2⟩) ∧
      (run {} ⟨some "a.js", "/", none⟩ (.module exportsCss)).1.exports =
        [.name "css", .name "ns", .name "default"] ∧
      ∃ keys, ObjectKeys.Extends ⟨Head.ofSpan ⟨88, 95⟩, [.name "css"]⟩ keys ∧
        keys ∈ (run {} ⟨some "a.js", "/", none⟩ (.module exportsCss)).1.read objectKeys := by
  have hp : (Program.module exportsCss).wellShaped true = true := by decide
  have hentries : (Program.module exportsCss).exportEntries =
      [.outer "css", .declared ⟨⟨60, 62⟩, 0, "ns", false⟩, .outer "default"] := by
    decide
  have hr : (Program.module exportsCss).ExportsResolved := by
    intro x hx
    rw [hentries] at hx
    obtain rfl : x = ⟨⟨60, 62⟩, 0, "ns", false⟩ := by simpa using hx
    decide
  have hrenamed : ∀ a ∈ (run {} ⟨some "a.js", "/", none⟩ (.module exportsCss)).1.mentions,
      a.ident.id ≠ ⟨"css", 2⟩ := by
    decide +kernel
  have h := run_keepsNames {} ⟨some "a.js", "/", none⟩ hp hr
  have hexports : (Program.module exportsCss).exports =
      [.name "css", .name "ns", .name "default"] := by
    rw [Program.exports, hentries]
    rfl
  have hread : ⟨Head.ofSpan ⟨88, 95⟩, [.name "css"]⟩ ∈
      (Program.module exportsCss).readOutside objectKeys +
        readAttributes objectKeys
          (keptImports {} ⟨some "a.js", "/", none⟩ (.module exportsCss)) := by
    decide +kernel
  exact ⟨hp, hr, hrenamed, h.exports.trans hexports, h.exists_extends hread⟩

end Transform
end StyleLowering
