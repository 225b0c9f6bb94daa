/-
# The import pass as a sequence of rewrites

Each import declaration hands the rewriting pass a table of targets, an empty one
if it is left alone (`ImportPass.targets`).  The import pass rewrites the module
with one table after the other, and some declarations leave the module in
between (`ImportPass.stages_module`).  What the pass injects is of no concern
here.
-/

import StyleLowering.Proofs.ImportPass.Cases
import StyleLowering.Proofs.Rewrite.Frame
import StyleLowering.Proofs.Recipe.Expand

namespace StyleLowering

open Stateful

/-- States of a file that differ neither in the facts about it nor in the counter. -/
structure FileState.Alike (s s' : FileState) : Prop where
  info : s'.info = s.info
  targets : s'.targets = s.targets

namespace ReferenceMap

variable {scope : Scope.Index} {m refs : ReferenceMap}

/-- The bindings of the references. -/
def bindings (m : ReferenceMap) : List Id := m.map (·.2.binding)

/-- The bindings are those that were there and the one that is inserted. -/
theorem bindings_insert {name : String} {r : References} {x : Id}
    (hx : x ∈ (m.insert name r).bindings) : x ∈ m.bindings ∨ x = r.binding := by
  induction m with
  | nil => exact .inr (List.mem_singleton.1 hx)
  | cons f m ih =>
    rw [insert] at hx
    split at hx
    · rcases List.mem_cons.1 hx with rfl | hx
      · exact .inr rfl
      · exact .inl (List.mem_cons_of_mem _ hx)
    · rcases List.mem_cons.1 hx with rfl | hx
      · exact .inl (List.mem_cons_self ..)
      · exact (ih hx).imp_left (List.mem_cons_of_mem _)

/-- References are of bindings that the specifiers declare. -/
theorem bindings_collect {ss : List ImportSpecifier} (h : collect scope m ss = some refs) :
    ∀ x ∈ refs.bindings, x ∈ m.bindings ∨ x ∈ ss.map (·.binding.id) := by
  induction ss generalizing m with
  | nil =>
    cases h
    exact fun x hx => .inl hx
  | cons s ss ih =>
    intro x hx
    rcases collect_cons h with ⟨-, h⟩ | ⟨name, sites, -, -, h⟩
    · exact (ih h x hx).imp_right (List.mem_cons_of_mem _)
    · rcases ih h x hx with hx | hx
      · rcases bindings_insert hx with hx | rfl
        · exact .inl hx
        · exact .inr (List.mem_cons_self ..)
      · exact .inr (List.mem_cons_of_mem _ hx)

/-- The binding of used references is among the bindings. -/
theorem binding_mem_of_used? {name : String} {rf : References} (h : refs.used? name = some rf) :
    rf.binding ∈ refs.bindings := by
  obtain ⟨hl, -⟩ := Option.filter_eq_some_iff.1 h
  obtain ⟨before, after, rfl, -⟩ := List.lookup_eq_some_iff.1 hl
  exact List.mem_map.2 ⟨(name, rf), by simp, rfl⟩

end ReferenceMap

namespace Recipe

variable {refs : ReferenceMap} {s : FileState} {e : Id × Rewrite.Target}

/-- To find the targets of a library changes nothing but the injected imports. -/
theorem snd_runtimeTargets (path : String) (ts : Rewrite.Targets) (refs : ReferenceMap)
    (s : FileState) :
    (runtimeTargets path ts refs s).2 =
      { s with imports := (runtimeTargets path ts refs s).2.imports } := by
  induction refs generalizing ts s with
  | nil => rfl
  | cons e refs ih =>
    rw [runtimeTargets, bind_apply]
    exact (ih _ _).trans rfl

/-- Making the targets of a recipe changes nothing but the injected imports. -/
theorem snd_targets (r : Recipe) (refs : ReferenceMap) (s : FileState) :
    (r.targets refs s).2 = { s with imports := (r.targets refs s).2.imports } := by
  cases r with
  | css => rw [targets]; cases refs.used? "default" <;> rfl
  | styled t => rw [targets]; cases refs.used? "default" <;> rfl
  | core => rw [targets]; cases refs.used? "css" <;> rfl
  | emotion path => exact snd_runtimeTargets path [] refs.used s

/-- To find the targets of a recipe leaves the state alike. -/
theorem alike_targets (r : Recipe) (refs : ReferenceMap) (s : FileState) :
    s.Alike (r.targets refs s).2 := by
  rw [snd_targets]
  exact ⟨rfl, rfl⟩

/-- The targets of a library are bound by the references. -/
theorem fst_mem_runtimeTargets {path : String} {ts : Rewrite.Targets} {m : ReferenceMap}
    (h : e ∈ (runtimeTargets path ts m s).1) : e ∈ ts ∨ e.1 ∈ m.bindings := by
  induction m generalizing ts s with
  | nil => exact .inl h
  | cons f m ih =>
    obtain ⟨name, refs⟩ := f
    rw [runtimeTargets, bind_apply] at h
    rcases ih h with h | h
    · rcases List.mem_cons.1 h with rfl | h
      · exact .inr (List.mem_cons_self ..)
      · exact .inl h
    · exact .inr (List.mem_cons_of_mem _ h)

/-- A recipe for one export has the binding of that export as its only target. -/
theorem fst_mem_of_used? {name : String} {f : References → FileM Rewrite.Targets}
    (hf : ∀ rf, ∃ t, (f rf s).1 = [(rf.binding, t)])
    (h : e ∈ ((match refs.used? name with | some rf => f rf | none => pure []) s).1) :
    e.1 ∈ refs.bindings := by
  cases hu : refs.used? name with
  | none =>
    rw [hu] at h
    exact absurd h List.not_mem_nil
  | some rf =>
    obtain ⟨t, ht⟩ := hf rf
    rw [hu] at h
    dsimp only at h
    rw [ht] at h
    rw [List.mem_singleton.1 h]
    exact ReferenceMap.binding_mem_of_used? hu

/-- The targets of a recipe are bindings of the references. -/
theorem fst_mem_targets {r : Recipe} (h : e ∈ (r.targets refs s).1) : e.1 ∈ refs.bindings := by
  cases r with
  | css => exact fst_mem_of_used? (fun _ => ⟨_, rfl⟩) h
  | styled t => exact fst_mem_of_used? (fun _ => ⟨_, rfl⟩) h
  | core => exact fst_mem_of_used? (fun _ => ⟨_, rfl⟩) h
  | emotion path =>
    rcases fst_mem_runtimeTargets h with h | h
    · exact absurd h List.not_mem_nil
    · obtain ⟨f, hf, hb⟩ := List.mem_map.1 h
      exact List.mem_map.2 ⟨f, List.mem_of_mem_filter hf, hb⟩

end Recipe

namespace ImportPass

/-- A module is rewritten with a table of targets. -/
structure Rewritten (ts : Rewrite.Targets) (m : Module) (s : FileState) (m' : Module)
    (s' : FileState) : Prop where
  module : m' = ((Rewriter.mk s.info ts).module m s.targets).1
  targets : s'.targets = ((Rewriter.mk s.info ts).module m s.targets).2
  info : s'.info = s.info

variable {ts : Rewrite.Targets} {m m₁ m' : Module} {s s₁ s' : FileState} {d : ImportDecl}

/-- Without targets nothing is rewritten. -/
theorem Rewritten.of_nil (h : s.Alike s') : Rewritten [] m s m s' := by
  have hm := Rewriter.module_of_avoids ⟨s.info, []⟩ (Rewrite.Targets.avoids_nil m.outside)
    s.targets
  exact ⟨by rw [hm], by rw [hm, h.targets], h.info⟩

/-- A state that is alike is as good to rewrite from. -/
theorem Rewritten.after (h : s.Alike s₁) (hr : Rewritten ts m s₁ m' s') :
    Rewritten ts m s m' s' := by
  obtain ⟨hm, ht, hi⟩ := hr
  rw [h.info, h.targets] at hm ht
  exact ⟨hm, ht, hi.trans h.info⟩

/-- **A recipe rewrites the module with its targets.** -/
theorem rewritten_expand (r : Recipe) (refs : ReferenceMap) (m : Module) (s : FileState) :
    Rewritten (r.targets refs s).1 m s (r.expand refs true m s).1 (r.expand refs true m s).2 := by
  have halike := r.alike_targets refs s
  simp only [Recipe.expand, bind_apply, Recipe.prepare_true]
  generalize r.targets refs s = p at halike
  obtain ⟨ts, s'⟩ := p
  refine Rewritten.after halike ?_
  cases ts with
  | nil => exact .of_nil ⟨rfl, rfl⟩
  | cons t ts => exact ⟨rfl, rfl, rfl⟩

/-- The targets of an import declaration: those of the recipe for its source, and none
if the declaration is left alone. -/
def targets (d : ImportDecl) (m : Module) (s : FileState) : Rewrite.Targets :=
  let s := (registerInstance d.source.value s).2
  match s.registry.get? d.source.value with
  | none => []
  | some recipe =>
    if d.specifiers.any (·.isStar) then []
    else
      let scope := s.scope.refresh (.module m)
      match ReferenceMap.collect scope [] d.specifiers with
      | none => []
      | some refs =>
        if refs.all fun e => !e.2.isUsed then []
        else (recipe.targets refs { s with scope := scope.rebuild (.module m) }).1

/-- The targets of a declaration, with the state that they are made in. -/
theorem targets_apply (d : ImportDecl) (m : Module) (s : FileState) :
    targets d m s =
      match recipeOf? d s with
      | none => []
      | some recipe =>
        if d.specifiers.any (·.isStar) then []
        else
          match references? d m s with
          | none => []
          | some refs =>
            if refs.all fun e => !e.2.isUsed then [] else (recipe.targets refs (rebuilt d m s)).1 :=
  rfl

/-- What dealing with one declaration amounts to. -/
structure Deals (d : ImportDecl) (ts : Rewrite.Targets) (m : Module) (s : FileState) (o : Outcome)
    (m' : Module) (s' : FileState) : Prop where
  rewritten : Rewritten ts m s m' s'
  bindings : ∀ e ∈ ts, e.1 ∈ d.bindings
  /-- Nothing happens and nothing is injected unless the declaration is expanded. -/
  left : (∀ keep, o ≠ .expanded keep) → m' = m ∧ s'.imports = s.imports

/-- A declaration that is left alone has no targets. -/
theorem Deals.of_left {o : Outcome} (h : s.Alike s') (hi : s'.imports = s.imports) :
    Deals d [] m s o m s' :=
  ⟨.of_nil h, fun _ he => absurd he List.not_mem_nil, fun _ => ⟨rfl, hi⟩⟩

/-- **One declaration.**  The module is rewritten with its targets. -/
theorem deals_importDecl (d : ImportDecl) (m : Module) (s : FileState) :
    Deals d (targets d m s) m s (importDecl d m s).1.1 (importDecl d m s).1.2
      (importDecl d m s).2 := by
  have hregistered : s.Alike (registered d s) := ⟨info_registered d s, targets_registered d s⟩
  have hrefreshed : s.Alike (refreshed d m s) := ⟨hregistered.info, hregistered.targets⟩
  have hrebuilt : s.Alike (rebuilt d m s) := ⟨hregistered.info, hregistered.targets⟩
  have himports := imports_registered d s
  rw [importDecl_apply, targets_apply]
  cases recipeOf? d s with
  | none => exact .of_left hregistered himports
  | some recipe =>
    dsimp only
    split
    · exact .of_left hregistered himports
    · cases hrefs : references? d m s with
      | none => exact .of_left hrefreshed himports
      | some refs =>
        dsimp only
        split
        · exact .of_left hrefreshed himports
        · refine ⟨?_, fun e he => ?_, fun h => absurd rfl (h recipe.keepsImport)⟩
          · obtain ⟨hmodule, htargets, hinfo⟩ := Rewritten.after hrebuilt
              (rewritten_expand recipe refs m (rebuilt d m s))
            exact ⟨hmodule, htargets, hinfo⟩
          · have hb := ReferenceMap.bindings_collect hrefs _ (Recipe.fst_mem_targets he)
            exact hb.resolve_left List.not_mem_nil

/-- The tables of targets with which the last `n` items of a module are dealt with. -/
def tables : (n : Nat) → Module → FileState → List Rewrite.Targets
  | 0, _, _ => []
  | n + 1, m, s =>
    let i := m.body.length - (n + 1)
    match m.body[i]? with
    | some (.importing d) =>
      let ((o, m'), s') := importDecl d m s
      targets d m s ::
        if o = .expanded false then
          tables n { m' with body := m'.body.eraseIdx i } (FileState.invalidate s').2
        else tables n m' s'
    | _ => tables n m s

/-- The import pass as a sequence of rewrites: the module is rewritten with the targets of
one of its declarations, or a declaration leaves it. -/
inductive Stages : List Rewrite.Targets → Module → FileState → Module → FileState → Prop where
  | done {m : Module} {s : FileState} : Stages [] m s m s
  | rewrite {d : ImportDecl} {ts : Rewrite.Targets} {tss : List Rewrite.Targets}
      {m m₁ m' : Module} {s s₁ s' : FileState} (hd : d ∈ m.imports)
      (hts : ∀ e ∈ ts, e.1 ∈ d.bindings) (h : Rewritten ts m s m₁ s₁)
      (rest : Stages tss m₁ s₁ m' s') : Stages (ts :: tss) m s m' s'
  | drop {d : ImportDecl} {tss : List Rewrite.Targets} {m m₁ m' : Module} {s s₁ s' : FileState}
      (h : m.Drops d m₁) (ha : s.Alike s₁) (rest : Stages tss m₁ s₁ m' s') : Stages tss m s m' s'

/-- Where a declaration stood before the rewrite, it can be taken out afterwards. -/
theorem drops_eraseIdx (h : m.KeepsImports m') {i : Nat} (hi : m.body[i]? = some (.importing d)) :
    m'.Drops d { m' with body := m'.body.eraseIdx i } := by
  obtain ⟨hlt, hget⟩ := List.getElem?_eq_some_iff.1 hi
  have hbody : m.body = m.body.take i ++ .importing d :: m.body.drop (i + 1) := by
    rw [← hget, ← List.drop_eq_getElem_cons hlt, List.take_append_drop]
  obtain ⟨before, after, hb, hlength, -⟩ := h.split hbody
  rw [List.length_take_of_le (Nat.le_of_lt hlt)] at hlength
  refine ⟨before, after, hb, ?_⟩
  dsimp only
  rw [hb, ← hlength, List.eraseIdx_append_of_length_le (Nat.le_refl _), Nat.sub_self]
  rfl

/-- **The loop over the imports is a sequence of rewrites and drops.** -/
theorem stages_remaining (n : Nat) (m : Module) (s : FileState) :
    Stages (tables n m s) m s (remaining n m s).1.2 (remaining n m s).2 := by
  induction n generalizing m s with
  | zero => exact .done
  | succ n ih =>
    rw [remaining, tables]
    dsimp only
    cases hi : m.body[m.body.length - (n + 1)]? with
    | none => exact ih m s
    | some i =>
      cases i with
      | node t => exact ih m s
      | importing d =>
        have hd : d ∈ m.imports := Module.mem_imports.2 (List.mem_of_getElem? hi)
        obtain ⟨hrewritten, hbindings, -⟩ := deals_importDecl d m s
        have hkeeps : m.KeepsImports (importDecl d m s).1.2 := by
          rw [hrewritten.module]
          exact Rewriter.keepsImports_module _ m s.targets
        dsimp only
        simp only [bind_apply]
        generalize importDecl d m s = p at hrewritten hkeeps ⊢
        obtain ⟨⟨o, m'⟩, s'⟩ := p
        dsimp only at hrewritten hkeeps ⊢
        refine .rewrite hd hbindings hrewritten ?_
        split
        · have hrest := ih { m' with body := m'.body.eraseIdx (m.body.length - (n + 1)) }
            (FileState.invalidate s').2
          have halike : s'.Alike (FileState.invalidate s').2 := ⟨rfl, rfl⟩
          exact .drop (drops_eraseIdx hkeeps hi) halike hrest
        · exact ih m' s'

/-- **The import pass is a sequence of rewrites.** -/
theorem stages_module (m : Module) (s : FileState) :
    Stages (tables m.body.length m s) m s (module m s).1.2 (module m s).2 :=
  stages_remaining m.body.length m s

end ImportPass
end StyleLowering
