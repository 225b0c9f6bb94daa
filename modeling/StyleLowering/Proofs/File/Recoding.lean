/-
# Two files that differ in numbers and sources only

A recoding gives the syntax contexts of a file other numbers and its imports other sources
(`Recoding`).  A computation on the recoded file follows the one on the file as it was if its
results and its states stay those of the other one, recoded (`Stateful.Follows`).  What looks at
the state of a file follows: an injected import is found under its new source when it was found
under the old one, and the names that are handed out are the same.
-/

import StyleLowering.Proofs.ImportPass.Steps
import StyleLowering.Proofs.Syntax.Renumbering
import Mathlib.Data.List.Find

namespace StyleLowering

open Stateful

namespace Stateful

variable {σ τ α β γ δ : Type} {R : σ → τ → Prop} {F : α → β} {G : γ → δ}

/-- A computation follows another one.  From related states on, its result is what `F` makes of
the result of the other one, and the states behind both are related again. -/
def Follows (R : σ → τ → Prop) (F : α → β) (x : StateM σ α) (y : StateM τ β) : Prop :=
  ∀ ⦃s : σ⦄ ⦃t : τ⦄, R s t → (y t).1 = F (x s).1 ∧ R (x s).2 (y t).2

/-- Runs that change no state follow each other if their values do. -/
theorem follows_pure {a : α} {b : β} (h : b = F a) : Follows R F (pure a) (pure b) :=
  fun _ _ hst => ⟨h, hst⟩

/-- What follows does so step by step. -/
theorem Follows.bind {x : StateM σ α} {y : StateM τ β} (h : Follows R F x y)
    {f : α → StateM σ γ} {g : β → StateM τ δ}
    (hf : ∀ s, Follows R G (f (x s).1) (g (F (x s).1))) :
    Follows R G (x >>= f) (y >>= g) := by
  intro s t hst
  obtain ⟨hresult, hstate⟩ := h hst
  rw [bind_apply, bind_apply, hresult]
  exact hf s hstate

/-- What is computed from the values follows as the values do. -/
theorem Follows.map {x : StateM σ α} {y : StateM τ β} (h : Follows R F x y) {f : α → γ}
    {g : β → δ} (hfg : ∀ a, g (F a) = G (f a)) : Follows R G (f <$> x) (g <$> y) := by
  intro s t hst
  obtain ⟨hresult, hstate⟩ := h hst
  exact ⟨by rw [map_apply, map_apply, hresult, hfg], hstate⟩

/-- Steps that keep the states related follow each other. -/
theorem follows_modify {f : σ → σ} {g : τ → τ} (h : ∀ s t, R s t → R (f s) (g t)) :
    Follows R id (modify f : StateM σ PUnit) (modify g : StateM τ PUnit) :=
  fun s t hst => ⟨rfl, h s t hst⟩

end Stateful

/-! ### Recodings -/

/-- Other numbers for the syntax contexts, and other sources for imports.  The pass asks for
exports of sources; among those that it may ask for, no two of one name get the same source, and
the name of a default export, which is made of its source, stays. -/
structure Recoding extends Renumbering where
  source : String → String
  Asks : String → Export → Prop
  source_injective : ∀ {a b : String} {e : Export}, Asks a e → Asks b e →
    source a = source b → a = b
  source_default : ∀ {a : String}, Asks a .default → source a = a
  asks_css : Asks "@emotion/css" .default
  asks_styled : ∀ t : StyledTarget, Asks t.importPath .default

instance : Coe Recoding Renumbering := ⟨Recoding.toRenumbering⟩

/-- A renumbering that leaves the sources as they are. -/
def Renumbering.recoding (c : Renumbering) : Recoding where
  toRenumbering := c
  source := id
  Asks _ _ := True
  source_injective _ _ h := h
  source_default _ := rfl
  asks_css := trivial
  asks_styled _ := trivial

/-- An import declaration with another source. -/
def ImportDecl.mapSource (f : String → String) (d : ImportDecl) : ImportDecl :=
  { d with source := { d.source with value := f d.source.value } }

/-- An item with another source, if it is an import declaration. -/
def Item.mapSource (f : String → String) : Item → Item
  | .importing d => .importing (d.mapSource f)
  | .node n => .node n

/-- A module whose import declarations have other sources. -/
def Module.mapSources (f : String → String) (m : Module) : Module :=
  { m with body := m.body.map (Item.mapSource f) }

/-- A change of the sources changes the imports and nothing else. -/
theorem Module.imports_mapSources (f : String → String) (m : Module) :
    (m.mapSources f).imports = m.imports.map (ImportDecl.mapSource f) := by
  have hitem : Item.import? ∘ Item.mapSource f =
      fun i => i.import?.map (ImportDecl.mapSource f) := by
    funext i
    cases i <;> rfl
  rw [imports, imports, mapSources, List.filterMap_map, hitem, List.map_filterMap]

section Recode

variable (c : Recoding)

/-- An import declaration, recoded. -/
def ImportDecl.recode (d : ImportDecl) : ImportDecl := (d.mapSource c.source).renumber c

/-- An item, recoded. -/
def Item.recode (i : Item) : Item := (i.mapSource c.source).renumber c

/-- A module, recoded. -/
def Module.recode (m : Module) : Module := (m.mapSources c.source).renumber c

/-- A program, recoded. -/
def Program.recode : Program → Program
  | .module m => .module (m.recode c)
  | .script s => .script (s.renumber c)

/-- An injected import, recoded. -/
def Injection.recode (i : Injection) : Injection :=
  ⟨c.source i.source, i.exported, i.binding.renumber c⟩

/-- The injected imports of a file, recoded. -/
def Injector.recode (j : Injector) : Injector :=
  ⟨j.injected.map (Injection.recode c), j.pending.map (Injection.recode c), j.taken⟩

end Recode

variable {c : Recoding}

/-- A module is recoded item by item. -/
theorem Module.recode_eq (m : Module) :
    m.recode c = ⟨m.head.renumber c, m.body.map (Item.recode c)⟩ := by
  rw [recode, mapSources, renumber, List.map_map]
  rfl

/-- The items of a recoded module. -/
@[simp] theorem Module.body_recode (m : Module) :
    (m.recode c).body = m.body.map (Item.recode c) := by
  rw [recode_eq]

/-- The identifiers of a program are renumbered with it, in their order. -/
theorem Program.mentions_recode (p : Program) :
    (p.recode c).mentions = p.mentions.map (Mention.renumber c) := by
  cases p with
  | module m =>
    have hitem : ∀ i : Item, (i.recode c).mentions = i.mentions.map (Mention.renumber c) := by
      intro i
      rw [Item.recode, Item.mentions_renumber]
      cases i <;> rfl
    rw [Program.recode, Program.mentions, Program.mentions, Module.mentions, Module.mentions,
      Module.body_recode, List.flatMap_map, List.map_flatMap]
    simp only [hitem]
  | script s => exact Node.mentionsAll_renumber fun n _ => Node.mentions_renumber

/-! ### The index -/

namespace Scope

/-- An index under other numbers. -/
def Index.renumber (c : Renumbering) (i : Index) : Index :=
  { i with
    declared := i.declared.map (Id.renumber c)
    uses := i.uses.map fun u => (u.1.renumber c, u.2) }

namespace Index

variable (i : Index) (p : Program)

/-- The index knows the same names under other numbers. -/
@[simp] theorem names_renumber (c : Renumbering) : (i.renumber c).names = i.names := by
  simp [renumber, names, Id.renumber, Function.comp_def]

/-- A binding is used in as many places under other numbers. -/
@[simp] theorem sites?_renumber (c : Renumbering) (x : Id) :
    (i.renumber c).sites? (x.renumber c) = i.sites? x := by
  simp [renumber, sites?, List.filter_map, Function.comp_def]

/-- The same identifiers declare under other numbers. -/
theorem declaredOf_renumber (c : Renumbering) (ms : List Mention) :
    declaredOf (ms.map (Mention.renumber c)) = (declaredOf ms).map (Id.renumber c) := by
  have hrole : isDeclaration ∘ Mention.renumber c = isDeclaration := rfl
  simp [declaredOf, List.filter_map, hrole, Mention.renumber]

/-- The same identifiers are uses under other numbers, with the same bindings. -/
theorem usesOf_renumber (c : Renumbering) (ms : List Mention) :
    usesOf (ms.map (Mention.renumber c)) = (usesOf ms).map fun u => (u.1.renumber c, u.2) := by
  have hrole : isUse ∘ Mention.renumber c = isUse := rfl
  simp [usesOf, List.filter_map, hrole, Mention.renumber]

/-- To rebuild the index and to renumber it is one thing in both orders. -/
theorem rebuild_recode : (i.renumber c).rebuild (p.recode c) = (i.rebuild p).renumber c := by
  rw [rebuild, rebuild, p.mentions_recode, declaredOf_renumber, usesOf_renumber]
  rfl

/-- The index of a renumbered program is its index renumbered. -/
theorem ofProgram_recode : ofProgram (p.recode c) = (ofProgram p).renumber c := by
  rw [ofProgram, ofProgram, p.mentions_recode, declaredOf_renumber, usesOf_renumber]
  rfl

/-- An index that is stale for a program is as stale for the renumbered one. -/
theorem refresh_recode : (i.renumber c).refresh (p.recode c) = (i.refresh p).renumber c := by
  have hstale : (i.renumber c).stale = i.stale := rfl
  rw [refresh, refresh, rebuild_recode, hstale]
  split <;> rfl

end Index
end Scope

/-! ### Injected imports -/

namespace Injector

/-- The injected imports of two files, of which the second one is recoded. -/
structure Recodes (c : Recoding) (j k : Injector) : Prop where
  eq : k = j.recode c
  asked : ∀ i ∈ j.injected, c.Asks i.source i.exported
  generated : ∀ i ∈ j.injected, i.binding.renumber c = i.binding

/-- Two injectors that hold nothing agree. -/
theorem recodes_empty : Recodes c empty empty where
  eq := rfl
  asked _ h := absurd h List.not_mem_nil
  generated _ h := absurd h List.not_mem_nil

variable {j k : Injector} {source : String}

/-- What is found under the new source is what was found under the old one. -/
theorem Recodes.find?_eq (h : Recodes c j k) {e : Export} (ha : c.Asks source e) :
    k.find? (c.source source) e = (j.find? source e).map (Injection.recode c) := by
  rw [h.eq, find?, find?, recode, List.find?_map]
  congr 1
  refine List.find?_congr fun i hi => ?_
  rw [Bool.eq_iff_iff]
  simp only [Function.comp_apply, Injection.recode, Bool.and_eq_true, beq_iff_eq]
  exact and_congr_left fun he =>
    ⟨fun hs => c.source_injective (he ▸ h.asked i hi) ha hs, congrArg c.source⟩

/-- An injected import that was not found is added to both. -/
theorem Recodes.push (h : Recodes c j k) {e : Export} (ha : c.Asks source e) (name : String) :
    let i : Injection := ⟨source, e, .generated name⟩
    let i' : Injection := ⟨c.source source, e, .generated name⟩
    Recodes c ⟨j.injected ++ [i], j.pending ++ [i], j.taken ++ [name]⟩
      ⟨k.injected ++ [i'], k.pending ++ [i'], k.taken ++ [name]⟩ where
  eq := by simp [h.eq, recode, Injection.recode]
  asked i hi := by
    rcases List.mem_append.1 hi with hi | hi
    · exact h.asked i hi
    · rw [List.mem_singleton.1 hi]
      exact ha
  generated i hi := by
    rcases List.mem_append.1 hi with hi | hi
    · exact h.generated i hi
    · rw [List.mem_singleton.1 hi]
      exact Ident.renumber_generated ..

/-- **An export that both runs ask for by their own source is added to both alike.** -/
theorem follows_add {e : Export} (ha : c.Asks source e) (scope : Scope.Index) (hint : String) :
    Follows (Recodes c) (Ident.renumber c) (add scope source e hint)
      (add (scope.renumber c) (c.source source) e hint) := by
  intro j k h
  simp only [add, bind_apply, get_apply]
  rw [h.find?_eq ha]
  cases j.find? source e with
  | some i => exact ⟨rfl, h⟩
  | none =>
    have hname : k.freshName (scope.renumber c) hint = j.freshName scope hint := by
      rw [h.eq, freshName, freshName, Scope.Index.names_renumber]
      rfl
    simp only [Option.map_none, bind_apply, set_apply, pure_apply, hname]
    exact ⟨(Ident.renumber_generated ..).symm, h.push ha _⟩

/-- A default export is added to both alike. -/
theorem follows_addDefault (ha : c.Asks source .default) (scope : Scope.Index) (hint : String) :
    Follows (Recodes c) (Ident.renumber c) (addDefault scope source hint)
      (addDefault (scope.renumber c) source hint) := by
  have hadd := follows_add ha scope hint
  rw [c.source_default ha] at hadd
  exact hadd

/-- An export with a name is added to both alike. -/
theorem follows_addExport {name : String} (ha : c.Asks source (.ofName name))
    (scope : Scope.Index) :
    Follows (Recodes c) (Ident.renumber c) (addExport scope source name)
      (addExport (scope.renumber c) (c.source source) name) := by
  unfold addExport
  unfold Export.ofName at ha
  split
  · next hn =>
    rw [if_pos hn] at ha
    have hadd := follows_addDefault ha scope (lastPiece source)
    rw [c.source_default ha]
    exact hadd
  · next hn =>
    rw [if_neg hn] at ha
    exact follows_add ha scope name

end Injector

/-! ### The state of a file -/

namespace FileState

/-- The states of two files, of which the second one is recoded. -/
structure Recodes (c : Recoding) (info : FileInfo) (s t : FileState) : Prop where
  info_eq : s.info = info
  info_eq' : t.info = info
  registry : s.registry.IsOf info
  registry' : t.registry.IsOf info
  scope : t.scope = s.scope.renumber c
  imports : s.imports.Recodes c t.imports
  cssBinding : t.cssBinding = s.cssBinding.map (Ident.renumber c)
  targets : t.targets = s.targets

variable {info : FileInfo} {α β : Type} {F : α → β}

/-- What the injector does alike, the state of the file does alike. -/
theorem follows_inject {f g : Scope.Index → StateM Injector _}
    (h : ∀ scope, Follows (Injector.Recodes c) F (f scope) (g (scope.renumber c))) :
    Follows (Recodes c info) F (inject f) (inject g) := by
  intro s t hst
  obtain ⟨hresult, himports⟩ := h s.scope hst.imports
  rw [← hst.scope] at hresult himports
  exact ⟨hresult, { hst with imports := himports }⟩

/-- A count that reads the same facts of the file is the same. -/
theorem follows_count {f g : FileInfo → StateM Nat _} (h : ∀ info, g info = F <$> f info) :
    Follows (Recodes c info) F (count f) (count g) := by
  intro s t hst
  have hcount : g t.info t.targets = (F (f s.info s.targets).1, (f s.info s.targets).2) := by
    rw [h, hst.targets, hst.info_eq, hst.info_eq', map_apply]
  exact ⟨congrArg Prod.fst hcount, { hst with targets := congrArg Prod.snd hcount }⟩

/-- Both runs forget their index at once. -/
theorem follows_invalidate : Follows (Recodes c info) id invalidate invalidate :=
  follows_modify fun s t hst => { hst with scope := by rw [hst.scope]; rfl }

/-- Both runs are given the function that names classes under their own source. -/
theorem follows_cssIdentifier :
    Follows (Recodes c info) (Ident.renumber c) cssIdentifier cssIdentifier := by
  intro s t hst
  simp only [cssIdentifier, bind_apply, get_apply]
  rw [hst.cssBinding]
  cases s.cssBinding with
  | some x => exact ⟨rfl, hst⟩
  | none =>
    have hadd : Follows (Recodes c info) (Ident.renumber c)
        (inject (Injector.addDefault · "@emotion/css" "css"))
        (inject (Injector.addDefault · "@emotion/css" "css")) :=
      follows_inject fun scope => Injector.follows_addDefault c.asks_css scope "css"
    obtain ⟨hresult, hinject⟩ := hadd hst
    simp only [Option.map_none, bind_apply, modify_apply, pure_apply]
    exact ⟨hresult, { hinject with cssBinding := congrArg some hresult }⟩

end FileState
end StyleLowering
