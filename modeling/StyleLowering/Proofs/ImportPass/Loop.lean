/-
# The import pass as a loop

The pass walks through a list that gets shorter on the way, while what it does to one
declaration rewrites the other items.  `ImportPass.Loops` is that loop with its index, step by
step: it stays where it is when a declaration is taken out, and goes on otherwise.  The loop
comes to an end, in one way only, and what it leaves behind is what `ImportPass.module`
computes (`ImportPass.module_runsThrough`): one outcome for each declaration, in their order,
and the items of the module without the declarations that were expanded and not kept, also in
their order.  A declaration that is not expanded changes nothing that can be seen.
-/

import StyleLowering.Proofs.ImportPass.Cases
import StyleLowering.Proofs.ImportPass.Stages

namespace StyleLowering

open Stateful

/-! ### Items in their places -/

/-- What passes over a module make of an item: import declarations stay, and any other item
is rewritten in its place, a number of times. -/
inductive Item.RewritesTo : Item → Item → Prop where
  | refl (i : Item) : RewritesTo i i
  | step {i j : Item} (h : RewritesTo i j) (r : Rewriter) (c : Nat) : RewritesTo i (r.item j c).1

namespace Item

variable {i j k : Item} {is js ks : List Item} {os : List Outcome}

/-- An item that is rewritten twice is rewritten. -/
theorem RewritesTo.trans (h : RewritesTo i j) (h' : RewritesTo j k) : RewritesTo i k := by
  induction h' with
  | refl => exact h
  | step _ r c ih => exact .step ih r c

/-- An import declaration stays, and nothing else becomes one. -/
theorem RewritesTo.import?_eq (h : RewritesTo i j) : j.import? = i.import? := by
  induction h with
  | refl => rfl
  | @step j _ r c ih =>
    rw [← ih]
    cases j with
    | importing d => rw [r.item_importing]
    | node n => rw [r.item_node]; rfl

/-- Items, each rewritten in its place. -/
abbrev AllRewriteTo (is js : List Item) : Prop := List.Forall₂ RewritesTo is js

/-- Items that stay are rewritten no times. -/
theorem allRewriteTo_refl (is : List Item) : AllRewriteTo is is :=
  List.forall₂_same.2 fun i _ => .refl i

/-- Items that are rewritten twice are rewritten. -/
theorem AllRewriteTo.trans (h : AllRewriteTo is js) (h' : AllRewriteTo js ks) :
    AllRewriteTo is ks := by
  induction h generalizing ks with
  | nil => exact h'
  | cons h _ ih =>
    cases h' with
    | cons h' hrest => exact .cons (h.trans h') (ih hrest)

/-- Items without the import declarations that leave; the outcomes are those of the
declarations, in their order. -/
def staying : List Item → List Outcome → List Item
  | [], _ => []
  | .node n :: is, os => .node n :: staying is os
  | .importing d :: is, [] => .importing d :: staying is []
  | .importing d :: is, o :: os =>
    if o = .expanded false then staying is os else .importing d :: staying is os

/-- Which items leave does not depend on how they are rewritten. -/
theorem AllRewriteTo.staying (h : AllRewriteTo is js) (os : List Outcome) :
    AllRewriteTo (staying is os) (staying js os) := by
  induction h generalizing os with
  | nil => exact .nil
  | @cons i j is js h _ ih =>
    cases i with
    | node n =>
      cases j with
      | node n' => exact .cons h (ih os)
      | importing d => cases h.import?_eq
    | importing d =>
      cases j with
      | node n' => cases h.import?_eq
      | importing d' =>
        cases os with
        | nil => exact .cons h (ih [])
        | cons o os =>
          rw [Item.staying, Item.staying]
          split
          · exact ih os
          · exact .cons h (ih os)

end Item

namespace ImportPass

/-! ### The loop -/

/-- A declaration that is dealt with, and the module and the state of the file at that time. -/
structure Visit where
  decl : ImportDecl
  module : Module
  state : FileState

namespace Visit

variable (v : Visit)

/-- What happens to the declaration. -/
def outcome : Outcome := (importDecl v.decl v.module v.state).1.1

/-- The module when the declaration has been dealt with and is still in its place. -/
def rewritten : Module := (importDecl v.decl v.module v.state).1.2

/-- The state when the declaration has been dealt with. -/
def after : FileState := (importDecl v.decl v.module v.state).2

/-- The module without the declaration, which is its item with the given index. -/
def removed (index : Nat) : Module :=
  { v.rewritten with body := v.rewritten.body.eraseIdx index }

/-- Nothing has changed but what is known of the file: its registry and its scope index. -/
structure LeavesAlone : Prop where
  module : v.rewritten = v.module
  state : ∃ registry scope, v.after = { v.state with registry := registry, scope := scope }

end Visit

/-- **The loop.**  From the item with the index `i` on, it takes a module and the state of its
file to others, and deals with some declarations on the way.  It ends behind the last item.  An
item that is no import declaration is passed by.  A declaration that is expanded and not kept is
taken out, the index is marked as stale, and the next item is the one that comes to stand at
`i`; behind any other declaration the loop goes on. -/
inductive Loops : Nat → Module → FileState → List Visit → Module → FileState → Prop where
  | done {i : Nat} {m : Module} {s : FileState} (h : m.body.length ≤ i) : Loops i m s [] m s
  | pass {i : Nat} {m m' : Module} {s s' : FileState} {n : Node} {vs : List Visit}
      (h : m.body[i]? = some (.node n)) (rest : Loops (i + 1) m s vs m' s') :
      Loops i m s vs m' s'
  | remove {i : Nat} {m m' : Module} {s s' : FileState} {d : ImportDecl} {vs : List Visit}
      (h : m.body[i]? = some (.importing d)) (ho : Visit.outcome ⟨d, m, s⟩ = .expanded false)
      (rest : Loops i (Visit.removed ⟨d, m, s⟩ i) (FileState.invalidate (Visit.after ⟨d, m, s⟩)).2
        vs m' s') :
      Loops i m s (⟨d, m, s⟩ :: vs) m' s'
  | stay {i : Nat} {m m' : Module} {s s' : FileState} {d : ImportDecl} {vs : List Visit}
      (h : m.body[i]? = some (.importing d)) (ho : Visit.outcome ⟨d, m, s⟩ ≠ .expanded false)
      (rest : Loops (i + 1) (Visit.rewritten ⟨d, m, s⟩) (Visit.after ⟨d, m, s⟩) vs m' s') :
      Loops i m s (⟨d, m, s⟩ :: vs) m' s'

variable {i : Nat} {m m' m'' : Module} {s s' s'' : FileState} {vs vs' : List Visit} (v : Visit)

/-- A visit leaves as many items as there were. -/
theorem Visit.length_rewritten : v.rewritten.body.length = v.module.body.length :=
  length_body_importDecl v.decl v.module v.state

/-- There is only one way for the loop to go. -/
theorem Loops.unique (h : Loops i m s vs m' s') (h' : Loops i m s vs' m'' s'') :
    vs' = vs ∧ m'' = m' ∧ s'' = s' := by
  have habsent : ∀ {i : Nat} {m : Module} {a : Item}, m.body.length ≤ i → m.body[i]? ≠ some a :=
    fun hlen ha => by rw [List.getElem?_eq_none hlen] at ha; cases ha
  have heq : ∀ {i : Nat} {m : Module} {a b : Item}, m.body[i]? = some a → m.body[i]? = some b →
      a = b := fun ha hb => Option.some.inj (ha.symm.trans hb)
  -- What stands at the index, and the outcome of it, leave one step only.
  induction h generalizing vs' m'' s'' with
  | done hi =>
    cases h' with
    | done => exact ⟨rfl, rfl, rfl⟩
    | pass hi' => exact absurd hi' (habsent hi)
    | remove hi' => exact absurd hi' (habsent hi)
    | stay hi' => exact absurd hi' (habsent hi)
  | pass hi _ ih =>
    cases h' with
    | done hi' => exact absurd hi (habsent hi')
    | pass _ rest => exact ih rest
    | remove hi' => cases heq hi hi'
    | stay hi' => cases heq hi hi'
  | remove hi ho _ ih =>
    cases h' with
    | done hi' => exact absurd hi (habsent hi')
    | pass hi' => cases heq hi hi'
    | remove hi' _ rest =>
      cases heq hi hi'
      obtain ⟨rfl, rfl, rfl⟩ := ih rest
      exact ⟨rfl, rfl, rfl⟩
    | stay hi' ho' =>
      cases heq hi hi'
      exact absurd ho ho'
  | stay hi ho _ ih =>
    cases h' with
    | done hi' => exact absurd hi (habsent hi')
    | pass hi' => cases heq hi hi'
    | remove hi' ho' =>
      cases heq hi hi'
      exact absurd ho' ho
    | stay hi' _ rest =>
      cases heq hi hi'
      obtain ⟨rfl, rfl, rfl⟩ := ih rest
      exact ⟨rfl, rfl, rfl⟩

/-- **The loop comes to an end,** and leaves behind what dealing with the last `n` items does. -/
theorem loops_remaining (n : Nat) (hn : n ≤ m.body.length) :
    ∃ vs, (remaining n m s).1.1 = vs.map Visit.outcome ∧
      Loops (m.body.length - n) m s vs (remaining n m s).1.2 (remaining n m s).2 := by
  induction n generalizing m s with
  | zero => exact ⟨[], rfl, .done (Nat.le_refl _)⟩
  | succ n ih =>
    have hnext : m.body.length - (n + 1) + 1 = m.body.length - n := by omega
    have hlt : m.body.length - (n + 1) < m.body.length := by omega
    obtain ⟨a, ha⟩ : ∃ a, m.body[m.body.length - (n + 1)]? = some a :=
      ⟨_, List.getElem?_eq_getElem hlt⟩
    rw [remaining]
    dsimp only
    rw [ha]
    cases a with
    | node t =>
      obtain ⟨vs, hvs, hloop⟩ := ih (s := s) (Nat.le_of_succ_le hn)
      exact ⟨vs, hvs, .pass ha (hnext ▸ hloop)⟩
    | importing d =>
      let v : Visit := ⟨d, m, s⟩
      have hlength : v.rewritten.body.length = m.body.length := v.length_rewritten
      dsimp only
      simp only [bind_apply]
      by_cases ho : (importDecl d m s).1.1 = .expanded false
      · -- the item behind the declaration comes to stand where the declaration was
        let m₁ := v.removed (m.body.length - (n + 1))
        have hremoved : m₁.body.length = m.body.length - 1 :=
          (List.length_eraseIdx_of_lt (hlength ▸ hlt)).trans (by rw [hlength])
        obtain ⟨vs, hvs, hloop⟩ := ih (m := m₁) (s := (FileState.invalidate v.after).2) (by omega)
        have hindex : m₁.body.length - n = m.body.length - (n + 1) := by omega
        rw [if_pos ho]
        rw [hindex] at hloop
        exact ⟨v :: vs, congrArg₂ List.cons rfl hvs, .remove ha ho hloop⟩
      -- the declaration stays, so the next item is the one behind it
      · obtain ⟨vs, hvs, hloop⟩ := ih (m := v.rewritten) (s := v.after) (by omega)
        have hindex : v.rewritten.body.length - n = m.body.length - (n + 1) + 1 := by omega
        rw [if_neg ho]
        rw [hindex] at hloop
        exact ⟨v :: vs, congrArg₂ List.cons rfl hvs, .stay ha ho hloop⟩

/-- The loop through a whole module. -/
theorem loops_module (m : Module) (s : FileState) :
    ∃ vs, (module m s).1.1 = vs.map Visit.outcome ∧
      Loops 0 m s vs (module m s).1.2 (module m s).2 := by
  obtain ⟨vs, houtcomes, hloop⟩ := loops_remaining (s := s) m.body.length (Nat.le_refl _)
  rw [Nat.sub_self] at hloop
  exact ⟨vs, houtcomes, hloop⟩

/-! ### What the loop does -/

/-- Dealing with a declaration rewrites items in their places. -/
theorem Visit.allRewriteTo : Item.AllRewriteTo v.module.body v.rewritten.body := by
  have hmodule := (deals_importDecl v.decl v.module v.state).rewritten.module
  rw [rewritten, hmodule, Rewriter.body_module]
  exact Rewriter.forall₂_items _ (fun i _ c => .step (.refl i) _ c) _

/-- A declaration that is not expanded is left alone. -/
theorem Visit.leavesAlone (h : ∀ keep, v.outcome ≠ .expanded keep) : v.LeavesAlone := by
  obtain ⟨d, m, s⟩ := v
  have hregistered : ∃ registry scope,
      registered d s = { s with registry := registry, scope := scope } :=
    ⟨_, s.scope, registered_eq d s⟩
  have hrefreshed : ∃ registry scope,
      refreshed d m s = { s with registry := registry, scope := scope } :=
    ⟨_, _, by rw [refreshed, registered_eq]⟩
  have hcases : (∀ keep, (importDecl d m s).1.1 ≠ .expanded keep) →
      (importDecl d m s).1.2 = m ∧ ∃ registry scope,
        (importDecl d m s).2 = { s with registry := registry, scope := scope } := by
    refine importDecl_cases d m s
      (P := fun p => (∀ keep, p.1.1 ≠ .expanded keep) →
        p.1.2 = m ∧ ∃ registry scope, p.2 = { s with registry := registry, scope := scope })
      ?_ ?_ ?_ ?_ ?_
    · exact fun _ _ => ⟨rfl, hregistered⟩
    · exact fun _ _ _ _ => ⟨rfl, hregistered⟩
    · exact fun _ _ _ _ _ => ⟨rfl, hrefreshed⟩
    · exact fun _ _ _ _ _ _ _ => ⟨rfl, hrefreshed⟩
    · exact fun recipe _ _ _ _ _ hnot => absurd rfl (hnot recipe.keepsImport)
  exact ⟨(hcases h).1, (hcases h).2⟩

/-- What stands in front of a declaration that is taken out, and what stands behind it. -/
theorem Visit.take_removed (h : i < v.module.body.length) :
    (v.removed i).body.take i = v.rewritten.body.take i ∧
      (v.removed i).body.drop i = v.rewritten.body.drop (i + 1) := by
  have hlength : (v.rewritten.body.take i).length = i :=
    List.length_take_of_le (v.length_rewritten ▸ Nat.le_of_lt h)
  rw [removed, List.eraseIdx_eq_take_drop_succ]
  exact ⟨List.take_left' hlength, List.drop_left' hlength⟩

/-- A list is what stands before an item, the item, and what stands behind it. -/
theorem take_drop_of_getElem? {is : List Item} {a : Item} (h : is[i]? = some a) :
    is.take (i + 1) = is.take i ++ [a] ∧ is.drop i = a :: is.drop (i + 1) := by
  refine ⟨?_, ?_⟩
  · rw [List.take_add_one, h]
    rfl
  · rw [List.drop_eq_getElem?_toList_append, h]
    rfl

/-- The declarations from the item with the index `i` on are dealt with, one after the other. -/
theorem Loops.map_decl (h : Loops i m s vs m' s') :
    vs.map Visit.decl = (m.body.drop i).filterMap Item.import? := by
  have hbehind : ∀ (v : Visit) (i : Nat), (v.rewritten.body.drop i).filterMap Item.import? =
      (v.module.body.drop i).filterMap Item.import? := fun v i =>
    Module.filterMap_import?_of_forall₂
      ((List.forall₂_drop i v.allRewriteTo).imp fun _ _ h => h.import?_eq)
  induction h with
  | done hi =>
    rw [List.drop_eq_nil_of_le hi]
    rfl
  | pass hi _ ih =>
    rw [(take_drop_of_getElem? hi).2, ih]
    rfl
  | @remove i m m' s s' d vs hi _ _ ih =>
    rw [(Visit.take_removed ⟨d, m, s⟩ (List.getElem?_eq_some_iff.1 hi).1).2, hbehind] at ih
    rw [(take_drop_of_getElem? hi).2, List.map_cons, ih]
    rfl
  | stay hi _ _ ih =>
    rw [hbehind] at ih
    rw [(take_drop_of_getElem? hi).2, List.map_cons, ih]
    rfl

/-- The items that stay keep their order, and each is rewritten in its place. -/
theorem Loops.body (h : Loops i m s vs m' s') :
    Item.AllRewriteTo
      (m.body.take i ++ Item.staying (m.body.drop i) (vs.map Visit.outcome)) m'.body := by
  -- A visit rewrites the items in front of the index too, those that have been passed.
  have hfront : ∀ (v : Visit) (i j : Nat) (os : List Outcome), Item.AllRewriteTo
      (v.module.body.take i ++ Item.staying (v.module.body.drop j) os)
      (v.rewritten.body.take i ++ Item.staying (v.rewritten.body.drop j) os) := fun v i j os =>
    List.rel_append (List.forall₂_take i v.allRewriteTo)
      (Item.AllRewriteTo.staying (List.forall₂_drop j v.allRewriteTo) os)
  induction h with
  | done hi =>
    rw [List.drop_eq_nil_of_le hi, List.take_of_length_le hi, Item.staying, List.append_nil]
    exact Item.allRewriteTo_refl _
  | pass hi _ ih =>
    obtain ⟨htake, hdrop⟩ := take_drop_of_getElem? hi
    rw [htake, List.append_assoc] at ih
    rw [hdrop]
    exact ih
  | @remove i m m' s s' d vs hi ho _ ih =>
    let v : Visit := ⟨d, m, s⟩
    obtain ⟨htake, hdrop⟩ := v.take_removed (List.getElem?_eq_some_iff.1 hi).1
    rw [htake, hdrop] at ih
    rw [(take_drop_of_getElem? hi).2, List.map_cons, Item.staying, if_pos ho]
    exact Item.AllRewriteTo.trans (hfront v i (i + 1) _) ih
  | @stay i m m' s s' d vs hi ho _ ih =>
    let v : Visit := ⟨d, m, s⟩
    obtain ⟨htake, hdrop⟩ := take_drop_of_getElem? hi
    have hstays := Item.AllRewriteTo.trans (hfront v (i + 1) (i + 1) _) ih
    rw [htake, List.append_assoc] at hstays
    rw [hdrop, List.map_cons, Item.staying, if_neg ho]
    exact hstays

/-- The loop leaves what a module says about itself. -/
theorem Loops.head_eq (h : Loops i m s vs m' s') : m'.head = m.head := by
  have hhead : ∀ v : Visit, v.rewritten.head = v.module.head := fun v => by
    rw [Visit.rewritten, (deals_importDecl v.decl v.module v.state).rewritten.module]
    rfl
  induction h with
  | done => rfl
  | pass _ _ ih => exact ih
  | remove _ _ _ ih => exact ih.trans (hhead _)
  | stay _ _ _ ih => exact ih.trans (hhead _)

/-- What the loop through a module does: it deals with the declarations as `vs` says, has the
outcomes `os`, and leaves the module `m'` and the state `s'` behind. -/
structure RunsThrough (m : Module) (s : FileState) (vs : List Visit) (os : List Outcome)
    (m' : Module) (s' : FileState) : Prop where
  /-- The loop ends, and it could not have gone another way. -/
  loops : Loops 0 m s vs m' s'
  unique : ∀ vs' m'' s'', Loops 0 m s vs' m'' s'' → vs' = vs ∧ m'' = m' ∧ s'' = s'
  /-- Each declaration of the module is dealt with once, in the order of the module. -/
  decls : vs.map Visit.decl = m.imports
  /-- There is one outcome for each of them. -/
  outcomes : os = vs.map Visit.outcome
  head : m'.head = m.head
  /-- The items without the declarations that leave are still there, in their order, the import
  declarations as they were and all others rewritten in their places. -/
  body : Item.AllRewriteTo (Item.staying m.body os) m'.body
  imports : m'.imports = (Item.staying m.body os).filterMap Item.import?
  /-- A declaration without a recipe and one that is skipped change nothing. -/
  left : ∀ v ∈ vs, (∀ keep, v.outcome ≠ .expanded keep) → v.LeavesAlone

/-- **The import pass is exhaustive and keeps the order.** -/
theorem module_runsThrough (m : Module) (s : FileState) :
    ∃ vs, RunsThrough m s vs (module m s).1.1 (module m s).1.2 (module m s).2 := by
  obtain ⟨vs, hvs, hloop⟩ := loops_remaining (s := s) m.body.length (Nat.le_refl _)
  rw [Nat.sub_self] at hloop
  have hbody := hloop.body
  rw [List.take_zero, List.nil_append, List.drop_zero, ← hvs] at hbody
  exact ⟨vs, hloop, fun _ _ _ h => hloop.unique h, hloop.map_decl, hvs, hloop.head_eq, hbody,
    Module.filterMap_import?_of_forall₂ (List.Forall₂.imp (fun _ _ h => h.import?_eq) hbody),
    fun v _ => v.leavesAlone⟩

end ImportPass
end StyleLowering
