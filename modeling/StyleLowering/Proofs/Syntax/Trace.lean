/-
# What a pass does to the identifiers of a tree

A pass takes the identifiers of a tree, in their order, to those of another one.
A trace says how: each identifier on the left is taken to one on the right to
which `step` relates it, identifiers that satisfy `new` may come in anywhere,
and, unless the trace is `whole`, identifiers may get lost.  What is kept keeps
its order.

Traces can be put side by side (`Trace.append`) and one behind the other
(`Trace.comp`), so the trace of a pass comes out of those of its parts.
-/

import StyleLowering.Syntax.Idents
import Mathlib.Data.List.Forall2

namespace StyleLowering

/-- How identifiers become those of another tree. -/
inductive Trace (step : Mention → Mention → Prop) (new : Mention → Prop) (whole : Bool) :
    List Mention → List Mention → Prop where
  | nil : Trace step new whole [] []
  /-- An identifier stays, or another one takes its place. -/
  | step {a b : Mention} {as bs : List Mention} (h : step a b)
      (t : Trace step new whole as bs) : Trace step new whole (a :: as) (b :: bs)
  /-- An identifier comes in. -/
  | new {b : Mention} {as bs : List Mention} (h : new b)
      (t : Trace step new whole as bs) : Trace step new whole as (b :: bs)
  /-- An identifier gets lost. -/
  | lost {a : Mention} {as bs : List Mention} (h : whole = false)
      (t : Trace step new whole as bs) : Trace step new whole (a :: as) bs

namespace Trace

variable {step step₁ step₂ : Mention → Mention → Prop} {new new₁ new₂ : Mention → Prop}
variable {whole : Bool} {as bs cs ds : List Mention}

/-- Identifiers that all stay. -/
theorem refl (h : ∀ a ∈ as, step a a) : Trace step new whole as as := by
  induction as with
  | nil => exact .nil
  | cons a as ih =>
    rw [List.forall_mem_cons] at h
    exact .step h.1 (ih h.2)

/-- Traces of two lists are one of both together. -/
theorem append (h : Trace step new whole as bs) (h' : Trace step new whole cs ds) :
    Trace step new whole (as ++ cs) (bs ++ ds) := by
  induction h with
  | nil => exact h'
  | step h _ ih => exact .step h ih
  | new h _ ih => exact .new h ih
  | lost h _ ih => exact .lost h ih

/-- The same identifiers behind a few new ones. -/
theorem new_append (h : ∀ b ∈ cs, new b) (t : Trace step new whole as bs) :
    Trace step new whole as (cs ++ bs) := by
  induction cs with
  | nil => exact t
  | cons c cs ih =>
    rw [List.forall_mem_cons] at h
    exact .new h.1 (ih h.2)

/-- The same identifiers behind a few that get lost. -/
theorem lost_append (h : cs ≠ [] → whole = false) (t : Trace step new whole as bs) :
    Trace step new whole (cs ++ as) bs := by
  induction cs with
  | nil => exact t
  | cons c cs ih =>
    have hw : whole = false := h (List.cons_ne_nil c cs)
    exact .lost hw (ih fun _ => hw)

/-- A trace for weaker relations. -/
theorem mono (h : Trace step₁ new₁ whole as bs)
    (hs : ∀ a ∈ as, ∀ b ∈ bs, step₁ a b → step₂ a b) (hn : ∀ b ∈ bs, new₁ b → new₂ b) :
    Trace step₂ new₂ whole as bs := by
  induction h with
  | nil => exact .nil
  | step h _ ih =>
    rw [List.forall_mem_cons] at hn
    exact .step (hs _ (List.mem_cons_self ..) _ (List.mem_cons_self ..) h)
      (ih (fun a ha b hb => hs a (List.mem_cons_of_mem _ ha) b (List.mem_cons_of_mem _ hb)) hn.2)
  | new h _ ih =>
    rw [List.forall_mem_cons] at hn
    exact .new (hn.1 h) (ih (fun a ha b hb => hs a ha b (List.mem_cons_of_mem _ hb)) hn.2)
  | lost h _ ih => exact .lost h (ih (fun a ha => hs a (List.mem_cons_of_mem _ ha)) hn)

/-- A trace in which nothing gets lost is one in which something may. -/
theorem weaken (t : Trace step new true as bs) (whole : Bool) : Trace step new whole as bs := by
  induction t with
  | nil => exact .nil
  | step h _ ih => exact .step h ih
  | new h _ ih => exact .new h ih
  | lost h _ _ => cases h

/-- Where identifiers may get lost, more of them may. -/
theorem of_sublist (t : Trace step new false as bs) (h : cs.Sublist bs) :
    Trace step new false as cs := by
  induction t generalizing cs with
  | nil => rw [List.sublist_nil.1 h]; exact .nil
  | step hs _ ih =>
    cases h with
    | cons _ h => exact .lost rfl (ih h)
    | cons_cons _ h => exact .step hs (ih h)
  | new hn _ ih =>
    cases h with
    | cons _ h => exact ih h
    | cons_cons _ h => exact .new hn (ih h)
  | lost hl _ ih => exact .lost hl (ih h)

/-- Nothing is left only if nothing was there or things get lost. -/
theorem of_right_nil (t : Trace step new whole as []) : as ≠ [] → whole = false := by
  cases t with
  | nil => exact fun h => absurd rfl h
  | lost h _ => exact fun _ => h

/-- Where the first identifier on the right comes from: it takes the place of one
on the left, or it came in; what stands before that got lost. -/
theorem of_right_cons {b : Mention} (t : Trace step new whole as (b :: bs)) :
    ∃ cs ds, as = cs ++ ds ∧ (cs ≠ [] → whole = false) ∧
      ((∃ a ds', ds = a :: ds' ∧ step a b ∧ Trace step new whole ds' bs) ∨
        new b ∧ Trace step new whole ds bs) := by
  generalize hr : b :: bs = rs at t
  induction t with
  | nil => cases hr
  | step h t _ =>
    cases hr
    exact ⟨[], _, rfl, fun h => absurd rfl h, .inl ⟨_, _, rfl, h, t⟩⟩
  | new h t _ =>
    cases hr
    exact ⟨[], _, rfl, fun h => absurd rfl h, .inr ⟨h, t⟩⟩
  | lost h _ ih =>
    obtain ⟨cs, ds, rfl, -, ht⟩ := ih hr
    exact ⟨_ :: cs, ds, rfl, fun _ => h, ht⟩

/-- **Two passes, one behind the other.**  What the second one takes to `c` was
there before or came in with the first one. -/
theorem comp (t : Trace step₁ new₁ whole as bs) (t' : Trace step₂ new₂ whole bs cs)
    (hs : ∀ a ∈ as, ∀ b ∈ bs, ∀ c, step₁ a b → step₂ b c → step a c)
    (hn : ∀ b ∈ bs, ∀ c, new₁ b → step₂ b c → new c) (hn' : ∀ c, new₂ c → new c) :
    Trace step new whole as cs := by
  induction t' generalizing as with
  | nil => simpa using lost_append t.of_right_nil (.nil : Trace step new whole [] [])
  | @step b c bs cs h _ ih =>
    have hn'' := fun b hb => hn b (List.mem_cons_of_mem _ hb)
    obtain ⟨ps, qs, rfl, hl, ⟨a, qs', rfl, ha, t⟩ | ⟨hb, t⟩⟩ := t.of_right_cons
    · refine lost_append hl (.step (hs a (by simp) b (List.mem_cons_self ..) c ha h) ?_)
      exact ih t (fun a ha b hb => hs a (by simp [ha]) b (List.mem_cons_of_mem _ hb)) hn''
    · refine lost_append hl (.new (hn b (List.mem_cons_self ..) c hb h) ?_)
      exact ih t (fun a ha b hb => hs a (by simp [ha]) b (List.mem_cons_of_mem _ hb)) hn''
  | new h _ ih => exact .new (hn' _ h) (ih t hs hn)
  | @lost b bs cs h _ ih =>
    have hn'' := fun b hb => hn b (List.mem_cons_of_mem _ hb)
    obtain ⟨ps, qs, rfl, hl, ⟨a, qs', rfl, ha, t⟩ | ⟨hb, t⟩⟩ := t.of_right_cons
    · refine lost_append hl (.lost h (ih t (fun a ha b hb => ?_) hn''))
      exact hs a (by simp [ha]) b (List.mem_cons_of_mem _ hb)
    · refine lost_append hl (ih t (fun a ha b hb => ?_) hn'')
      exact hs a (by simp [ha]) b (List.mem_cons_of_mem _ hb)

/-- Every identifier on the right was put there. -/
theorem exists_of_mem_right (t : Trace step new whole as bs) {b : Mention} (hb : b ∈ bs) :
    (∃ a ∈ as, step a b) ∨ new b := by
  induction t with
  | nil => exact absurd hb List.not_mem_nil
  | step h _ ih =>
    rcases List.mem_cons.1 hb with rfl | hb
    · exact .inl ⟨_, List.mem_cons_self .., h⟩
    · exact (ih hb).imp_left fun ⟨a, ha, h⟩ => ⟨a, List.mem_cons_of_mem _ ha, h⟩
  | new h _ ih =>
    rcases List.mem_cons.1 hb with rfl | hb
    · exact .inr h
    · exact ih hb
  | lost _ _ ih => exact (ih hb).imp_left fun ⟨a, ha, h⟩ => ⟨a, List.mem_cons_of_mem _ ha, h⟩

/-- A whole trace takes every identifier on the left somewhere. -/
theorem exists_of_mem_left (t : Trace step new true as bs) {a : Mention} (ha : a ∈ as) :
    ∃ b ∈ bs, step a b := by
  induction t with
  | nil => exact absurd ha List.not_mem_nil
  | step h _ ih =>
    rcases List.mem_cons.1 ha with rfl | ha
    · exact ⟨_, List.mem_cons_self .., h⟩
    · obtain ⟨b, hb, h⟩ := ih ha
      exact ⟨b, List.mem_cons_of_mem _ hb, h⟩
  | new _ _ ih =>
    obtain ⟨b, hb, h⟩ := ih ha
    exact ⟨b, List.mem_cons_of_mem _ hb, h⟩
  | lost h _ _ => cases h

/-- **A whole trace, taken apart.**  The identifiers on the right are an image of
those on the left, in their order, and what has come in. -/
theorem exists_image (t : Trace step new true as bs) :
    ∃ image added, List.Forall₂ step as image ∧ image.Sublist bs ∧
      bs.Perm (image ++ added) ∧ ∀ b ∈ added, new b := by
  induction t with
  | nil => exact ⟨[], [], .nil, .slnil, .nil, fun _ h => absurd h List.not_mem_nil⟩
  | @step a b as bs h _ ih =>
    obtain ⟨image, added, hf, hs, hp, hn⟩ := ih
    exact ⟨b :: image, added, .cons h hf, hs.cons_cons b, hp.cons b, hn⟩
  | @new b as bs h _ ih =>
    obtain ⟨image, added, hf, hs, hp, hn⟩ := ih
    refine ⟨image, b :: added, hf, hs.cons b, ?_, List.forall_mem_cons.2 ⟨h, hn⟩⟩
    exact (hp.cons b).trans List.perm_middle.symm
  | lost h _ _ => cases h

/-- Traces side by side. -/
theorem flatMap {α β : Type} {f : α → List Mention} {g : β → List Mention} {is : List α}
    {js : List β} (h : List.Forall₂ (fun i j => Trace step new whole (f i) (g j)) is js) :
    Trace step new whole (is.flatMap f) (js.flatMap g) := by
  induction h with
  | nil => exact .nil
  | cons h _ ih =>
    rw [List.flatMap_cons, List.flatMap_cons]
    exact h.append ih

/-- The traces of trees, side by side. -/
theorem mentionsAll {ns ms : List Node}
    (h : List.Forall₂ (fun n m : Node => Trace step new whole n.mentions m.mentions) ns ms) :
    Trace step new whole (Node.mentionsAll ns) (Node.mentionsAll ms) := by
  rw [Node.mentionsAll_eq_flatMap, Node.mentionsAll_eq_flatMap]
  exact flatMap h

end Trace
end StyleLowering
