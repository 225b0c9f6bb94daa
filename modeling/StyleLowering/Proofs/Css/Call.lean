/-
# Style calls keep their identifiers

A label and a source-map comment are texts, so an annotated call mentions what
it mentioned before.  A template that becomes a call keeps all of its
expressions if it has a text for each of them, and loses some otherwise; its
tag and the expressions stay in their order.
-/

import StyleLowering.Css.Call
import StyleLowering.Proofs.Syntax.Shape
import Mathlib.Data.List.Basic

namespace StyleLowering
namespace Css

variable {fit : Bool}

/-- A generated string mentions no identifiers. -/
@[simp] theorem mentions_textArgument (value : String) :
    (Build.textArgument value).mentions = [] := by
  simp [Build.textArgument, Build.argument, Build.text, Leaf.mentions]

/-- An argument mentions what its expression mentions. -/
@[simp] theorem mentions_argument (e : Node) : (Build.argument e).mentions = e.mentions := by
  simp [Build.argument]

/-- A node that may stand in a list of arguments, and is well-shaped. -/
def IsGoodArgument (fit : Bool) (n : Node) : Prop :=
  n.isArgument = true ∧ n.wellShaped fit = true

/-- A well-shaped expression is a good argument. -/
theorem isGoodArgument_argument {e : Node} (h : e.wellShaped fit = true) :
    IsGoodArgument fit (Build.argument e) := by
  refine ⟨rfl, ?_⟩
  rw [Build.argument, Node.wellShaped_inner]
  exact ⟨rfl, by simpa using h⟩

/-- A generated string is a good argument. -/
theorem isGoodArgument_textArgument (value : String) :
    IsGoodArgument fit (Build.textArgument value) :=
  isGoodArgument_argument (Node.wellShaped_leaf _)

/-- A call is well-shaped if its callee and its arguments are. -/
theorem wellShaped_call {h : Head} {callee : Node} {args : List Node} :
    (Node.call h callee args).wellShaped fit = true ↔
      callee.wellShaped fit = true ∧ ∀ a ∈ args, IsGoodArgument fit a := by
  rw [Node.wellShaped_inner, Kind.allows_call]
  constructor
  · rintro ⟨⟨callee', args', hp, ha⟩, hw⟩
    cases hp
    rw [List.forall_mem_cons, List.forall_mem_singleton, Node.wellShaped_run] at hw
    exact ⟨hw.1, fun a h => ⟨ha a h, hw.2 a h⟩⟩
  · rintro ⟨hc, ha⟩
    refine ⟨⟨callee, args, rfl, fun a h => (ha a h).1⟩, ?_⟩
    rw [List.forall_mem_cons, List.forall_mem_singleton, Node.wellShaped_run]
    exact ⟨hc, fun a h => (ha a h).2⟩

/-- An argument goes in front of a comment at the end, or to the end. -/
theorem exists_insertBeforeComment (a : Node) (args : List Node) :
    ∃ before after, args = before ++ after ∧ insertBeforeComment a args = before ++ a :: after := by
  unfold insertBeforeComment
  split
  · refine ⟨args.dropLast, args.getLast?.toList, ?_, rfl⟩
    cases hl : args.getLast? with
    | none => rw [List.getLast?_eq_none_iff.1 hl]; rfl
    | some b => exact (List.dropLast_append_getLast? b hl).symm
  · exact ⟨args, [], (List.append_nil _).symm, rfl⟩

/-- **What is added to a style call:** at most one label, none without a name, and at most one
source-map comment behind everything else. -/
theorem exists_annotated (f : FileInfo) (name : Option String) (span : Span) (args : List Node) :
    ∃ before after, ∃ label comment : Option String, args = before ++ after ∧
      addComment f span (addLabel f name args) =
        before ++ (label.map Build.textArgument).toList ++ after ++
          (comment.map Build.textArgument).toList ∧
      (name = none → label = none) := by
  have hlabel : ∃ before after, ∃ label : Option String, args = before ++ after ∧
      addLabel f name args = before ++ (label.map Build.textArgument).toList ++ after ∧
      (name = none → label = none) := by
    unfold addLabel
    split
    · next label hl =>
      obtain ⟨before, after, hargs, hi⟩ :=
        exists_insertBeforeComment (Build.textArgument (labelDeclaration label)) args
      refine ⟨before, after, some (labelDeclaration label), hargs, by rw [hi]; simp, ?_⟩
      rintro rfl
      simp [label?] at hl
    · exact ⟨args, [], none, by simp, by simp, fun _ => rfl⟩
  obtain ⟨before, after, label, hargs, hadd, hname⟩ := hlabel
  rw [hadd]
  unfold addComment
  split
  · exact ⟨before, after, label, _, hargs, rfl, hname⟩
  · exact ⟨before, after, label, none, hargs, by simp, hname⟩

/-- A call has its old arguments and some texts after it is annotated, in the same
order. -/
theorem annotate_call (f : FileInfo) (name : Option String) (h : Head) (callee : Node)
    (args : List Node) :
    ∃ args', annotate f name (.call h callee args) = .call h callee args' ∧
      Node.mentionsAll args' = Node.mentionsAll args ∧
      ∀ a ∈ args', a ∈ args ∨ ∃ text, a = Build.textArgument text := by
  obtain ⟨before, after, label, comment, rfl, he, -⟩ := exists_annotated f name h.place args
  refine ⟨_, rfl, ?_, ?_⟩ <;> rw [he]
  · cases label <;> cases comment <;> simp
  · have htext : ∀ (text : Option String), ∀ a ∈ (text.map Build.textArgument).toList,
        ∃ text, a = Build.textArgument text := by
      intro text a ha
      obtain ⟨value, -, rfl⟩ := Option.map_eq_some_iff.1 (Option.mem_toList.1 ha)
      exact ⟨value, rfl⟩
    intro a ha
    simp only [List.mem_append] at ha
    rcases ha with ((ha | ha) | ha) | ha
    · exact .inl (List.mem_append_left _ ha)
    · exact .inr (htext label a ha)
    · exact .inl (List.mem_append_right _ ha)
    · exact .inr (htext comment a ha)

/-- An annotated node mentions what it mentioned before. -/
theorem mentions_annotate (f : FileInfo) (name : Option String) (n : Node) :
    (annotate f name n).mentions = n.mentions := by
  by_cases hn : ∃ h callee args, n = .call h callee args
  · obtain ⟨h, callee, args, rfl⟩ := hn
    obtain ⟨args', he, hm, -⟩ := annotate_call f name h callee args
    rw [he]
    simp [hm]
  · unfold annotate
    split
    · next h callee args => exact absurd ⟨h, callee, args, rfl⟩ hn
    · rfl

/-- An annotated call is well-shaped if it was before. -/
theorem wellShaped_annotate_call (f : FileInfo) (name : Option String) {h : Head} {callee : Node}
    {args : List Node} (hn : (Node.call h callee args).wellShaped fit = true) :
    (annotate f name (.call h callee args)).wellShaped fit = true := by
  obtain ⟨args', he, -, ha⟩ := annotate_call f name h callee args
  rw [wellShaped_call] at hn
  rw [he, wellShaped_call]
  refine ⟨hn.1, fun a h => ?_⟩
  rcases ha a h with h | ⟨text, rfl⟩
  · exact hn.2 a h
  · exact isGoodArgument_textArgument text

/-- What becomes of the text of a template is a string. -/
theorem mem_textArguments {first last : Bool} {q a : Node} (h : a ∈ textArguments first last q) :
    ∃ text, a = Build.textArgument text := by
  unfold textArguments at h
  split at h
  · dsimp only at h
    split at h
    · exact absurd h List.not_mem_nil
    · exact ⟨_, List.mem_singleton.1 h⟩
  · exact absurd h List.not_mem_nil

/-- What becomes of the text of a template mentions no identifiers. -/
theorem mentionsAll_textArguments (first last : Bool) (q : Node) :
    Node.mentionsAll (textArguments first last q) = [] := by
  rw [Node.mentionsAll_eq_flatMap, List.flatMap_eq_nil_iff]
  intro a ha
  obtain ⟨text, rfl⟩ := mem_textArguments ha
  exact mentions_textArgument text

/-- The arguments that a template becomes are its expressions and some texts. -/
theorem mem_templateArguments {first : Bool} {qs es : List Node} {a : Node}
    (h : a ∈ templateArguments first qs es) :
    (∃ e ∈ es, a = Build.argument e) ∨ ∃ text, a = Build.textArgument text := by
  induction qs generalizing first es with
  | nil =>
    rw [templateArguments] at h
    exact absurd h List.not_mem_nil
  | cons q qs ih =>
    cases es with
    | nil =>
      rw [templateArguments, List.mem_append] at h
      exact h.elim (fun h => .inr (mem_textArguments h)) ih
    | cons e es =>
      rw [templateArguments, List.mem_append, List.mem_cons] at h
      rcases h with h | rfl | h
      · exact .inr (mem_textArguments h)
      · exact .inl ⟨e, List.mem_cons_self .., rfl⟩
      · exact (ih h).imp_left fun ⟨e', he, ha⟩ => ⟨e', List.mem_cons_of_mem _ he, ha⟩

/-- No identifier comes in or changes its place when a template becomes arguments. -/
theorem mentionsAll_templateArguments_sublist (first : Bool) (qs es : List Node) :
    (Node.mentionsAll (templateArguments first qs es)).Sublist (Node.mentionsAll es) := by
  induction qs generalizing first es with
  | nil =>
    rw [templateArguments, Node.mentionsAll_nil]
    exact List.nil_sublist _
  | cons q qs ih =>
    cases es with
    | nil =>
      rw [templateArguments, Node.mentionsAll_append, mentionsAll_textArguments, List.nil_append]
      exact ih false []
    | cons e es =>
      rw [templateArguments, Node.mentionsAll_append, mentionsAll_textArguments, List.nil_append,
        Node.mentionsAll_cons, Node.mentionsAll_cons, mentions_argument]
      exact (ih false es).append_left _

/-- No expression gets lost when there is a text for each of them. -/
theorem mentionsAll_templateArguments (first : Bool) {qs es : List Node}
    (h : es.length ≤ qs.length) :
    Node.mentionsAll (templateArguments first qs es) = Node.mentionsAll es := by
  induction qs generalizing first es with
  | nil =>
    rw [List.length_eq_zero_iff.1 (Nat.le_zero.1 h), templateArguments]
  | cons q qs ih =>
    cases es with
    | nil =>
      rw [templateArguments, Node.mentionsAll_append, mentionsAll_textArguments, List.nil_append]
      exact ih false (Nat.zero_le _)
    | cons e es =>
      rw [templateArguments, Node.mentionsAll_append, mentionsAll_textArguments, List.nil_append,
        Node.mentionsAll_cons, Node.mentionsAll_cons, mentions_argument,
        ih false (Nat.le_of_succ_le_succ h)]

end Css
end StyleLowering
