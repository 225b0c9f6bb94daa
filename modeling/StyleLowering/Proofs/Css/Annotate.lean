/-
# What annotating a style call inserts

Annotating adds at most two arguments to a call, a label and a source-map comment, and each has
its place (`Css.annotate_inserts`).  The label is the text `label:` with what is left of the name
and a semicolon, if the file has labels and anything is left (`CssProp.labelArguments`).  It goes
behind all arguments, except that a comment that is there already stays the last one.  A new
comment goes to the very end, and there is none where the call ends with one.  So a call that has
been annotated is finished: without a label, annotating it again changes nothing.

Only a text that is an argument by itself counts as a comment; one that is spread does not.
-/

import StyleLowering.Proofs.CssProp

namespace StyleLowering
namespace Css

open CssProp

/-- The source-map comment for a place, as arguments: none without source maps. -/
def placeComment (f : FileInfo) (place : Span) : List Node :=
  if f.sourceMaps then ((f.comment? place).map Build.textArgument).toList else []

/-- A text that is an argument by itself, and begins like a source-map comment. -/
def IsMapComment (a : Node) : Prop :=
  ∃ h s, a = .argument h (.text s) ∧ SourceMap.commentStart.toList <+: s.value.toList

/-- The arguments `args'` are `args` with the label made of a name and the source-map comment for
a place. -/
structure IsAnnotated (f : FileInfo) (name : Option String) (place : Span)
    (args args' : List Node) : Prop where
  /-- All arguments are still there, in their order. -/
  kept : args.Sublist args'
  /-- Without a comment at the end, the label goes behind all arguments, and the comment behind
  the label. -/
  behind : (∀ front c, args = front ++ [c] → ¬IsMapComment c) →
    args' = args ++ labelArguments f name ++ placeComment f place
  /-- A comment at the end stays there, the label goes in front of it, and no other comment is
  added. -/
  between : ∀ front c, args = front ++ [c] → IsMapComment c →
    args' = front ++ labelArguments f name ++ [c]
  /-- Where a comment is to be had, it is at the end. -/
  ends : f.sourceMaps = true → (f.comment? place).isSome = true →
    ∃ front c, args' = front ++ [c] ∧ IsMapComment c
  /-- Where the file has labels and something is left of the name, a label goes in. -/
  labelled : f.autoLabel = true → ∀ n, name = some n → sanitizeLabel n ≠ "" →
    Build.textArgument ("label:" ++ sanitizeLabel n ++ ";") ∈ args'

/-- An argument is taken for a source-map comment if it is a text that starts as one. -/
theorem isCommentArgument_iff {a : Node} : isCommentArgument a = true ↔ IsMapComment a := by
  constructor
  · intro ha
    unfold isCommentArgument at ha
    split at ha
    · exact ⟨_, _, rfl, List.isPrefixOf_iff_prefix.1 ha⟩
    · cases ha
  · rintro ⟨h, s, rfl, hprefix⟩
    exact List.isPrefixOf_iff_prefix.2 hprefix

/-- Only the last argument decides. -/
theorem endsWithComment_append_singleton (args : List Node) (c : Node) :
    endsWithComment (args ++ [c]) = isCommentArgument c := by
  rw [endsWithComment, List.getLast?_concat, Option.any_some]

/-- Arguments end with a comment if the last one of them is one. -/
theorem endsWithComment_iff {args : List Node} :
    endsWithComment args = true ↔ ∃ front c, args = front ++ [c] ∧ IsMapComment c := by
  constructor
  · intro h
    obtain ⟨c, hc, his⟩ := (Option.any_eq_true _ _).1 h
    exact ⟨args.dropLast, c, (List.dropLast_append_getLast? c hc).symm, isCommentArgument_iff.1 his⟩
  · rintro ⟨front, c, rfl, hc⟩
    rw [endsWithComment_append_singleton, isCommentArgument_iff.2 hc]

/-- Where labels are on and something is left of the name, there is a label. -/
theorem mem_labelArguments {f : FileInfo} {name : String} (hlabels : f.autoLabel = true)
    (hleft : sanitizeLabel name ≠ "") :
    Build.textArgument ("label:" ++ sanitizeLabel name ++ ";") ∈ labelArguments f (some name) := by
  have hsanitize : sanitizeLabel name = String.ofList (labelCharacters name) := rfl
  have hne : labelCharacters name ≠ [] := fun hnil => hleft (by rw [hsanitize, hnil])
  rw [labelArguments, if_pos ⟨hlabels, hne⟩, hsanitize]
  exact List.mem_singleton_self _

/-- The label is no comment, so it does not matter for the end of the arguments. -/
theorem endsWithComment_append_label (f : FileInfo) (name : Option String) {args : List Node}
    (h : endsWithComment args = false) :
    endsWithComment (args ++ labelArguments f name) = false := by
  rw [labelArguments_eq]
  split
  · cases label? name with
    | none => simpa using h
    | some label =>
      rw [Option.map_some, Option.toList_some, endsWithComment_append_singleton]
      exact isCommentArgument_label label
  · rwa [List.append_nil]

/-- A comment is added at the end, unless there is one. -/
theorem addComment_eq (f : FileInfo) (place : Span) (args : List Node) :
    addComment f place args =
      if endsWithComment args then args else args ++ placeComment f place := by
  unfold addComment placeComment
  cases f.sourceMaps <;> cases endsWithComment args <;> simp

/-- A comment that is to be had is at the end when it has been added. -/
theorem endsWithComment_placeComment {f : FileInfo} {place : Span} (hmaps : f.sourceMaps = true)
    (hcomment : (f.comment? place).isSome = true) (args : List Node) :
    endsWithComment (args ++ placeComment f place) = true := by
  obtain ⟨text, htext⟩ := Option.isSome_iff_exists.1 hcomment
  rw [placeComment, if_pos hmaps, htext, Option.map_some, Option.toList_some,
    endsWithComment_append_singleton]
  exact isCommentArgument_comment htext

/-- Arguments that end with a comment get the label in front of it, and nothing else. -/
theorem isAnnotated_of_endsWithComment (f : FileInfo) (name : Option String) (place : Span)
    (front : List Node) {c : Node} (hc : IsMapComment c) :
    IsAnnotated f name place (front ++ [c])
      (addComment f place (addLabel f name (front ++ [c]))) := by
  have his := isCommentArgument_iff.2 hc
  have hadd : addComment f place (addLabel f name (front ++ [c])) =
      front ++ labelArguments f name ++ [c] := by
    rw [addLabel_append_comment f name front his, addComment_eq, ← List.append_assoc,
      endsWithComment_append_singleton, if_pos his]
  rw [hadd]
  constructor
  · exact (List.sublist_append_left front _).append (List.Sublist.refl [c])
  · exact fun hnone => absurd hc (hnone front c rfl)
  · intro front' c' heq _
    obtain ⟨rfl, hsingle⟩ := List.append_inj' heq rfl
    rw [hsingle]
  · exact fun _ _ => ⟨_, c, rfl, hc⟩
  · rintro hlabels n rfl hleft
    exact List.mem_append_left _ (List.mem_append_right _ (mem_labelArguments hlabels hleft))

/-- Any other arguments get the label and the comment behind them. -/
theorem isAnnotated_of_not_endsWithComment (f : FileInfo) (name : Option String) (place : Span)
    {args : List Node} (hends : endsWithComment args = false) :
    IsAnnotated f name place args (addComment f place (addLabel f name args)) := by
  have hadd : addComment f place (addLabel f name args) =
      args ++ labelArguments f name ++ placeComment f place := by
    rw [addLabel_of_not_endsWithComment f name hends, addComment_eq,
      endsWithComment_append_label f name hends]
    rfl
  rw [hadd]
  constructor
  · rw [List.append_assoc]
    exact List.sublist_append_left args _
  · exact fun _ => rfl
  · intro front c heq hc
    rw [endsWithComment_iff.2 ⟨front, c, heq, hc⟩] at hends
    cases hends
  · exact fun hmaps hcomment =>
      endsWithComment_iff.1 (endsWithComment_placeComment hmaps hcomment _)
  · rintro hlabels n rfl hleft
    exact List.mem_append_left _ (List.mem_append_right _ (mem_labelArguments hlabels hleft))

/-- The arguments of a call after it has been annotated. -/
theorem isAnnotated_addComment (f : FileInfo) (name : Option String) (place : Span)
    (args : List Node) :
    IsAnnotated f name place args (addComment f place (addLabel f name args)) := by
  cases hends : endsWithComment args with
  | true =>
    obtain ⟨front, c, rfl, hc⟩ := endsWithComment_iff.1 hends
    exact isAnnotated_of_endsWithComment f name place front hc
  | false => exact isAnnotated_of_not_endsWithComment f name place hends

/-- Arguments that have been annotated get nothing more when there is no label. -/
theorem IsAnnotated.finished {f : FileInfo} {name : Option String} {place : Span}
    {args args' : List Node} (h : IsAnnotated f name place args args') :
    addComment f place (addLabel f none args') = args' := by
  have hlabel : addLabel f none args' = args' := by
    unfold addLabel
    cases f.autoLabel <;> rfl
  rw [hlabel, addComment_eq]
  split
  · rfl
  · next hends =>
    unfold placeComment
    split
    · next hmaps =>
      have hnone : f.comment? place = none := Option.not_isSome_iff_eq_none.1 fun hcomment =>
        hends (endsWithComment_iff.2 (h.ends hmaps hcomment))
      rw [hnone]
      exact List.append_nil args'
    · exact List.append_nil args'

/-- **Annotating inserts a label and a comment,** each in its place, and leaves the callee and the
arguments as they are.  Annotating the result again, without a label, changes nothing. -/
theorem annotate_inserts (f : FileInfo) (name : Option String) (h : Head) (callee : Node)
    (args : List Node) :
    ∃ args', annotate f name (.call h callee args) = .call h callee args' ∧
      IsAnnotated f name h.place args args' ∧
      annotate f none (.call h callee args') = .call h callee args' := by
  have hannotated := isAnnotated_addComment f name h.place args
  refine ⟨addComment f h.place (addLabel f name args), rfl, hannotated, ?_⟩
  rw [annotate, hannotated.finished]

end Css
end StyleLowering
