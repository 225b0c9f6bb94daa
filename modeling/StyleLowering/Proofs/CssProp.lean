/-
# Compiled css props

Which attributes are css props that can be compiled (`Node.IsCssProp`), and what the call
around the literal looks like (`CssProp.callAround_eq`): the literal, behind it the label if
there is one, and at the end the source-map comment if there is one.  Two functions add the
comment, one for the place of the attribute and one for the place of the call; the second
one finds that the arguments end with a comment, unless the attribute has no place in the
source.
-/

import StyleLowering.CssProp
import StyleLowering.Proofs.Css.Label
import Mathlib.Data.List.Basic

namespace StyleLowering

/-- An attribute named `css` with an object or array literal in braces that may be evaluated
early. -/
inductive Node.IsCssProp : Node → Prop
  | intro {h hc hl : Head} {w : Word} {k : Kind} {ps : List Node} (hname : w.text = "css")
      (hk : k = .object ∨ k = .array)
      (hpure : Scope.isPure Context.unresolved (.inner k hl ps) = true) :
      IsCssProp (.jsxAttribute h (.word w) (.container hc (.inner k hl ps)))

/-- An attribute is a css prop if it is taken for one. -/
theorem Node.isCssProp_iff {k : Kind} {h : Head} {ps : List Node} :
    (Node.inner k h ps).IsCssProp ↔ (CssProp.literal? k ps).isSome = true := by
  constructor
  · rintro ⟨hname, hk, hpure⟩
    rw [CssProp.literal?, if_pos ⟨hname, hk, hpure⟩]
    rfl
  · intro hsome
    unfold CssProp.literal? at hsome
    split at hsome
    · split at hsome
      · next hprop => exact .intro hprop.1 hprop.2.1 hprop.2.2
      · cases hsome
    · cases hsome

instance (n : Node) : Decidable n.IsCssProp :=
  match n with
  | .inner _ _ _ => decidable_of_iff' _ Node.isCssProp_iff
  | .leaf _ | .run _ => isFalse nofun

namespace Css

/-- A source-map comment is recognised as one. -/
theorem isCommentArgument_comment {f : FileInfo} {place : Span} {text : String}
    (h : f.comment? place = some text) : isCommentArgument (Build.textArgument text) = true := by
  unfold FileInfo.comment? at h
  split at h
  · cases h
  · simp only [Option.bind_eq_bind, Option.bind_eq_some_iff, Option.pure_def,
      Option.some.injEq] at h
    obtain ⟨filename, -, source, -, rfl⟩ := h
    exact SourceMap.isComment_comment ..

/-- A label is no source-map comment. -/
theorem isCommentArgument_label (label : String) :
    isCommentArgument (Build.textArgument (labelDeclaration label)) = false := by
  change SourceMap.isComment _ = false
  rw [SourceMap.isComment, labelDeclaration, String.toList_append, String.toList_append]
  rfl

end Css

namespace CssProp

open Css

/-- The source-map comment of a compiled css prop, as arguments: the one for the place of the
attribute, and if it has none, the one for the place of the literal. -/
def commentArguments (f : FileInfo) (place literal : Span) : List Node :=
  if f.sourceMaps then
    (((f.comment? place).or (f.comment? literal)).map Build.textArgument).toList
  else []

/-- What is added to a literal is texts. -/
theorem exists_of_mem_extra {f : FileInfo} {name : Option String} {place literal : Span}
    {a : Node} (ha : a ∈ labelArguments f name ++ commentArguments f place literal) :
    ∃ text, a = Build.textArgument text := by
  rw [labelArguments_eq] at ha
  unfold commentArguments at ha
  rcases List.mem_append.1 ha with ha | ha
  · split at ha
    · obtain ⟨label, -, rfl⟩ := Option.map_eq_some_iff.1 (Option.mem_toList.1 ha)
      exact ⟨_, rfl⟩
    · exact absurd ha List.not_mem_nil
  · split at ha
    · obtain ⟨text, -, rfl⟩ := Option.map_eq_some_iff.1 (Option.mem_toList.1 ha)
      exact ⟨text, rfl⟩
    · exact absurd ha List.not_mem_nil

/-- Arguments that do not end with a comment get the label behind them. -/
theorem addLabel_of_not_endsWithComment (f : FileInfo) (name : Option String) {args : List Node}
    (h : endsWithComment args = false) :
    addLabel f name args = args ++ labelArguments f name := by
  rw [labelArguments_eq, addLabel]
  cases f.autoLabel with
  | false => simp
  | true => cases label? name <;> simp [insertBeforeComment, h]

/-- A comment at the end stays there when the label comes in. -/
theorem addLabel_append_comment (f : FileInfo) (name : Option String) (args : List Node)
    {comment : Node} (h : isCommentArgument comment = true) :
    addLabel f name (args ++ [comment]) = args ++ (labelArguments f name ++ [comment]) := by
  rw [labelArguments_eq, addLabel]
  cases f.autoLabel with
  | false => simp
  | true => cases label? name <;> simp [insertBeforeComment, endsWithComment, h]

/-- The literal is no source-map comment, and neither is the label. -/
theorem isCommentArgument_eq_false (f : FileInfo) (name : Option String) {v : Node}
    (hv : ∀ s, v ≠ .text s) :
    ∀ a ∈ Build.argument v :: labelArguments f name, isCommentArgument a = false := by
  rw [List.forall_mem_cons]
  constructor
  · unfold isCommentArgument
    split
    · next s heq =>
      cases heq
      exact absurd rfl (hv s)
    · rfl
  · intro a ha
    rw [labelArguments_eq] at ha
    split at ha
    · obtain ⟨label, -, rfl⟩ := Option.map_eq_some_iff.1 (Option.mem_toList.1 ha)
      exact isCommentArgument_label label
    · exact absurd ha List.not_mem_nil

/-- **The call around a literal,** argument by argument. -/
theorem callAround_eq (f : FileInfo) (name : Option String) (callee : Ident) (place : Span)
    {v : Node} (hv : ∀ s, v ≠ .text s) :
    callAround f name callee place v =
      .call (Head.ofSpanEmpty (placeOf v)) (Build.reference callee)
        (Build.argument v :: (labelArguments f name ++ commentArguments f place (placeOf v))) := by
  have hfront := isCommentArgument_eq_false f name hv
  have hvalue : endsWithComment [Build.argument v] = false := hfront _ (List.mem_cons_self ..)
  have hlabel : endsWithComment (Build.argument v :: labelArguments f name) = false := by
    rw [endsWithComment, Option.any_eq_false]
    intro a ha
    rw [hfront a (List.mem_of_getLast? ha)]
  have hplace : (Head.ofSpanEmpty (placeOf v)).place = placeOf v := rfl
  rw [callAround, Build.call, annotate, hplace, commentArguments]
  congr 3
  cases hmaps : f.sourceMaps with
  | false => simp [addComment, hmaps, addLabel_of_not_endsWithComment f name hvalue]
  | true =>
    cases hcomment : f.comment? place with
    | some text =>
      have his := isCommentArgument_comment hcomment
      have hadd : addLabel f name [Build.argument v, Build.textArgument text] =
          Build.argument v :: (labelArguments f name ++ [Build.textArgument text]) :=
        addLabel_append_comment f name [Build.argument v] his
      have hends : endsWithComment
          (Build.argument v :: (labelArguments f name ++ [Build.textArgument text])) = true := by
        rw [← List.cons_append, endsWithComment, List.getLast?_concat]
        exact his
      simp [addComment, hmaps, hadd, hends]
    | none =>
      have hadd := addLabel_of_not_endsWithComment f name hvalue
      simp_all [addComment]

/-- No argument but the last one is a source-map comment. -/
theorem isCommentArgument_of_mem_dropLast {f : FileInfo} {name : Option String}
    {place literal : Span} {v : Node} (hv : ∀ s, v ≠ .text s) :
    ∀ a ∈ (Build.argument v :: (labelArguments f name ++
      commentArguments f place literal)).dropLast, isCommentArgument a = false := by
  have hfront := isCommentArgument_eq_false f name hv
  rw [← List.cons_append]
  unfold commentArguments
  split
  · cases ((f.comment? place).or (f.comment? literal)).map Build.textArgument with
    | none =>
      rw [Option.toList_none, List.append_nil]
      exact fun a ha => hfront a (List.dropLast_subset _ ha)
    | some comment =>
      rw [Option.toList_some, List.dropLast_concat]
      exact hfront
  · rw [List.append_nil]
    exact fun a ha => hfront a (List.dropLast_subset _ ha)

end CssProp
end StyleLowering
