/-
# Templates are minified stretch by stretch

The call that a template becomes has the minified texts of the template as
arguments and its expressions between them.  Written one behind the other, with
a letter for each expression, they are the text of the template squeezed, where
every stretch was cut into tokens by itself (`callOfTemplate_minifies`).  That
is the whole text minified as long as no interpolation stands in a string or a
comment.  A string that an interpolation cuts is not kept as it is.
-/

import StyleLowering.Proofs.Css.Cut

namespace StyleLowering
namespace Css

/-- An argument of the call that a template becomes. -/
inductive Piece where
  | text (value : String)
  | expression (e : Node)

/-- The node of an argument. -/
def Piece.argument : Piece → Node
  | .text value => Build.textArgument value
  | .expression e => Build.argument e

/-- The expression of an argument that is not a text. -/
def Piece.expression? : Piece → Option Node
  | .text _ => none
  | .expression e => some e

/-- The characters of an argument, with `x` for an expression. -/
def Piece.shown (x : Char) : Piece → List Char
  | .text value => value.toList
  | .expression _ => [x]

/-- The text of a stretch of a template, none if it is empty. -/
def textPieces (isFirst isLast : Bool) (q : Quasi) : List Piece :=
  let text := minify q.text isFirst isLast
  if text.isEmpty then [] else [.text text]

/-- The texts and expressions of a template in turn. -/
def pieces (isFirst : Bool) : List Quasi → List Node → List Piece
  | [], _ => []
  | q :: qs, [] => textPieces isFirst qs.isEmpty q ++ pieces false qs []
  | q :: qs, e :: es => textPieces isFirst qs.isEmpty q ++ .expression e :: pieces false qs es

/-- The stretches of a template as nodes. -/
def quasiNodes (qs : List Quasi) : List Node := qs.map fun q => .leaf (.quasi q)

/-- The text of a template with `x` for each interpolation. -/
def joined (x : Char) (qs : List Quasi) : List Char :=
  [x].intercalate (qs.map (·.text.toList))

/-- The places of the interpolations in the text of a template. -/
def holes : List Quasi → List Nat
  | [] | [_] => []
  | q :: q' :: qs =>
    q.text.toList.length :: (holes (q' :: qs)).map (q.text.toList.length + 1 + ·)

/-- The tokens of a template whose stretches are cut into tokens one by one. -/
def tokensApart (x : Char) (qs : List Quasi) : List Token :=
  [Token.plain [x]].intercalate (qs.map (tokens ·.text.toList))

variable {x : Char}

/-- Two texts of a template are joined by the character for the expression between them. -/
theorem joined_cons_cons (q q' : Quasi) (qs : List Quasi) :
    joined x (q :: q' :: qs) = q.text.toList ++ x :: joined x (q' :: qs) := by
  simp [joined, List.intercalate_cons_cons]

/-- The tokens of two texts are cut apart, with the character between them. -/
theorem tokensApart_cons_cons (q q' : Quasi) (qs : List Quasi) :
    tokensApart x (q :: q' :: qs) =
      tokens q.text.toList ++ .plain [x] :: tokensApart x (q' :: qs) := by
  simp [tokensApart, List.intercalate_cons_cons]

/-- The text of a template becomes its piece. -/
theorem textArguments_eq_map (isFirst isLast : Bool) (q : Quasi) :
    textArguments isFirst isLast (.leaf (.quasi q)) =
      (textPieces isFirst isLast q).map Piece.argument := by
  rw [textArguments, textPieces]
  split <;> rfl

/-- A template becomes its pieces. -/
theorem templateArguments_eq_map (isFirst : Bool) (qs : List Quasi) (es : List Node) :
    templateArguments isFirst (quasiNodes qs) es =
      (pieces isFirst qs es).map Piece.argument := by
  induction qs generalizing isFirst es with
  | nil => rfl
  | cons q qs ih =>
    have hempty : (quasiNodes qs).isEmpty = qs.isEmpty := List.isEmpty_map
    cases es with
    | nil =>
      rw [quasiNodes, List.map_cons, templateArguments, pieces, List.map_append,
        textArguments_eq_map]
      exact congrArg₂ (· ++ ·) (by rw [← hempty]; rfl) (ih false [])
    | cons e es =>
      rw [quasiNodes, List.map_cons, templateArguments, pieces, List.map_append,
        textArguments_eq_map]
      exact congrArg₂ (· ++ ·) (by rw [← hempty]; rfl)
        (congrArg (Build.argument e :: ·) (ih false es))

/-- A text holds no expression. -/
theorem filterMap_textPieces (isFirst isLast : Bool) (q : Quasi) :
    (textPieces isFirst isLast q).filterMap Piece.expression? = [] := by
  rw [textPieces]
  split <;> rfl

/-- The expressions among the pieces are those of the template, in order. -/
theorem filterMap_pieces (isFirst : Bool) {qs : List Quasi} {es : List Node}
    (h : es.length ≤ qs.length) :
    (pieces isFirst qs es).filterMap Piece.expression? = es := by
  induction qs generalizing isFirst es with
  | nil =>
    rw [List.length_eq_zero_iff.1 (Nat.le_zero.1 h)]
    rfl
  | cons q qs ih =>
    cases es with
    | nil =>
      rw [pieces, List.filterMap_append, filterMap_textPieces, List.nil_append]
      exact ih false (Nat.zero_le _)
    | cons e es =>
      rw [pieces, List.filterMap_append, filterMap_textPieces, List.nil_append,
        List.filterMap_cons_some (f := Piece.expression?) (a := .expression e) rfl,
        ih false (Nat.le_of_succ_le_succ h)]

/-- The characters of a text are its tokens squeezed, whether it is left out or not. -/
theorem shown_textPieces (isFirst isLast : Bool) (q : Quasi) :
    (textPieces isFirst isLast q).flatMap (Piece.shown x) =
      squeeze isFirst isLast none false (tokens q.text.toList) := by
  have hminify : (minify q.text isFirst isLast).toList =
      squeeze isFirst isLast none false (tokens q.text.toList) := String.toList_ofList
  rw [textPieces]
  split
  · next h =>
    rw [String.isEmpty_iff] at h
    rw [← hminify, h]
    rfl
  · rw [← hminify]
    exact List.append_nil _

/-- The arguments show the tokens of the stretches, squeezed together. -/
theorem shown_pieces (hx : IsInert x) (isFirst : Bool) {qs : List Quasi} {es : List Node}
    (h : qs.length = es.length + 1) :
    (pieces isFirst qs es).flatMap (Piece.shown x) =
      squeeze isFirst true none false (tokensApart x qs) := by
  induction qs generalizing isFirst es with
  | nil => cases h
  | cons q qs ih =>
    cases es with
    | nil =>
      have hqs : qs = [] := List.length_eq_zero_iff.1 (Nat.succ.inj h)
      subst hqs
      rw [pieces, pieces, List.append_nil, shown_textPieces, tokensApart, List.map_singleton,
        List.intercalate_singleton]
      rfl
    | cons e es =>
      cases qs with
      | nil => cases h
      | cons q' qs =>
        have hrest := ih false (Nat.succ.inj h)
        rw [pieces, List.flatMap_append, shown_textPieces, List.flatMap_cons, hrest,
          tokensApart_cons_cons, squeeze_around hx]
        rfl

/-- Cutting the stretches into tokens one by one makes no difference if no string and
no comment has an interpolation. -/
theorem squeeze_tokensApart (hx : IsInert x) {qs : List Quasi}
    (h : ∀ i ∈ holes qs, isDelimitedAt (tokens (joined x qs)) i = false)
    (first last : Bool) (prev : Option Char) (pending : Bool) :
    squeeze first last prev pending (tokensApart x qs) =
      squeeze first last prev pending (tokens (joined x qs)) := by
  induction qs generalizing first prev pending with
  | nil => simp [tokensApart, joined, tokens]
  | cons q qs ih =>
    cases qs with
    | nil => simp [tokensApart, joined]
    | cons q' qs =>
      rw [joined_cons_cons, holes, List.forall_mem_cons] at h
      obtain ⟨hsqueeze, hplaces⟩ := tokens_cut hx _ _ h.1
      have hrest : ∀ i ∈ holes (q' :: qs),
          isDelimitedAt (tokens (joined x (q' :: qs))) i = false := by
        intro i hi
        rw [← hplaces, Nat.add_comm i 1, ← Nat.add_assoc]
        exact h.2 _ (List.mem_map_of_mem hi)
      rw [tokensApart_cons_cons, joined_cons_cons, hsqueeze, squeeze_around hx,
        squeeze_around hx, ih hrest]

/-- **A template becomes a call with its texts minified.**  The arguments are the
expressions, each once and in order, and the texts between them.  Shown one behind the
other they are the stretches, cut into tokens one by one and squeezed together; that is
the whole text minified if no interpolation stands in a string or a comment. -/
theorem callOfTemplate_minifies (h template : Head) (tag : Node) {qs : List Quasi}
    {es : List Node} (hl : qs.length = es.length + 1) (hx : Text.isAlphanumeric x = true) :
    callOfTemplate (.tagged h tag template es (quasiNodes qs)) =
        Build.call h.place tag ((pieces true qs es).map Piece.argument) ∧
      (pieces true qs es).filterMap Piece.expression? = es ∧
      (pieces true qs es).flatMap (Piece.shown x) =
        squeeze true true none false (tokensApart x qs) ∧
      ((∀ i ∈ holes qs, isDelimitedAt (tokens (joined x qs)) i = false) →
        String.ofList ((pieces true qs es).flatMap (Piece.shown x)) =
          minify (String.ofList (joined x qs)) true true) := by
  have hinert : IsInert x := isInert_of_isAlphanumeric hx
  have hshown := shown_pieces hinert true hl
  refine ⟨?_, filterMap_pieces true (by omega), hshown, fun hholes => ?_⟩
  · have hcall : callOfTemplate (.tagged h tag template es (quasiNodes qs)) =
        Build.call h.place tag (templateArguments true (quasiNodes qs) es) := rfl
    rw [hcall, templateArguments_eq_map]
  · rw [hshown, squeeze_tokensApart hinert hholes, minify, String.toList_ofList]

/-- A stretch of a template without escapes. -/
def stretch (text : String) : Quasi := ⟨Span.dummy, false, some text, text⟩

/-- The stretches of the template `margin:  ${n}  ${n};`. -/
def marginStretches : List Quasi := [stretch "margin:  ", stretch "  ", stretch ";"]

/-- White space in front of an expression, between two of them, and none behind the last one. -/
theorem minifies_margin :
    marginStretches.length = [Build.word "n", Build.word "n"].length + 1 ∧
      Text.isAlphanumeric 'X' = true ∧
      (∀ i ∈ holes marginStretches,
        isDelimitedAt (tokens (joined 'X' marginStretches)) i = false) ∧
      String.ofList ((pieces true marginStretches [Build.word "n", Build.word "n"]).flatMap
        (Piece.shown 'X')) = "margin:X X;" := by
  have hl : marginStretches.length = [Build.word "n", Build.word "n"].length + 1 := rfl
  have hx : Text.isAlphanumeric 'X' = true := by decide
  have hholes : ∀ i ∈ holes marginStretches,
      isDelimitedAt (tokens (joined 'X' marginStretches)) i = false := by decide +kernel
  have hminify : minify (String.ofList (joined 'X' marginStretches)) true true = "margin:X X;" := by
    decide +kernel
  obtain ⟨-, -, -, hshown⟩ :=
    callOfTemplate_minifies Head.empty Head.empty (Build.word "css") hl hx
  exact ⟨hl, hx, hholes, (hshown hholes).trans hminify⟩

/-- The stretches of the template `content: "Total:  ${n}"`. -/
def contentStretches : List Quasi := [stretch "content: \"Total:  ", stretch "\""]

/-- **A string that an interpolation cuts is not kept as it is,** even in a template
without comments.  Neither stretch of `content: "Total:  ${n}"` has both quotes, so the spaces
behind the colon go, while the whole text has a string there. -/
theorem not_forall_minifies :
    ¬∀ (x : Char) (qs : List Quasi) (es : List Node), qs.length = es.length + 1 →
      Text.isAlphanumeric x = true →
      (∀ i ∈ holes qs, ∀ text, tokenAt? (tokens (joined x qs)) i ≠ some (.comment text)) →
      String.ofList ((pieces true qs es).flatMap (Piece.shown x)) =
        minify (String.ofList (joined x qs)) true true := by
  intro hall
  have hcut : ¬String.ofList ((pieces true contentStretches [Build.word "n"]).flatMap
      (Piece.shown 'X')) = minify (String.ofList (joined 'X' contentStretches)) true true := by
    decide +kernel
  have hquoted : ∀ i ∈ holes contentStretches,
      tokenAt? (tokens (joined 'X' contentStretches)) i =
        some (.quoted "\"Total:  X\"".toList) := by
    decide +kernel
  refine hcut (hall 'X' contentStretches _ rfl (by decide) fun i hi text hc => ?_)
  rw [hquoted i hi] at hc
  cases hc

end Css
end StyleLowering
