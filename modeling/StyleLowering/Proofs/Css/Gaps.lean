/-
# Segments and gaps

A style text consists of segments, strings and plain text, with gaps of comments
and white space around them (`Gapped`).  `Gapped.layout` says of every gap by
itself what is left of it: a space, if it holds white space and neither of the
segments at its ends makes the space superfluous.  Minification walks over the
text with a flag and the character written last instead, and comes to the same
(`minify_eq_layout`).
-/

import StyleLowering.Proofs.Css.Leftmost

namespace StyleLowering
namespace Css

/-- A comment or white space. -/
def Token.isGap : Token → Bool
  | .comment _ | .space _ => true
  | .plain _ | .quoted _ => false

/-- A run of white space. -/
def Token.isSpace : Token → Bool
  | .space _ => true
  | .plain _ | .quoted _ | .comment _ => false

/-- Whether a gap holds white space. -/
def isSpaced (gap : List Token) : Bool := gap.any Token.isSpace

/-- Segments with the gaps around them. -/
@[ext]
structure Gapped where
  /-- The gap in front of all segments. -/
  lead : List Token
  /-- The segments, each with the gap behind it. -/
  pieces : List (Token × List Token)
  isGap_lead : ∀ t ∈ lead, t.isGap = true
  isGap_behind : ∀ p ∈ pieces, ∀ t ∈ p.2, t.isGap = true
  isSegment : ∀ p ∈ pieces, p.1.isGap = false

namespace Gapped

/-- The tokens that the segments and gaps consist of. -/
def tokens (g : Gapped) : List Token := g.lead ++ g.pieces.flatMap fun p => p.1 :: p.2

/-- The segments and gaps of a text that falls into leftmost matches. -/
def Divides (g : Gapped) (cs : List Char) : Prop := Leftmost cs g.tokens

end Gapped

/-- A segment that no space goes behind: it ends in one of `{ } : ; ,`. -/
def endsTight (segment : Token) : Bool := segment.text.getLast?.any isPunctuation

/-- A segment that no space goes in front of: it starts with one of `{ } ; ,`. -/
def startsTight (segment : Token) : Bool :=
  segment.text.head?.any fun c => isPunctuation c && c != ':'

/-- A space where a condition holds. -/
def spaceIf (b : Bool) : List Char := if b then [' '] else []

namespace Gapped

/-- A segment, the gap behind it and the segments after that gap.  At the end, a
space is left only at a cut. -/
def layoutFrom (isLast : Bool) (segment : Token) (gap : List Token) :
    List (Token × List Token) → List Char
  | [] => segment.text ++ spaceIf (isSpaced gap && !isLast && !endsTight segment)
  | (next, gap') :: pieces =>
    segment.text ++ spaceIf (isSpaced gap && !endsTight segment && !startsTight next) ++
      layoutFrom isLast next gap' pieces

/-- **What a text consists of once its gaps are laid out anew.**  The segments
stay as they are.  At the start, a space is left only at a cut. -/
def layout (g : Gapped) (isFirst isLast : Bool) : List Char :=
  match g.pieces with
  | [] => spaceIf (isSpaced g.lead && !isFirst && !isLast)
  | (segment, gap) :: pieces =>
    spaceIf (isSpaced g.lead && !isFirst && !startsTight segment) ++
      layoutFrom isLast segment gap pieces

/-! ### The one division of a text -/

/-- One more token in front. -/
def cons (t : Token) (g : Gapped) : Gapped :=
  if ht : t.isGap = true then
    { g with lead := t :: g.lead, isGap_lead := List.forall_mem_cons.2 ⟨ht, g.isGap_lead⟩ }
  else
    { lead := []
      pieces := (t, g.lead) :: g.pieces
      isGap_lead := List.forall_mem_nil _
      isGap_behind := List.forall_mem_cons.2 ⟨g.isGap_lead, g.isGap_behind⟩
      isSegment := List.forall_mem_cons.2 ⟨Bool.not_eq_true _ ▸ ht, g.isSegment⟩ }

/-- Tokens as segments and gaps. -/
def ofTokens : List Token → Gapped
  | [] => ⟨[], [], List.forall_mem_nil _, List.forall_mem_nil _, List.forall_mem_nil _⟩
  | t :: ts => cons t (ofTokens ts)

/-- White space and comments in front belong to the first gap. -/
theorem cons_of_isGap {t : Token} (ht : t.isGap = true) (g : Gapped) :
    (cons t g).lead = t :: g.lead ∧ (cons t g).pieces = g.pieces := by
  rw [cons, dif_pos ht]
  exact ⟨rfl, rfl⟩

/-- A segment in front is a piece, and the first gap stands behind it. -/
theorem cons_of_isSegment {t : Token} (ht : t.isGap = false) (g : Gapped) :
    (cons t g).lead = [] ∧ (cons t g).pieces = (t, g.lead) :: g.pieces := by
  rw [cons, dif_neg (by rw [ht]; exact Bool.false_ne_true)]
  exact ⟨rfl, rfl⟩

/-- What stands in front stands in front. -/
theorem tokens_cons (t : Token) (g : Gapped) : (cons t g).tokens = t :: g.tokens := by
  unfold cons
  split
  · rfl
  · rfl

/-- Dividing loses no token. -/
theorem tokens_ofTokens (ts : List Token) : (ofTokens ts).tokens = ts := by
  induction ts with
  | nil => rfl
  | cons t ts ih => rw [ofTokens, tokens_cons, ih]

/-- White space and comments at the start are the first gap. -/
theorem ofTokens_gap {gap : List Token} (hgap : ∀ t ∈ gap, t.isGap = true) (ts : List Token) :
    (ofTokens (gap ++ ts)).lead = gap ++ (ofTokens ts).lead ∧
      (ofTokens (gap ++ ts)).pieces = (ofTokens ts).pieces := by
  induction gap with
  | nil => exact ⟨rfl, rfl⟩
  | cons t gap ih =>
    rw [List.forall_mem_cons] at hgap
    obtain ⟨hl, hp⟩ := ih hgap.2
    obtain ⟨hl', hp'⟩ := cons_of_isGap hgap.1 (ofTokens (gap ++ ts))
    rw [List.cons_append, ofTokens, hl', hp', hl, hp]
    exact ⟨rfl, rfl⟩

/-- Segments with gaps between them are divided into these. -/
theorem ofTokens_pieces {pieces : List (Token × List Token)}
    (hgap : ∀ p ∈ pieces, ∀ t ∈ p.2, t.isGap = true) (hs : ∀ p ∈ pieces, p.1.isGap = false) :
    (ofTokens (pieces.flatMap fun p => p.1 :: p.2)).lead = [] ∧
      (ofTokens (pieces.flatMap fun p => p.1 :: p.2)).pieces = pieces := by
  induction pieces with
  | nil => exact ⟨rfl, rfl⟩
  | cons p pieces ih =>
    rw [List.forall_mem_cons] at hgap hs
    obtain ⟨hl, hp⟩ := ih hgap.2 hs.2
    obtain ⟨hl', hp'⟩ := ofTokens_gap hgap.1 (pieces.flatMap fun p => p.1 :: p.2)
    obtain ⟨hl'', hp''⟩ :=
      cons_of_isSegment hs.1 (ofTokens (p.2 ++ pieces.flatMap fun p => p.1 :: p.2))
    rw [List.flatMap_cons, List.cons_append, ofTokens, hl'', hp'', hl', hp', hl, hp,
      List.append_nil]
    exact ⟨rfl, rfl⟩

/-- Segments and gaps are determined by their tokens. -/
theorem ofTokens_tokens (g : Gapped) : ofTokens g.tokens = g := by
  obtain ⟨hl, hp⟩ := ofTokens_gap g.isGap_lead (g.pieces.flatMap fun p => p.1 :: p.2)
  obtain ⟨hl', hp'⟩ := ofTokens_pieces g.isGap_behind g.isSegment
  refine Gapped.ext ?_ ?_
  · rw [tokens, hl, hl', List.append_nil]
  · rw [tokens, hp, hp']

/-- **A text has one division into segments and gaps.** -/
theorem divides_iff {g : Gapped} {cs : List Char} :
    g.Divides cs ↔ g = ofTokens (Css.tokens cs) := by
  rw [Divides, leftmost_iff]
  constructor
  · intro h
    rw [← h, ofTokens_tokens]
  · rintro rfl
    rw [tokens_ofTokens]

end Gapped

/-! ### Minification, gap by gap -/

variable {first last pending : Bool} {prev : Option Char}

/-- A gap matters only for the white space it holds. -/
theorem squeeze_gap {gap : List Token} (hgap : ∀ t ∈ gap, t.isGap = true) (ts : List Token) :
    squeeze first last prev pending (gap ++ ts) =
      squeeze first last prev (pending || isSpaced gap) ts := by
  induction gap generalizing pending with
  | nil => rw [List.nil_append, isSpaced, List.any_nil, Bool.or_false]
  | cons t gap ih =>
    rw [List.forall_mem_cons] at hgap
    cases t with
    | plain text => exact absurd hgap.1 Bool.false_ne_true
    | quoted text => exact absurd hgap.1 Bool.false_ne_true
    | comment text => rw [List.cons_append, squeeze, ih hgap.2]; rfl
    | space text => rw [List.cons_append, squeeze, ih hgap.2]; simp [isSpaced, Token.isSpace]

/-- A segment stays as it is. -/
theorem squeeze_segment {segment : Token} (hs : segment.isGap = false) (ts : List Token) :
    squeeze first last prev pending (segment :: ts) =
      spaceIf (pending && keepsSpace first prev segment.text.head?) ++ segment.text ++
        squeeze first last (segment.text.getLast?.or prev) false ts := by
  cases segment with
  | plain text => rfl
  | quoted text => rfl
  | comment text => cases hs
  | space text => cases hs

/-- White space at the start is dropped at the outer end of a template, and before punctuation other
than a colon. -/
theorem keepsSpace_start (next : Option Char) :
    keepsSpace first none next = (!first && !next.any fun c => isPunctuation c && c != ':') := by
  simp [keepsSpace]

/-- Behind a segment, the character written last is that of the segment. -/
theorem keepsSpace_behind {segment : Token} (hne : segment.text ≠ []) (next : Option Char) :
    keepsSpace first (segment.text.getLast?.or prev) next =
      (!endsTight segment && !next.any fun c => isPunctuation c && c != ':') := by
  rw [endsTight, keepsSpace, List.getLast?_eq_some_getLast hne]
  simp

/-- **Behind a segment, what is written is the layout of the gaps and segments that follow.** -/
theorem squeeze_behind {segment : Token} {gap : List Token} {pieces : List (Token × List Token)}
    (hne : segment.text ≠ []) (hgap : ∀ t ∈ gap, t.isGap = true)
    (hbehind : ∀ p ∈ pieces, ∀ t ∈ p.2, t.isGap = true)
    (hs : ∀ p ∈ pieces, p.1.isGap = false ∧ p.1.text ≠ []) :
    segment.text ++ squeeze first last (segment.text.getLast?.or prev) false
        (gap ++ pieces.flatMap fun p => p.1 :: p.2) =
      Gapped.layoutFrom last segment gap pieces := by
  induction pieces generalizing segment gap prev with
  | nil =>
    rw [squeeze_gap hgap, List.flatMap_nil, squeeze, Gapped.layoutFrom, keepsSpace_behind hne,
      spaceIf]
    simp [Bool.and_comm, Bool.and_left_comm]
  | cons p pieces ih =>
    rw [List.forall_mem_cons] at hbehind hs
    have hnext : p.1.text ++ squeeze first last
        (p.1.text.getLast?.or (segment.text.getLast?.or prev)) false
        (p.2 ++ pieces.flatMap fun p => p.1 :: p.2) = Gapped.layoutFrom last p.1 p.2 pieces :=
      ih hs.1.2 hbehind.1 hbehind.2 hs.2
    rw [squeeze_gap hgap, List.flatMap_cons, List.cons_append, squeeze_segment hs.1.1,
      Gapped.layoutFrom, keepsSpace_behind hne, ← hnext, startsTight]
    simp [Bool.and_assoc]

/-- **The tokens of segments and gaps are squeezed gap by gap.** -/
theorem squeeze_tokens {g : Gapped} (hg : ∀ t ∈ g.tokens, t.text ≠ []) :
    squeeze first last none false g.tokens = g.layout first last := by
  have hs : ∀ p ∈ g.pieces, p.1.isGap = false ∧ p.1.text ≠ [] := by
    intro p hp
    refine ⟨g.isSegment p hp, hg p.1 (List.mem_append_right _ ?_)⟩
    exact List.mem_flatMap.2 ⟨p, hp, List.mem_cons_self⟩
  have hbehind := g.isGap_behind
  rw [Gapped.tokens, squeeze_gap g.isGap_lead, Gapped.layout]
  cases hpieces : g.pieces with
  | nil =>
    rw [List.flatMap_nil, squeeze, spaceIf]
    simp [keepsSpace_start, Bool.and_comm, Bool.and_left_comm]
  | cons p pieces =>
    rw [hpieces, List.forall_mem_cons] at hs hbehind
    rw [List.flatMap_cons, List.cons_append, squeeze_segment hs.1.1, List.append_assoc,
      squeeze_behind hs.1.2 hbehind.1 hbehind.2 hs.2, keepsSpace_start]
    simp [startsTight, Bool.and_assoc]

/-- **Minification treats every gap by itself.**  A text divides into segments
and gaps in one way, and minified it consists of them with the gaps laid out
anew. -/
theorem minify_eq_layout (text : String) (isFirst isLast : Bool) :
    ∃ g : Gapped, (∀ g' : Gapped, g'.Divides text.toList ↔ g' = g) ∧
      (minify text isFirst isLast).toList = g.layout isFirst isLast := by
  refine ⟨Gapped.ofTokens (tokens text.toList), fun g' => Gapped.divides_iff, ?_⟩
  have hl : Leftmost text.toList (Gapped.ofTokens (tokens text.toList)).tokens :=
    Gapped.divides_iff.2 rfl
  rw [minify, String.toList_ofList, ← squeeze_tokens hl.text_ne_nil, Gapped.tokens_ofTokens]

end Css
end StyleLowering
