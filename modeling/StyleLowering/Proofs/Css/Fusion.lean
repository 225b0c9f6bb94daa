/-
# What squeezing brings together

Between two stretches of plain text a gap with white space leaves a space, and a
gap of comments alone leaves nothing, so that the two meet (`Neighbours.written_eq`).
If the first one ends with `/` and the second one starts with `*`, they open a
comment (`FusesOpener`).  That is the only way a comment gets into a squeezed
text, and without one the squeezed text stays as it is when it is squeezed again
(`written_settles`).
-/

import StyleLowering.Proofs.Css.Written

namespace StyleLowering
namespace Css

/-- Comments alone stand between a `/` and a `*` at the ends of plain text. -/
def FusesOpener (ts : List Token) : Prop :=
  ∃ (before : List Token) (u : List Char) (gap : List Token) (v : List Char) (after : List Token),
    ts = before ++ .plain u :: (gap ++ .plain v :: after) ∧ gap ≠ [] ∧
      (∀ t ∈ gap, t.isComment = true) ∧ u.getLast? = some '/' ∧ v.head? = some '*'

/-- Whether a token is plain text that starts with `*`. -/
def Token.startsWithStar : Token → Bool
  | .plain text => text.head? == some '*'
  | _ => false

/-- Where tokens fuse to a comment, one of them is plain text that starts with `*`. -/
theorem FusesOpener.exists_star {ts : List Token} (h : FusesOpener ts) :
    ∃ t ∈ ts, t.startsWithStar = true := by
  obtain ⟨before, u, gap, v, after, rfl, -, -, -, hv⟩ := h
  exact ⟨.plain v, by simp, beq_iff_eq.2 hv⟩

/-- Tokens in front do not matter. -/
theorem FusesOpener.cons {ts : List Token} (h : FusesOpener ts) (t : Token) :
    FusesOpener (t :: ts) := by
  obtain ⟨before, u, gap, v, after, rfl, hgap⟩ := h
  exact ⟨t :: before, u, gap, v, after, rfl, hgap⟩

/-- A character of plain text in front does not matter either. -/
theorem FusesOpener.consPlain {ts : List Token} (h : FusesOpener ts) (c : Char) :
    FusesOpener (consPlain c ts) := by
  unfold Css.consPlain
  split
  · next text ts =>
    obtain ⟨before, u, gap, v, after, heq, hne, hgap, hu, hv⟩ := h
    cases before with
    | nil =>
      obtain ⟨rfl, rfl⟩ : text = u ∧ ts = gap ++ .plain v :: after := by simpa using heq
      exact ⟨[], c :: text, gap, v, after, rfl, hne, hgap, by rw [List.getLast?_cons, hu]; rfl, hv⟩
    | cons t before =>
      obtain ⟨rfl, rfl⟩ := List.cons.inj heq
      exact ⟨.plain (c :: text) :: before, u, gap, v, after, rfl, hne, hgap, hu, hv⟩
  · exact h.cons _

/-- What fuses behind some place of a text fuses in the text. -/
theorem FusesOpener.of_cutsTo {cs cs' : List Char} (hcs : CutsTo cs cs')
    (h : FusesOpener (tokens cs')) : FusesOpener (tokens cs) := by
  cases cs with
  | nil => exact absurd hcs.length_lt (Nat.not_lt_zero _)
  | cons c rest =>
    rcases hcs with ⟨t, ht⟩ | ⟨c, hc, ht⟩
    · rw [tokens_cons_of_some ht]
      exact h.cons t
    · obtain ⟨rfl, rfl⟩ := List.cons.inj hc
      rw [tokens_cons_of_none ht]
      exact h.consPlain _

/-- What fuses behind some later place of a text fuses in the text. -/
theorem FusesOpener.of_cutsTo_later {cs cs' : List Char} (hcs : Relation.TransGen CutsTo cs cs')
    (h : FusesOpener (tokens cs')) : FusesOpener (tokens cs) := by
  induction hcs with
  | single hcs => exact h.of_cutsTo hcs
  | tail _ hcs ih => exact ih (h.of_cutsTo hcs)

/-- Behind a later place there is less text. -/
theorem length_lt_of_cutsTo_later {cs cs' : List Char} (hcs : Relation.TransGen CutsTo cs cs') :
    cs'.length < cs.length := by
  induction hcs with
  | single hcs => exact hcs.length_lt
  | tail _ hcs ih => exact Nat.lt_trans hcs.length_lt ih

/-! ### What plain text starts when it was written -/

section

variable {c : Char} {rest : List Char}

/-- Where plain text goes on, there is no white space. -/
theorem isWhite_of_token?_eq_none (hn : token? (c :: rest) = none) : Text.isWhite c = false := by
  rw [Bool.eq_false_iff]
  intro hw
  rw [token?_white hw] at hn
  cases hn

/-- A quotation mark in plain text is never closed. -/
theorem quotedEnd_eq_none_of_token? (hn : token? (c :: rest) = none) (hq : c = '"' ∨ c = '\'') :
    quotedEnd c rest = none := by
  rwa [token?_quote hq, Option.map_eq_none_iff] at hn

/-- A star alone starts no token. -/
theorem token?_star (rest : List Char) : token? ('*' :: rest) = none := by
  rw [token?.eq_2 _ _ (fun _ h _ => absurd h (by decide)), if_neg (by decide), if_neg (by decide)]

/-- A comment that only the text written behind a `/` opens was fused. -/
theorem fusesOpener_of_opens {s after : List Char} (hn : token? ('/' :: rest) = none)
    (hw : written (some '/') false rest = '*' :: (s ++ after)) (hs : IsCommentRest s) :
    FusesOpener (tokens ('/' :: rest)) := by
  have hhead : (squeeze true true (some '/') false (tokens rest)).head? = some '*' := by
    rw [← written, hw, List.head?_cons]
  obtain ⟨gap, t, us, hts, hg, hseg, hstar⟩ := exists_of_head?_squeeze (by decide) (by decide)
    (by decide) (leftmost_tokens rest).text_ne_nil hhead
  rw [tokens_cons_of_none hn, hts]
  cases t with
  | comment => cases hseg
  | space => cases hseg
  | quoted text =>
    have hmem : .quoted text ∈ tokens rest := by
      rw [hts]
      exact List.mem_append_right _ List.mem_cons_self
    rcases (leftmost_tokens rest).mem hmem with ⟨_, q, _, rfl, hq, -⟩ | ⟨_, h, -⟩
    · obtain rfl : q = '*' := Option.some_inj.1 hstar
      exact absurd hq (by decide)
    · cases h
  | plain v =>
    cases gap with
    | nil =>
      -- A star right behind the slash: the comment was never closed.
      exfalso
      obtain ⟨v', rfl⟩ := List.head?_eq_some_iff.1 hstar
      obtain ⟨r, rfl⟩ : ∃ r, rest = '*' :: r := by
        refine ⟨v' ++ us.flatMap Token.text, ?_⟩
        rw [← flatMap_text_tokens rest, hts]
        rfl
      rw [token?, Option.map_eq_none_iff, commentEnd_eq_none_iff] at hn
      rw [written_of_none (token?_star r), Bool.false_and, spaceIf, if_neg Bool.false_ne_true,
        List.nil_append, List.cons_inj_right] at hw
      have hopen : ¬['*', '/'] <:+: written (some '*') false r := by
        refine not_closes_squeeze (leftmost_tokens r).text_ne_nil (fun t ht => ?_)
          (by rwa [flatMap_text_tokens])
        cases t with
        | comment => exact absurd (infix_of_comment_mem ht) hn
        | plain | quoted | space => rfl
      rw [hw] at hopen
      exact hopen (hs.1.isInfix.trans (List.prefix_append _ _).isInfix)
    | cons g gap =>
      have hg' := hg g List.mem_cons_self
      cases g with
      | comment text =>
        exact ⟨[], ['/'], .comment text :: gap, v, us, rfl, List.cons_ne_nil _ _, hg, rfl, hstar⟩
      | plain | quoted | space => cases hg'

/-- **What plain text starts when it was written.**  It goes on as plain text, or a
string comes about, or a comment that was fused. -/
theorem token?_written (hn : token? (c :: rest) = none) :
    token? (c :: written (some c) false rest) = none ∨
      (∃ s cs', Token.Matches (written (some c) false cs') (.quoted (c :: s)) ∧
        written (some c) false rest = s ++ written (some c) false cs' ∧
        Relation.TransGen CutsTo (c :: rest) cs') ∨
      ∃ s after, token? (c :: written (some c) false rest) = some (.comment s, after) ∧
        FusesOpener (tokens (c :: rest)) := by
  cases h : token? (c :: written (some c) false rest) with
  | none => exact .inl rfl
  | some p =>
    obtain ⟨t, after⟩ := p
    obtain ⟨hm, heq⟩ := token?_eq_some_iff.1 h
    cases t with
    | plain => exact hm.elim
    | space text =>
      obtain ⟨hne, hw, -⟩ := hm
      have hc : c ∈ text := by
        cases text with
        | nil => exact absurd rfl hne
        | cons d text =>
          rw [(List.cons.inj heq).1]
          exact List.mem_cons_self
      exact absurd (hw c hc) (Bool.eq_false_iff.1 (isWhite_of_token?_eq_none hn))
    | comment text =>
      obtain ⟨s, rfl, hs⟩ := hm
      obtain ⟨rfl, hrest⟩ := List.cons.inj heq
      exact .inr (.inr ⟨_, after, rfl, fusesOpener_of_opens hn hrest hs⟩)
    | quoted text =>
      obtain ⟨quote, s, rfl, hq, hs⟩ := hm
      obtain ⟨rfl, hrest⟩ := List.cons.inj heq
      have hb : c ≠ '\\' := by rcases hq with rfl | rfl <;> decide
      have hsp : c ≠ ' ' := by rcases hq with rfl | rfl <;> decide
      have ho : closingRest c false rest = none := by
        rw [closingRest_eq_quotedEnd hb, quotedEnd_eq_none_of_token? hn hq, Option.map_none]
      have hclosed : closingRest c false (written (some c) false rest) = some after := by
        rw [closingRest_eq_quotedEnd hb, (quotedEnd_eq_some_iff hb).2 ⟨hs, hrest⟩, Option.map_some]
      obtain ⟨cs', hcs', rfl⟩ := exists_of_closingRest hsp ho hclosed
      exact .inr (.inl ⟨s, cs', ⟨c, s, rfl, hq, hs⟩, hrest, .head (.inr ⟨c, rfl, hn⟩) hcs'⟩)

end

/-! ### Squeezing again -/

/-- What was written of a text behind `prev`: either a comment opener was fused and it
has a comment, or it has none and is written in the same way again. -/
def Settles (cs : List Char) (prev : Option Char) (out : List Char) : Prop :=
  ((∃ t ∈ tokens out, t.isComment = true) ∧ FusesOpener (tokens cs)) ∨
    (∀ t ∈ tokens out, t.isComment = false) ∧ written prev false out = out

section

variable {cs cs' out : List Char} {prev : Option Char} {c : Char}

/-- To settle, it is enough that what fuses in another text fuses in this one. -/
theorem Settles.of_fuses (h : Settles cs' prev out)
    (hcs : FusesOpener (tokens cs') → FusesOpener (tokens cs)) : Settles cs prev out :=
  h.imp_left fun ⟨hc, hf⟩ => ⟨hc, hcs hf⟩

/-- A space that was left in front of a character is left again. -/
theorem settles_spaceIf (b : Bool) (hc : Text.isWhite c = false)
    (h : ((∃ t ∈ tokens (c :: out), t.isComment = true) ∧ FusesOpener (tokens cs)) ∨
      (∀ t ∈ tokens (c :: out), t.isComment = false) ∧ ∀ pending,
        written prev pending (c :: out) =
          spaceIf (pending && keepsSpace true prev (some c)) ++ c :: out) :
    Settles cs prev (spaceIf (b && keepsSpace true prev (some c)) ++ c :: out) := by
  cases hb : b && keepsSpace true prev (some c) with
  | false =>
    rw [spaceIf, if_neg Bool.false_ne_true, List.nil_append]
    refine h.imp_right ?_
    rintro ⟨hn, hw⟩
    refine ⟨hn, ?_⟩
    rw [hw, Bool.false_and, spaceIf, if_neg Bool.false_ne_true, List.nil_append]
  | true =>
    have hspace : token? (' ' :: c :: out) = some (.space [' '], c :: out) :=
      token?_eq_some_iff.2 ⟨⟨List.cons_ne_nil _ _, List.forall_mem_singleton.2 Text.isWhite_space,
        by simpa using hc⟩, rfl⟩
    rw [spaceIf, if_pos rfl, List.singleton_append]
    rw [Bool.and_eq_true] at hb
    rcases h with ⟨⟨t, ht, hct⟩, hf⟩ | ⟨hn, hw⟩
    · refine .inl ⟨⟨t, ?_, hct⟩, hf⟩
      rw [tokens_cons_of_some hspace]
      exact List.mem_cons_of_mem _ ht
    · refine .inr ⟨?_, ?_⟩
      · rw [tokens_cons_of_some hspace]
        exact List.forall_mem_cons.2 ⟨rfl, hn⟩
      · rw [written_of_space hspace, hw, hb.2, Bool.and_true, spaceIf, if_pos rfl,
          List.singleton_append]

/-- A quoted string ends with its quotation mark. -/
theorem QuotedRest.getLast? {quote : Char} {s : List Char} (h : QuotedRest quote s) :
    s.getLast? = some quote := by
  induction h with
  | close => rfl
  | escaped c _ ih => rw [List.getLast?_cons, List.getLast?_cons, ih]; rfl
  | plain _ _ _ ih => rw [List.getLast?_cons, ih]; rfl

/-- A string stays a string. -/
theorem Settles.quoted {s : List Char} (h : Settles cs (some c) out) (b : Bool)
    (hm : Token.Matches out (.quoted (c :: s))) :
    Settles cs prev (spaceIf (b && keepsSpace true prev (some c)) ++ c :: (s ++ out)) := by
  have ht : token? (c :: (s ++ out)) = some (.quoted (c :: s), out) :=
    token?_eq_some_iff.2 ⟨hm, rfl⟩
  obtain ⟨quote, s, heq, hq, hs⟩ := hm
  obtain ⟨rfl, rfl⟩ := List.cons.inj heq
  have hc : Text.isWhite c = false := by rcases hq with rfl | rfl <;> decide
  refine settles_spaceIf b hc ?_
  rw [tokens_cons_of_some ht]
  rcases h with ⟨⟨t, htm, hct⟩, hf⟩ | ⟨hn, hw⟩
  · exact .inl ⟨⟨t, List.mem_cons_of_mem _ htm, hct⟩, hf⟩
  · refine .inr ⟨List.forall_mem_cons.2 ⟨rfl, hn⟩, fun pending => ?_⟩
    rw [written_of_quoted ht, List.head?_cons, List.getLast?_cons, hs.getLast?, Option.getD_some,
      Option.some_or, hw, List.append_assoc, List.cons_append]

/-- A character of plain text in front brings no comment and takes none away. -/
theorem isComment_consPlain (c : Char) (ts : List Token) :
    (∃ t ∈ consPlain c ts, t.isComment = true) ↔ ∃ t ∈ ts, t.isComment = true := by
  unfold consPlain
  split
  · simp [Token.isComment]
  · simp [Token.isComment]

/-- Plain text stays plain text where it still starts no token. -/
theorem Settles.plain (h : Settles cs (some c) out) (b : Bool) (hn : token? (c :: out) = none) :
    Settles cs prev (spaceIf (b && keepsSpace true prev (some c)) ++ c :: out) := by
  refine settles_spaceIf b (isWhite_of_token?_eq_none hn) ?_
  rw [tokens_cons_of_none hn, isComment_consPlain]
  refine h.imp_right ?_
  rintro ⟨hc, hw⟩
  refine ⟨fun t ht => ?_, fun pending => ?_⟩
  · by_contra htc
    rw [Bool.not_eq_false] at htc
    obtain ⟨u, hu, huc⟩ := (isComment_consPlain c _).1 ⟨t, ht, htc⟩
    rw [hc u hu] at huc
    cases huc
  · rw [written_of_none hn, hw]

end

/-- **What was written of a text settles.** -/
theorem written_settles (prev : Option Char) (pending : Bool) (cs : List Char) :
    Settles cs prev (written prev pending cs) := by
  -- By length: a string that comes about in plain text ends at a place far behind its start.
  induction hl : cs.length using Nat.strongRecOn generalizing cs prev pending with
  | ind n ih =>
    subst hl
    cases cs with
    | nil =>
      rw [written_nil]
      refine .inr ⟨?_, written_nil⟩
      rw [tokens]
      exact List.forall_mem_nil _
    | cons c rest =>
      cases h : token? (c :: rest) with
      | some p =>
        obtain ⟨t, after⟩ := p
        have hcut : CutsTo (c :: rest) after := .inl ⟨t, h⟩
        have hafter : ∀ prev pending, Settles (c :: rest) prev (written prev pending after) :=
          fun prev pending =>
            (ih _ hcut.length_lt prev pending after rfl).of_fuses (FusesOpener.of_cutsTo hcut)
        cases t with
        | plain => exact (token?_eq_some_iff.1 h).1.elim
        | comment text =>
          rw [written_of_comment h]
          exact hafter prev pending
        | space text =>
          rw [written_of_space h]
          exact hafter prev true
        | quoted text =>
          obtain ⟨hm, -⟩ := token?_eq_some_iff.1 h
          obtain ⟨quote, s, rfl, hq, hs⟩ := hm
          rw [written_of_quoted h, List.head?_cons, List.getLast?_cons, hs.getLast?,
            Option.getD_some, Option.some_or, List.append_assoc, List.cons_append]
          exact (hafter (some quote) false).quoted pending ⟨quote, s, rfl, hq, hs⟩
      | none =>
        have hcut : CutsTo (c :: rest) rest := .inr ⟨c, rfl, h⟩
        rw [written_of_none h]
        rcases token?_written h with hn | ⟨s, cs', hm, hw, hcs'⟩ | ⟨s, after, hs, hf⟩
        · have hrest := ih _ hcut.length_lt (some c) false rest rfl
          exact (hrest.of_fuses (FusesOpener.of_cutsTo hcut)).plain pending hn
        -- A string has come about: what is behind it was written from a later place.
        · have hrest := ih _ (length_lt_of_cutsTo_later hcs') (some c) false cs' rfl
          rw [hw]
          exact (hrest.of_fuses (FusesOpener.of_cutsTo_later hcs')).quoted pending hm
        -- A comment has come about, so its opener was fused.
        · refine settles_spaceIf pending (isWhite_of_token?_eq_none h)
            (.inl ⟨⟨.comment s, ?_, rfl⟩, hf⟩)
          rw [tokens_cons_of_some hs]
          exact List.mem_cons_self

/-! ### Comments make a difference -/

/-- Squeezing takes the comments away and adds at most a space that is due. -/
theorem length_squeeze_add_le (first last : Bool) (prev : Option Char) (pending : Bool)
    {ts : List Token} (hts : ∀ t ∈ ts, t.text ≠ []) :
    (squeeze first last prev pending ts).length +
        ((ts.filter Token.isComment).flatMap Token.text).length ≤
      pending.toNat + (ts.flatMap Token.text).length := by
  -- A space is written only where white space was met, which is longer than the space.
  have hspace : ∀ b q, (spaceIf (b && q)).length ≤ b.toNat := by decide
  induction ts generalizing prev pending with
  | nil =>
    cases pending with
    | false => simp [squeeze]
    | true =>
      rw [squeeze]
      split <;> simp
  | cons t ts ih =>
    rw [List.forall_mem_cons] at hts
    have hpos := List.length_pos_iff.2 hts.1
    cases hgap : t.isGap with
    | false =>
      have hc : t.isComment = false := by
        cases t with
        | plain | quoted => rfl
        | comment | space => cases hgap
      have hsp := hspace pending (keepsSpace first prev t.text.head?)
      have hrest := ih (t.text.getLast?.or prev) false hts.2
      rw [squeeze_segment hgap, List.filter_cons, hc, if_neg Bool.false_ne_true, List.flatMap_cons]
      simp only [List.length_append, Bool.toNat_false] at *
      omega
    | true =>
      cases t with
      | plain | quoted => cases hgap
      | comment text =>
        have hrest := ih prev pending hts.2
        rw [squeeze, List.filter_cons, if_pos (by rfl), List.flatMap_cons, List.flatMap_cons]
        simp only [List.length_append] at *
        omega
      | space text =>
        have hrest := ih prev true hts.2
        have hc : (Token.space text).isComment = false := rfl
        rw [squeeze, List.filter_cons, hc, if_neg Bool.false_ne_true, List.flatMap_cons]
        simp only [List.length_append, Bool.toNat_true] at *
        omega

/-- A text that stays as it is has no comment. -/
theorem isComment_of_written_eq {cs : List Char} (h : written none false cs = cs) :
    ∀ t ∈ tokens cs, t.isComment = false := by
  intro t ht
  by_contra hc
  rw [Bool.not_eq_false] at hc
  have hts := (leftmost_tokens cs).text_ne_nil
  have hle := length_squeeze_add_le true true none false hts
  rw [← written, h, flatMap_text_tokens, Bool.toNat_false] at hle
  have hpos : 0 < (((tokens cs).filter Token.isComment).flatMap Token.text).length := by
    rw [List.length_pos_iff, ne_eq, List.flatMap_eq_nil_iff]
    exact fun hall => hts t ht (hall t (List.mem_filter.2 ⟨ht, hc⟩))
  omega

/-! ### Neighbours -/

/-- Two stretches of plain text with a gap between them, neither of which faces the gap with
punctuation. -/
structure Neighbours (cs : List Char) where
  before : List Token
  left : List Char
  gap : List Token
  right : List Char
  after : List Token
  tokens_eq : tokens cs = before ++ .plain left :: (gap ++ .plain right :: after)
  gap_ne_nil : gap ≠ []
  isGap : ∀ t ∈ gap, t.isGap = true
  left_open : left.getLast?.any isPunctuation = false
  right_open : right.head?.any isPunctuation = false

namespace Neighbours

variable {cs : List Char}

/-- What is written of a text up to the first of the neighbours. -/
def upTo (n : Neighbours cs) : List Char :=
  squeeze true true none false (n.before ++ [.plain n.left])

/-- What is written of a text from the second of the neighbours on. -/
def onwards (n : Neighbours cs) : List Char :=
  squeeze true true n.left.getLast? false (.plain n.right :: n.after)

/-- There is text on the left. -/
theorem left_ne_nil (n : Neighbours cs) : n.left ≠ [] := by
  refine (leftmost_tokens cs).text_ne_nil (.plain n.left) ?_
  rw [n.tokens_eq]
  exact List.mem_append_right _ List.mem_cons_self

/-- There is text on the right. -/
theorem right_ne_nil (n : Neighbours cs) : n.right ≠ [] := by
  refine (leftmost_tokens cs).text_ne_nil (.plain n.right) ?_
  rw [n.tokens_eq]
  exact List.mem_append_right _
    (List.mem_cons_of_mem _ (List.mem_append_right _ List.mem_cons_self))

end Neighbours

/-- Behind plain text one goes on with its last character. -/
theorem squeeze_append_plain {first last : Bool} (prev : Option Char) (pending : Bool)
    (ts : List Token) {u : List Char} (hu : u ≠ []) (us : List Token) :
    squeeze first last prev pending (ts ++ .plain u :: us) =
      squeeze first last prev pending (ts ++ [.plain u]) ++
        squeeze first last u.getLast? false us := by
  induction ts generalizing prev pending with
  | nil => simp [squeeze, List.getLast?_eq_some_getLast hu]
  | cons t ts ih =>
    cases t with
    | comment => exact ih prev pending
    | space => exact ih prev true
    | plain text => simp [squeeze, ih]
    | quoted text => simp [squeeze, ih]

/-- Plain text at the end is written last. -/
theorem suffix_squeeze_plain (prev : Option Char) (pending : Bool) (ts : List Token)
    (u : List Char) : u <:+ squeeze true true prev pending (ts ++ [.plain u]) := by
  induction ts generalizing prev pending with
  | nil =>
    have hend : squeeze true true (u.getLast?.or prev) false [] = [] := rfl
    rw [List.nil_append, squeeze, hend, List.append_nil]
    exact List.suffix_append _ _
  | cons t ts ih =>
    cases t with
    | comment => exact ih prev pending
    | space => exact ih prev true
    | plain text => exact (ih _ _).trans (List.suffix_append _ _)
    | quoted text => exact (ih _ _).trans (List.suffix_append _ _)

/-- **Neighbours meet or stay apart:** a space is left between them if the gap holds white
space, and nothing otherwise. -/
theorem Neighbours.written_eq {cs : List Char} (n : Neighbours cs) :
    written none false cs = n.upTo ++ spaceIf (isSpaced n.gap) ++ n.onwards ∧
      n.left <:+ n.upTo ∧ n.right <+: n.onwards := by
  have hp := List.getLast?_eq_some_getLast n.left_ne_nil
  have hd := List.head?_eq_some_head n.right_ne_nil
  have hkeeps : keepsSpace true n.left.getLast? n.right.head? = true := by
    have hl := n.left_open
    have hr := n.right_open
    rw [hp, Option.any_some] at hl
    rw [hd, Option.any_some] at hr
    simp [keepsSpace, hp, hd, hl, hr]
  refine ⟨?_, suffix_squeeze_plain _ _ _ _, ?_⟩
  · rw [written, n.tokens_eq, squeeze_append_plain none false n.before n.left_ne_nil,
      squeeze_gap n.isGap, Neighbours.upTo, Neighbours.onwards, squeeze, squeeze, hkeeps, spaceIf]
    simp
  · rw [Neighbours.onwards, squeeze, Bool.false_and, if_neg Bool.false_ne_true, List.nil_append]
    exact List.prefix_append _ _

/-- **What minification does to what stands apart.**  Neighbours stay apart if white space
stands between them, and meet if comments alone do.  The result has no comment exactly if
minifying it again changes nothing.  It has none unless comments alone stand between a `/`
and a `*`. -/
theorem minify_separates (text : String) :
    (∀ n : Neighbours text.toList,
        (minify text true true).toList = n.upTo ++ spaceIf (isSpaced n.gap) ++ n.onwards ∧
          n.left <:+ n.upTo ∧ n.right <+: n.onwards) ∧
      ((∀ t ∈ tokens (minify text true true).toList, t.isComment = false) ↔
        minify (minify text true true) true true = minify text true true) ∧
      (¬FusesOpener (tokens text.toList) →
        ∀ t ∈ tokens (minify text true true).toList, t.isComment = false) := by
  have hminify : ∀ text : String, (minify text true true).toList = written none false text.toList :=
    fun text => by rw [minify, String.toList_ofList, written]
  have hsettles := written_settles none false text.toList
  refine ⟨fun n => ?_, ⟨fun hc => ?_, fun h => ?_⟩, fun hf => ?_⟩
  · rw [hminify]
    exact n.written_eq
  · rw [hminify] at hc
    rcases hsettles with ⟨⟨t, ht, htc⟩, -⟩ | ⟨-, hw⟩
    · rw [hc t ht] at htc
      cases htc
    · rw [← String.toList_inj, hminify, hminify, hw]
  · rw [← String.toList_inj, hminify] at h
    exact isComment_of_written_eq h
  · rw [hminify]
    rcases hsettles with ⟨-, hfuses⟩ | ⟨hc, -⟩
    · exact absurd hfuses hf
    · exact hc

/-- The neighbours of `0 /* top */ auto`. -/
def topAuto : Neighbours "0 /* top */ auto".toList where
  before := []
  left := ['0']
  gap := [.space [' '], .comment "/* top */".toList, .space [' ']]
  right := "auto".toList
  after := []
  tokens_eq := by decide +kernel
  gap_ne_nil := List.cons_ne_nil _ _
  isGap := by decide
  left_open := by decide
  right_open := by decide

/-- `0 /* top */ auto` becomes `0 auto`.  Nothing in it fuses to a comment, so there is none in the
result, and minifying it again changes nothing. -/
theorem separates_topAuto :
    (minify "0 /* top */ auto" true true).toList = "0 auto".toList ∧
      ¬FusesOpener (tokens "0 /* top */ auto".toList) ∧
      (∀ t ∈ tokens (minify "0 /* top */ auto" true true).toList, t.isComment = false) ∧
      minify (minify "0 /* top */ auto" true true) true true =
        minify "0 /* top */ auto" true true := by
  obtain ⟨hapart, hagain, hfuses⟩ := minify_separates "0 /* top */ auto"
  have hplain : ∀ t ∈ tokens "0 /* top */ auto".toList, t.startsWithStar = false := by
    decide +kernel
  have hnot : ¬FusesOpener (tokens "0 /* top */ auto".toList) := fun h => by
    obtain ⟨t, ht, hstar⟩ := h.exists_star
    rw [hplain t ht] at hstar
    cases hstar
  refine ⟨?_, hnot, hfuses hnot, hagain.1 (hfuses hnot)⟩
  rw [(hapart topAuto).1]
  decide +kernel

/-- The neighbours of `0/* top */auto`, which comments alone keep apart. -/
def topComment : Neighbours "0/* top */auto".toList where
  before := []
  left := ['0']
  gap := [.comment "/* top */".toList]
  right := "auto".toList
  after := []
  tokens_eq := by decide +kernel
  gap_ne_nil := List.cons_ne_nil _ _
  isGap := by decide
  left_open := by decide
  right_open := by decide

/-- **Comments alone keep nothing apart.**  `0/* top */auto` becomes `0auto`.  And
`//**/*x*/` becomes `/*x*/`, which is a comment and becomes the empty text. -/
theorem not_forall_separates :
    (¬∀ (text : String) (n : Neighbours text.toList), ∃ w, w ≠ [] ∧
        (∀ c ∈ w, Text.isWhite c = true) ∧
          (minify text true true).toList = n.upTo ++ w ++ n.onwards) ∧
      (¬∀ text : String, ∀ t ∈ tokens (minify text true true).toList, t.isComment = false) ∧
      ¬∀ text : String, minify (minify text true true) true true = minify text true true := by
  refine ⟨fun h => ?_, fun h => ?_, fun h => ?_⟩
  · obtain ⟨w, hne, -, hw⟩ := h _ topComment
    have hmeet : (minify "0/* top */auto" true true).toList =
        topComment.upTo ++ topComment.onwards := by
      decide +kernel
    rw [hmeet, List.append_assoc, List.append_cancel_left_eq, List.self_eq_append_left] at hw
    exact hne hw
  · have hcomment : .comment "/*x*/".toList ∈ tokens (minify "//**/*x*/" true true).toList := by
      decide +kernel
    have := h _ _ hcomment
    cases this
  · have hgone : minify (minify "//**/*x*/" true true) true true ≠
        minify "//**/*x*/" true true := by
      decide +kernel
    exact hgone (h _)

end Css
end StyleLowering
