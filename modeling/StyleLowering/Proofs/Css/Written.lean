/-
# Reading what was written

A style text that was squeezed is a style text again, and it is cut anew.  Where
a string or a comment was closed it still is.  A comment that was never closed
stays open (`not_closes_squeeze`), since its end does not come about by squeezing.
A string that was never closed may become one, if a comment went from behind a
backslash; then the text behind it was written from a place of the old text
where a token starts or plain text goes on (`exists_of_closingRest`).
-/

import StyleLowering.Proofs.Css.Gaps
import Mathlib.Logic.Relation

namespace StyleLowering
namespace Css

/-- A comment. -/
def Token.isComment : Token → Bool
  | .comment _ => true
  | .plain _ | .quoted _ | .space _ => false

/-- What is written of the rest of a text, up to its outer end: `prev` was written
last, and `pending` says whether white space was met since. -/
def written (prev : Option Char) (pending : Bool) (cs : List Char) : List Char :=
  squeeze true true prev pending (tokens cs)

section

variable {prev : Option Char} {pending : Bool} {c : Char} {rest after : List Char}

/-- Of nothing, nothing is written. -/
theorem written_nil : written prev pending [] = [] := by
  rw [written, tokens, squeeze]
  rfl

/-- A comment is not written. -/
theorem written_of_comment {text : List Char}
    (h : token? (c :: rest) = some (.comment text, after)) :
    written prev pending (c :: rest) = written prev pending after := by
  rw [written, tokens_cons_of_some h, squeeze, written]

/-- White space waits for what follows it. -/
theorem written_of_space {text : List Char} (h : token? (c :: rest) = some (.space text, after)) :
    written prev pending (c :: rest) = written prev true after := by
  rw [written, tokens_cons_of_some h, squeeze, written]

/-- A string is written as it is, behind the white space that is kept. -/
theorem written_of_quoted {text : List Char} (h : token? (c :: rest) = some (.quoted text, after)) :
    written prev pending (c :: rest) =
      spaceIf (pending && keepsSpace true prev text.head?) ++ text ++
        written (text.getLast?.or prev) false after := by
  rw [written, tokens_cons_of_some h, squeeze, written, spaceIf]

/-- A character of plain text is written, behind the white space that is kept. -/
theorem written_of_none (h : token? (c :: rest) = none) :
    written prev pending (c :: rest) =
      spaceIf (pending && keepsSpace true prev (some c)) ++ c :: written (some c) false rest := by
  rw [written, tokens_cons_of_none h, squeeze_consPlain, squeeze, written, spaceIf]
  simp

end

/-! ### The end of a comment -/

/-- Two neighbours in a list that was put together are neighbours in a part or at the seam. -/
theorem pair_infix_append {a b : Char} {xs ys : List Char} (h : [a, b] <:+: xs ++ ys) :
    [a, b] <:+: xs ∨ [a, b] <:+: ys ∨ xs.getLast? = some a ∧ ys.head? = some b := by
  induction xs with
  | nil => exact .inr (.inl h)
  | cons x xs ih =>
    rw [List.cons_append, List.infix_cons_iff] at h
    rcases h with h | h
    · obtain ⟨rfl, hb⟩ := List.cons_prefix_cons.1 h
      cases xs with
      | nil =>
        obtain ⟨ys', hys⟩ := hb
        exact .inr (.inr ⟨rfl, by rw [← List.nil_append ys, ← hys]; rfl⟩)
      | cons y xs =>
        obtain ⟨rfl, -⟩ := List.cons_prefix_cons.1 hb
        exact .inl (List.prefix_append [a, b] xs).isInfix
    · rcases ih h with h | h | ⟨hl, hh⟩
      · exact .inl (List.infix_cons h)
      · exact .inr (.inl h)
      · refine .inr (.inr ⟨?_, hh⟩)
        rw [List.getLast?_cons, hl]
        rfl

/-- A comment that never ends has no `*/` in it. -/
theorem commentEnd_eq_none_iff {cs : List Char} :
    commentEnd cs = none ↔ ¬['*', '/'] <:+: cs := by
  constructor
  · intro h hi
    fun_induction commentEnd cs with
    | case1 => simp at hi
    | case2 => cases h
    | case3 c r hne ih =>
      rw [Option.map_eq_none_iff] at h
      rcases List.infix_cons_iff.1 hi with hp | hi
      · obtain ⟨rfl, r', rfl⟩ := List.cons_prefix_cons.1 hp
        exact hne _ rfl rfl
      · exact ih h hi
  · intro h
    cases hc : commentEnd cs with
    | none => rfl
    | some p =>
      obtain ⟨hs, rfl⟩ := commentEnd_eq_some_iff.1 hc
      exact absurd (hs.1.isInfix.trans (List.prefix_append _ _).isInfix) h

/-- A comment has its end in it. -/
theorem infix_of_comment_mem {cs text : List Char} (h : .comment text ∈ tokens cs) :
    ['*', '/'] <:+: cs := by
  rcases (leftmost_tokens cs).mem h with ⟨rest, s, rfl, hs⟩ | ⟨_, h, -⟩
  · have hin := List.infix_of_mem_flatten (List.mem_map_of_mem h (f := Token.text))
    rw [← List.flatMap_def, flatMap_text_tokens] at hin
    exact (hs.1.isInfix.trans (List.suffix_append ['/', '*'] s).isInfix).trans hin
  · cases h

section

variable {p d : Char} {ts : List Token}

/-- White space in front of a character that is no punctuation leaves a space. -/
theorem head?_spaceIf_append (hp : isPunctuation p = false) (hd : d ≠ ' ')
    (hd' : isPunctuation d = false) (text rest : List Char) :
    (spaceIf (keepsSpace true (some p) text.head?) ++ text ++ rest).head? ≠ some d := by
  cases hk : keepsSpace true (some p) text.head? with
  | true => simpa [spaceIf] using hd.symm
  | false =>
    obtain ⟨c, hc, hcp⟩ : ∃ c, text.head? = some c ∧ isPunctuation c = true := by
      simp only [keepsSpace, Option.any_some, hp] at hk
      cases htext : text.head? with
      | none => simp [htext] at hk
      | some c =>
        refine ⟨c, rfl, ?_⟩
        simp only [htext, Option.isNone_some, Bool.false_and, Bool.not_false, Bool.true_and,
          Option.any_some, Bool.not_eq_false', Bool.and_eq_true] at hk
        exact hk.1
    rw [spaceIf, if_neg Bool.false_ne_true, List.nil_append, List.head?_append, hc]
    rintro ⟨⟩
    rw [hd'] at hcp
    cases hcp

/-- Behind white space that waits after a character that is no punctuation, no such character is
written at once. -/
theorem head?_squeeze_pending (hp : isPunctuation p = false) (hd : d ≠ ' ')
    (hd' : isPunctuation d = false) : (squeeze true true (some p) true ts).head? ≠ some d := by
  induction ts with
  | nil => simp [squeeze]
  | cons t ts ih =>
    cases t with
    | comment => exact ih
    | space => exact ih
    | plain text => exact head?_spaceIf_append hp hd hd' text _
    | quoted text => exact head?_spaceIf_append hp hd hd' text _

/-- What is written right behind a character that is no punctuation stood right behind
it, up to comments. -/
theorem exists_of_head?_squeeze (hp : isPunctuation p = false) (hd : d ≠ ' ')
    (hd' : isPunctuation d = false) (hts : ∀ t ∈ ts, t.text ≠ [])
    (h : (squeeze true true (some p) false ts).head? = some d) :
    ∃ gap t us, ts = gap ++ t :: us ∧ (∀ g ∈ gap, g.isComment = true) ∧ t.isGap = false ∧
      t.text.head? = some d := by
  induction ts with
  | nil => simp [squeeze] at h
  | cons t ts ih =>
    rw [List.forall_mem_cons] at hts
    cases hgap : t.isGap with
    | false =>
      refine ⟨[], t, ts, rfl, List.forall_mem_nil _, hgap, ?_⟩
      rw [squeeze_segment hgap, Bool.false_and, spaceIf, if_neg Bool.false_ne_true,
        List.nil_append, List.head?_append, List.head?_eq_some_head hts.1, Option.some_or] at h
      rw [List.head?_eq_some_head hts.1, h]
    | true =>
      cases t with
      | comment text =>
        obtain ⟨gap, u, us, rfl, hc, hu, hh⟩ := ih hts.2 h
        exact ⟨.comment text :: gap, u, us, rfl, List.forall_mem_cons.2 ⟨rfl, hc⟩, hu, hh⟩
      | space text => exact absurd h (head?_squeeze_pending hp hd hd')
      | plain text => cases hgap
      | quoted text => cases hgap

end

/-- **No comment is closed by squeezing** a text without comments. -/
theorem not_closes_squeeze {prev : Option Char} {pending : Bool} {ts : List Token}
    (hts : ∀ t ∈ ts, t.text ≠ []) (hc : ∀ t ∈ ts, t.isComment = false)
    (h : ¬['*', '/'] <:+: ts.flatMap Token.text) :
    ¬['*', '/'] <:+: squeeze true true prev pending ts := by
  induction ts generalizing prev pending with
  | nil => simp [squeeze]
  | cons t ts ih =>
    rw [List.flatMap_cons] at h
    rw [List.forall_mem_cons] at hts hc
    have hrest : ∀ prev pending, ¬['*', '/'] <:+: squeeze true true prev pending ts :=
      fun prev pending => ih hts.2 hc.2 fun hi => h (hi.trans (List.suffix_append _ _).isInfix)
    cases hgap : t.isGap with
    | true =>
      cases t with
      | comment => cases hc.1
      | space => exact hrest prev true
      | plain => cases hgap
      | quoted => cases hgap
    | false =>
      rw [squeeze_segment hgap, List.append_assoc]
      have hspace : ∀ b, ¬['*', '/'] <:+: spaceIf b ∧ (spaceIf b).getLast? ≠ some '*' := by decide
      intro hi
      rcases pair_infix_append hi with hi | hi | ⟨hi, -⟩
      · exact (hspace _).1 hi
      · rcases pair_infix_append hi with hi | hi | ⟨hl, hh⟩
        · exact h (hi.trans (List.prefix_append _ _).isInfix)
        · exact hrest _ _ hi
        · -- The neighbours meet at the seam, so they stood side by side.
          rw [hl, Option.some_or] at hh
          obtain ⟨gap, u, us, rfl, hg, -, hu⟩ :=
            exists_of_head?_squeeze (by decide) (by decide) (by decide) hts.2 hh
          cases gap with
          | cons g gap =>
            have := hc.2 g List.mem_cons_self
            rw [hg g List.mem_cons_self] at this
            cases this
          | nil =>
            obtain ⟨a, ha⟩ := List.getLast?_eq_some_iff.1 hl
            obtain ⟨b, hb⟩ := List.head?_eq_some_iff.1 hu
            refine h ⟨a, b ++ us.flatMap Token.text, ?_⟩
            rw [ha, List.nil_append, List.flatMap_cons, hb]
            simp
      · exact (hspace _).2 hi

/-! ### The end of a string -/

/-- What stands behind the next closing quote; `escaped` says that a backslash takes the
first character along. -/
def closingRest (quote : Char) : (escaped : Bool) → List Char → Option (List Char)
  | _, [] => none
  | true, _ :: cs => closingRest quote false cs
  | false, c :: cs => if c = quote then some cs else closingRest quote (c == '\\') cs

/-- Whether a backslash at the end of a text takes the next character along. -/
def escapesNext (escaped : Bool) (cs : List Char) : Bool :=
  cs.foldl (fun escaped c => !escaped && c == '\\') escaped

/-- To look for a closing quotation mark is to look for the end of the string. -/
theorem closingRest_eq_quotedEnd {quote : Char} (hq : quote ≠ '\\') (cs : List Char) :
    closingRest quote false cs = (quotedEnd quote cs).map Prod.snd := by
  fun_induction quotedEnd quote cs with
  | case1 => rfl
  | case2 c r ih =>
    rw [closingRest, if_neg hq.symm, beq_self_eq_true, closingRest, ih, Option.map_map]
    rfl
  | case3 r => rw [closingRest, if_pos rfl]; rfl
  | case4 r hne hc =>
    cases r with
    | nil => rw [closingRest, if_neg hc, closingRest]; rfl
    | cons d r => exact absurd rfl (hne d r rfl)
  | case5 c r hne hc hb ih =>
    rw [closingRest, if_neg hc, beq_false_of_ne hb, ih, Option.map_map]
    rfl

/-- Behind a text without a closing quote one looks on. -/
theorem closingRest_append {quote : Char} {escaped : Bool} (cs ds : List Char) :
    closingRest quote escaped (cs ++ ds) =
      ((closingRest quote escaped cs).map (· ++ ds)).or
        (closingRest quote (escapesNext escaped cs) ds) := by
  fun_induction closingRest quote escaped cs with
  | case1 => rfl
  | case2 c cs ih => exact ih
  | case3 cs => rw [List.cons_append, closingRest, if_pos rfl]; rfl
  | case4 c cs hc ih =>
    rw [List.cons_append, closingRest, if_neg hc, ih, escapesNext, escapesNext, List.foldl_cons,
      Bool.not_false, Bool.true_and]

/-- A string that is not closed in a text is not closed in its beginning, nor in the rest of it. -/
theorem closingRest_append_eq_none {quote : Char} {escaped : Bool} {cs ds : List Char}
    (h : closingRest quote escaped (cs ++ ds) = none) :
    closingRest quote escaped cs = none ∧ closingRest quote (escapesNext escaped cs) ds = none := by
  rw [closingRest_append, Option.or_eq_none_iff, Option.map_eq_none_iff] at h
  exact h

/-- One step of cutting a text: past a token, or past a character of plain text. -/
def CutsTo (cs after : List Char) : Prop :=
  (∃ t, token? cs = some (t, after)) ∨ ∃ c, cs = c :: after ∧ token? cs = none

/-- Each step of cutting leaves less text. -/
theorem CutsTo.length_lt {cs after : List Char} (h : CutsTo cs after) :
    after.length < cs.length := by
  rcases h with ⟨t, h⟩ | ⟨c, rfl, -⟩
  · exact token?_length_lt h
  · exact Nat.lt_succ_self _

/-- Whoever passes the start of a string while looking for another quote passes the
string, and comes out of it in the same way however the start was passed. -/
theorem closingRest_quoted {quote quote' : Char} {s : List Char} {o : Bool} (hq : quote' ≠ '\\')
    (hs : QuotedRest quote' s) (ho : closingRest quote o (quote' :: s) = none) (n : Bool) :
    closingRest quote n (quote' :: s) = none ∧
      escapesNext n (quote' :: s) = escapesNext o (quote' :: s) := by
  have hb : (quote' == '\\') = false := beq_false_of_ne hq
  have hrest : closingRest quote false s = none := by
    cases o with
    | true => exact ho
    | false =>
      rw [closingRest, hb] at ho
      split at ho
      · cases ho
      · exact ho
  have hne : quote' ≠ quote := by
    rintro rfl
    rw [closingRest_eq_quotedEnd hq, (quotedEnd_eq_some_iff hq).2 ⟨hs, (List.append_nil s).symm⟩]
      at hrest
    cases hrest
  constructor
  · cases n with
    | true => exact hrest
    | false => rw [closingRest, if_neg hne, hb, hrest]
  · rw [escapesNext, escapesNext, List.foldl_cons, List.foldl_cons, hb, Bool.and_false,
      Bool.and_false]

/-- A space closes nothing and takes nothing along. -/
theorem closingRest_spaceIf {quote : Char} (hq : quote ≠ ' ') (b n : Bool) :
    closingRest quote n (spaceIf b) = none := by
  cases b with
  | false => rfl
  | true => cases n with
    | true => rfl
    | false => rw [spaceIf, if_pos rfl, closingRest, if_neg hq.symm]; rfl

/-- **A string that comes about by squeezing** ends in plain text.  What stands behind
it was written from a place that the cut of the old text comes to. -/
theorem exists_of_closingRest {quote : Char} (hq : quote ≠ ' ') {o n : Bool} {prev : Option Char}
    {pending : Bool} {cs r : List Char} (ho : closingRest quote o cs = none)
    (hn : closingRest quote n (written prev pending cs) = some r) :
    ∃ cs', Relation.TransGen CutsTo cs cs' ∧ r = written (some quote) false cs' := by
  -- The search in the old text ran with state `o` and never ended; the one in what was written has
  -- its own state, which is why both are generalised.
  fun_induction tokens cs generalizing o n prev pending with
  | case1 =>
    rw [written_nil, closingRest] at hn
    cases hn
  | case2 c rest t after h _ ih =>
    obtain ⟨hm, hcs⟩ := token?_eq_some_iff.1 h
    have hafter := (closingRest_append_eq_none (hcs ▸ ho)).2
    have hcut : ∀ cs', Relation.TransGen CutsTo after cs' →
        Relation.TransGen CutsTo (c :: rest) cs' :=
      fun cs' hcs' => .head (.inl ⟨t, h⟩) hcs'
    suffices hn' : ∃ n prev pending, closingRest quote n (written prev pending after) = some r by
      obtain ⟨n, prev, pending, hn'⟩ := hn'
      obtain ⟨cs', hcs', hr⟩ := ih hafter hn'
      exact ⟨cs', hcut cs' hcs', hr⟩
    cases t with
    | plain => exact hm.elim
    | comment text => exact ⟨n, prev, pending, written_of_comment h ▸ hn⟩
    | space text => exact ⟨n, prev, true, written_of_space h ▸ hn⟩
    | quoted text =>
      obtain ⟨quote', s, rfl, hq', hs⟩ := hm
      have hb : quote' ≠ '\\' := by rcases hq' with rfl | rfl <;> decide
      have hnone := (closingRest_append_eq_none (hcs ▸ ho)).1
      rw [written_of_quoted h, List.append_assoc, closingRest_append, closingRest_spaceIf hq,
        Option.map_none, Option.none_or, closingRest_append,
        (closingRest_quoted hb hs hnone _).1, Option.map_none, Option.none_or] at hn
      exact ⟨_, _, _, hn⟩
  | case3 c rest h ih =>
    have hcut : CutsTo (c :: rest) rest := .inr ⟨c, rfl, h⟩
    rw [written_of_none h, closingRest_append, closingRest_spaceIf hq, Option.map_none,
      Option.none_or] at hn
    rw [← List.singleton_append] at ho
    obtain ⟨o', ho'⟩ : ∃ o', closingRest quote o' rest = none :=
      ⟨_, (closingRest_append_eq_none ho).2⟩
    generalize escapesNext n _ = n' at hn
    -- Either this character closes the string, or the search goes on behind it.
    by_cases hc : n' = false ∧ c = quote
    · obtain ⟨rfl, rfl⟩ := hc
      rw [closingRest, if_pos rfl, Option.some_inj] at hn
      exact ⟨rest, .single hcut, hn.symm⟩
    · obtain ⟨n'', hn''⟩ : ∃ n'', closingRest quote n'' (written (some c) false rest) = some r := by
        cases n' with
        | true => exact ⟨false, hn⟩
        | false =>
          rw [closingRest, if_neg fun h => hc ⟨rfl, h⟩] at hn
          exact ⟨_, hn⟩
      obtain ⟨cs', hcs', hr⟩ := ih ho' hn''
      exact ⟨cs', .head hcut hcs', hr⟩

end Css
end StyleLowering
