/-
# Cutting a style text in two

A style text that an interpolation cuts is squeezed in two parts.  The parts make
up the whole if something stands for the interpolation that is neither white
space nor punctuation nor a mark, and if no string and no comment reaches over
it: then the text has the same tokens before it and behind it
(`tokens_cut`, `squeeze_around`).  A string or a comment that the interpolation
cuts is one token of the whole and no token of either part.
-/

import StyleLowering.Css.Call
import Mathlib.Data.List.Basic

namespace StyleLowering
namespace Css

/-- A quoted string or a comment. -/
def Token.isDelimited : Token → Bool
  | .quoted _ | .comment _ => true
  | .plain _ | .space _ => false

/-- The token that covers a place of the text that was cut into tokens. -/
def tokenAt? : List Token → Nat → Option Token
  | [], _ => none
  | t :: ts, i => if i < t.text.length then some t else tokenAt? ts (i - t.text.length)

/-- Whether a quoted string or a comment covers a place of the text. -/
def isDelimitedAt (ts : List Token) (i : Nat) : Bool := (tokenAt? ts i).any Token.isDelimited

/-- A character that stands in plain text wherever no quotes are around it. -/
structure IsInert (c : Char) : Prop where
  notWhite : Text.isWhite c = false
  notPunctuation : isPunctuation c = false
  notMark : c ∉ ['"', '\'', '/', '*']

variable {x : Char}

/-- The code points of white space. -/
theorem toNat_of_isWhite {c : Char} (h : Text.isWhite c = true) :
    c.toNat ∈ List.range' 0x9 5 ++ [0x20, 0x85, 0xA0, 0x1680] ++ List.range' 0x2000 11 ++
      [0x2028, 0x2029, 0x202F, 0x205F, 0x3000] := by
  simp only [Text.isWhite, Bool.or_eq_true, Bool.and_eq_true, decide_eq_true_eq, beq_iff_eq] at h
  simp only [List.mem_append, List.mem_range'_1, List.mem_cons, List.not_mem_nil, or_false]
  omega

/-- Letters and numbers are inert. -/
theorem isInert_of_isAlphanumeric (h : Text.isAlphanumeric x = true) : IsInert x := by
  have hne : ∀ c : Char, Text.isAlphanumeric c = false → x ≠ c := by
    rintro c hc rfl
    rw [hc] at h
    cases h
  refine ⟨?_, ?_, ?_⟩
  · by_contra hw
    rw [Bool.not_eq_false] at hw
    have hall : ∀ n ∈ List.range' 0x9 5 ++ [0x20, 0x85, 0xA0, 0x1680] ++ List.range' 0x2000 11 ++
        [0x2028, 0x2029, 0x202F, 0x205F, 0x3000], Text.isAlphanumeric (Char.ofNat n) = false := by
      decide +kernel
    have := hall _ (toNat_of_isWhite hw)
    rw [Char.ofNat_toNat, h] at this
    cases this
  · simp only [isPunctuation, Bool.or_eq_false_iff, beq_eq_false_iff_ne]
    exact ⟨⟨⟨⟨hne _ (by decide), hne _ (by decide)⟩, hne _ (by decide)⟩, hne _ (by decide)⟩,
      hne _ (by decide)⟩
  · simp only [List.mem_cons, List.not_mem_nil, or_false, not_or]
    exact ⟨hne _ (by decide), hne _ (by decide), hne _ (by decide), hne _ (by decide)⟩

/-! ### Tokens of a text that goes on -/

/-- The rest of a quoted string is not empty. -/
theorem ne_nil_of_quotedEnd {quote : Char} {cs s rest : List Char}
    (h : quotedEnd quote cs = some (s, rest)) : s ≠ [] := by
  unfold quotedEnd at h
  split at h
  · cases h
  · obtain ⟨p, -, heq⟩ := Option.map_eq_some_iff.1 h
    obtain ⟨rfl, -⟩ := Prod.mk.inj heq
    exact List.cons_ne_nil _ _
  · split at h
    · cases h
      exact List.cons_ne_nil _ _
    · rw [Option.ite_none_left_eq_some] at h
      obtain ⟨p, -, heq⟩ := Option.map_eq_some_iff.1 h.2
      obtain ⟨rfl, -⟩ := Prod.mk.inj heq
      exact List.cons_ne_nil _ _

/-- A string ends where it did, whatever follows. -/
theorem quotedEnd_append {quote : Char} (hq : quote ≠ '\\') {cs s rest : List Char}
    (h : quotedEnd quote cs = some (s, rest)) (ds : List Char) :
    quotedEnd quote (cs ++ ds) = some (s, rest ++ ds) := by
  fun_induction quotedEnd quote cs generalizing s rest with
  | case1 => cases h
  | case2 c r ih =>
    obtain ⟨⟨s', r'⟩, hr, heq⟩ := Option.map_eq_some_iff.1 h
    obtain ⟨rfl, rfl⟩ := Prod.mk.inj heq
    rw [List.cons_append, List.cons_append, quotedEnd, ih hr]
    rfl
  | case3 r hne =>
    obtain ⟨rfl, rfl⟩ := Prod.mk.inj (Option.some.inj h)
    rw [List.cons_append, quotedEnd.eq_3 _ _ _ (fun _ _ h _ => hq h), if_pos rfl]
  | case4 => cases h
  | case5 c r hne hc hb ih =>
    obtain ⟨⟨s', r'⟩, hr, heq⟩ := Option.map_eq_some_iff.1 h
    obtain ⟨rfl, rfl⟩ := Prod.mk.inj heq
    rw [List.cons_append, quotedEnd.eq_3 _ _ _ (fun _ _ h _ => hb h), if_neg hc, if_neg hb, ih hr]
    rfl

/-- A string that is closed only when the text goes on reaches into what is added. -/
theorem length_lt_of_quotedEnd {quote : Char} {cs ds s rest : List Char}
    (hn : quotedEnd quote cs = none) (h : quotedEnd quote (cs ++ ds) = some (s, rest)) :
    cs.length < s.length := by
  fun_induction quotedEnd quote cs generalizing s rest with
  | case1 => exact List.length_pos_iff.2 (ne_nil_of_quotedEnd h)
  | case2 c r ih =>
    rw [Option.map_eq_none_iff] at hn
    rw [List.cons_append, List.cons_append, quotedEnd] at h
    obtain ⟨⟨s', r'⟩, hr, heq⟩ := Option.map_eq_some_iff.1 h
    obtain ⟨rfl, rfl⟩ := Prod.mk.inj heq
    have hlt := ih hn hr
    simp only [List.length_cons]
    omega
  | case3 => cases hn
  -- A backslash at the end of the first text escapes what comes behind it.
  | case4 r hne hc =>
    cases r with
    | cons d r => exact absurd rfl (hne d r rfl)
    | nil =>
      cases ds with
      | nil => simp [quotedEnd, hc] at h
      | cons d ds =>
        rw [List.cons_append, List.nil_append, quotedEnd] at h
        obtain ⟨p, -, heq⟩ := Option.map_eq_some_iff.1 h
        obtain ⟨rfl, -⟩ := Prod.mk.inj heq
        simp
  | case5 c r hne hc hb ih =>
    rw [Option.map_eq_none_iff] at hn
    rw [List.cons_append, quotedEnd.eq_3 _ _ _ (fun _ _ h _ => hb h), if_neg hc, if_neg hb] at h
    obtain ⟨⟨s', r'⟩, hr, heq⟩ := Option.map_eq_some_iff.1 h
    obtain ⟨rfl, rfl⟩ := Prod.mk.inj heq
    have hlt := ih hn hr
    simp only [List.length_cons]
    omega

/-- The rest of a comment is not empty. -/
theorem ne_nil_of_commentEnd {cs s rest : List Char} (h : commentEnd cs = some (s, rest)) :
    s ≠ [] := by
  unfold commentEnd at h
  split at h
  · cases h
  · cases h
    exact List.cons_ne_nil _ _
  · obtain ⟨p, -, heq⟩ := Option.map_eq_some_iff.1 h
    obtain ⟨rfl, -⟩ := Prod.mk.inj heq
    exact List.cons_ne_nil _ _

/-- A comment ends where it did, whatever follows. -/
theorem commentEnd_append {cs s rest : List Char} (h : commentEnd cs = some (s, rest))
    (ds : List Char) : commentEnd (cs ++ ds) = some (s, rest ++ ds) := by
  fun_induction commentEnd cs generalizing s rest with
  | case1 => cases h
  | case2 r =>
    obtain ⟨rfl, rfl⟩ := Prod.mk.inj (Option.some.inj h)
    rfl
  | case3 c r hne ih =>
    obtain ⟨⟨s', r'⟩, hr, heq⟩ := Option.map_eq_some_iff.1 h
    obtain ⟨rfl, rfl⟩ := Prod.mk.inj heq
    have hne' : ∀ r', c = '*' → r ++ ds = '/' :: r' → False := by
      intro r'' hc hr'
      cases r with
      | nil => cases hr
      | cons d r =>
        obtain ⟨rfl, -⟩ := List.cons.inj hr'
        exact hne r hc rfl
    rw [List.cons_append, commentEnd.eq_3 _ _ hne', ih hr]
    rfl

/-- A comment that is closed only when the text goes on reaches into what is added. -/
theorem length_lt_of_commentEnd {cs ds s rest : List Char} (hn : commentEnd cs = none)
    (h : commentEnd (cs ++ ds) = some (s, rest)) : cs.length < s.length := by
  fun_induction commentEnd cs generalizing s rest with
  | case1 => exact List.length_pos_iff.2 (ne_nil_of_commentEnd h)
  | case2 => cases hn
  | case3 c r hne ih =>
    rw [Option.map_eq_none_iff] at hn
    rw [List.cons_append] at h
    unfold commentEnd at h
    split at h
    · cases h
    · next r' heq =>
      -- Only a star at the very end can be closed by what is added.
      obtain ⟨rfl, hr⟩ := List.cons.inj heq
      cases r with
      | nil =>
        cases h
        simp
      | cons d r =>
        obtain ⟨rfl, -⟩ := List.cons.inj hr
        exact absurd rfl (hne r rfl)
    · next heq =>
      obtain ⟨rfl, rfl⟩ := List.cons.inj heq
      obtain ⟨⟨s', r'⟩, hr, heq⟩ := Option.map_eq_some_iff.1 h
      obtain ⟨rfl, rfl⟩ := Prod.mk.inj heq
      have hlt := ih hn hr
      simp only [List.length_cons]
      omega

/-- White space in front of an inert character ends where it ended before. -/
theorem takeWhile_append_inert (hx : IsInert x) (cs ds : List Char) :
    (cs ++ x :: ds).takeWhile Text.isWhite = cs.takeWhile Text.isWhite ∧
      (cs ++ x :: ds).dropWhile Text.isWhite = cs.dropWhile Text.isWhite ++ x :: ds := by
  induction cs with
  | nil => simp [hx.notWhite]
  | cons c cs ih =>
    by_cases hc : Text.isWhite c = true <;> simp [hc, ih]

/-- A token at the start of a text is still one when an inert character and more follow. -/
theorem token?_append (hx : IsInert x) {cs after : List Char} {t : Token}
    (h : token? cs = some (t, after)) (ds : List Char) :
    token? (cs ++ x :: ds) = some (t, after ++ x :: ds) := by
  rcases token?_cases h with ⟨s, r, rfl, hr, rfl⟩ | ⟨c, s, r, rfl, hq, hr, rfl⟩ |
    ⟨c, r, rfl, hw, rfl, rfl⟩
  · rw [List.cons_append, List.cons_append, token?, commentEnd_append hr]
    rfl
  · have hb : c ≠ '\\' := by rcases hq with rfl | rfl <;> decide
    rw [List.cons_append, token?_quote hq, quotedEnd_append hb hr]
    rfl
  · obtain ⟨ht, hd⟩ := takeWhile_append_inert hx r ds
    rw [List.cons_append, token?_white hw, ht, hd]

/-- Where no token starts, none starts when the text goes on, unless it is a string or a
comment that reaches into what is added. -/
theorem token?_append_of_none (hx : IsInert x) {c : Char} {cs ds : List Char}
    (hn : token? (c :: cs) = none) {t : Token} {after : List Char}
    (h : token? (c :: cs ++ x :: ds) = some (t, after)) :
    t.isDelimited = true ∧ (c :: cs).length < t.text.length := by
  rcases token?_cases h with ⟨s, r, hcs, hr, rfl⟩ | ⟨c', s, r, hcs, hq, hr, rfl⟩ |
    ⟨c', r, hcs, hw, -, -⟩
  · obtain ⟨rfl, hbehind⟩ := List.cons.inj hcs
    cases cs with
    | nil =>
      obtain ⟨rfl, -⟩ := List.cons.inj hbehind
      exact absurd (by simp) hx.notMark
    | cons d cs =>
      obtain ⟨rfl, rfl⟩ := List.cons.inj hbehind
      rw [token?, Option.map_eq_none_iff] at hn
      have hlt := length_lt_of_commentEnd hn hr
      refine ⟨rfl, ?_⟩
      simp only [Token.text, List.length_cons]
      omega
  · obtain ⟨rfl, rfl⟩ := List.cons.inj hcs
    rw [token?_quote hq, Option.map_eq_none_iff] at hn
    have hlt := length_lt_of_quotedEnd hn hr
    refine ⟨rfl, ?_⟩
    simp only [Token.text, List.length_cons]
    omega
  · obtain ⟨rfl, -⟩ := List.cons.inj hcs
    rw [token?_white hw] at hn
    cases hn

/-! ### Tokens around an inert character -/

/-- A token that starts a text is its first one. -/
theorem tokens_cons_of_some {c : Char} {cs after : List Char} {t : Token}
    (h : token? (c :: cs) = some (t, after)) : tokens (c :: cs) = t :: tokens after := by
  rw [tokens]
  split
  · next h' =>
    rw [h] at h'
    cases h'
    rfl
  · next h' =>
    rw [h] at h'
    cases h'

/-- A character that starts no token is plain text. -/
theorem tokens_cons_of_none {c : Char} {cs : List Char} (h : token? (c :: cs) = none) :
    tokens (c :: cs) = consPlain c (tokens cs) := by
  rw [tokens]
  split
  · next h' =>
    rw [h] at h'
    cases h'
  · rfl

/-- An inert character starts no token. -/
theorem token?_inert (hx : IsInert x) (ds : List Char) : token? (x :: ds) = none := by
  have hne : ∀ r, x = '/' → ds = '*' :: r → False := fun _ h _ => hx.notMark (by simp [h])
  have hq : ¬(x = '"' ∨ x = '\'') := by
    rintro (h | h) <;> exact hx.notMark (by simp [h])
  rw [token?.eq_2 _ _ hne, if_neg hq, hx.notWhite, if_neg Bool.false_ne_true]

/-- A place is covered if it is within a delimited first token, or covered behind it. -/
theorem isDelimitedAt_cons (t : Token) (ts : List Token) (i : Nat) :
    isDelimitedAt (t :: ts) i =
      if i < t.text.length then t.isDelimited else isDelimitedAt ts (i - t.text.length) := by
  rw [isDelimitedAt, tokenAt?]
  split <;> rfl

/-- Behind the first token, the others decide. -/
theorem isDelimitedAt_cons_add (t : Token) (ts : List Token) (i : Nat) :
    isDelimitedAt (t :: ts) (t.text.length + i) = isDelimitedAt ts i := by
  rw [isDelimitedAt_cons, if_neg (by omega), Nat.add_sub_cancel_left]

/-- One more plain character moves the tokens behind it by one place. -/
theorem isDelimitedAt_consPlain (c : Char) (ts : List Token) (i : Nat) :
    isDelimitedAt (consPlain c ts) (i + 1) = isDelimitedAt ts i := by
  unfold consPlain
  split
  · next text ts =>
    rw [isDelimitedAt_cons, isDelimitedAt_cons]
    by_cases hi : i < text.length
    · have hi' : i + 1 < (c :: text).length := Nat.succ_lt_succ hi
      exact (if_pos hi').trans (if_pos hi).symm
    · have hi' : ¬i + 1 < (c :: text).length := fun h => hi (Nat.lt_of_succ_lt_succ h)
      refine (if_neg hi').trans (Eq.trans ?_ (if_neg hi).symm)
      rw [Token.text, Token.text, List.length_cons, Nat.add_sub_add_right]
  · rw [Nat.add_comm]
    exact isDelimitedAt_cons_add (.plain [c]) ts i

variable {first last first' : Bool} {prev prev' : Option Char} {pending : Bool}

/-- A plain character may be squeezed as a token of its own. -/
theorem squeeze_consPlain_append (c : Char) (ts us : List Token) :
    squeeze first last prev pending (consPlain c ts ++ us) =
      squeeze first last prev pending (.plain [c] :: (ts ++ us)) := by
  unfold consPlain
  split
  · next text ts =>
    have hlast : (c :: text).getLast?.or prev = text.getLast?.or ([c].getLast?.or prev) := by
      cases text <;> simp [List.getLast?_cons]
    rw [List.cons_append, List.cons_append, squeeze, squeeze, squeeze, hlast]
    simp
  · rfl

/-- A character of plain text is written alike alone and with the text behind it. -/
theorem squeeze_consPlain (c : Char) (ts : List Token) :
    squeeze first last prev pending (consPlain c ts) =
      squeeze first last prev pending (.plain [c] :: ts) := by
  have h : squeeze first last prev pending (consPlain c ts ++ []) =
      squeeze first last prev pending (.plain [c] :: (ts ++ [])) := squeeze_consPlain_append c ts []
  rwa [List.append_nil, List.append_nil] at h

/-- What has been written before matters only as far as it decides about a space. -/
theorem squeeze_congr (ts : List Token) (pending : Bool)
    (h : ∀ next, keepsSpace first prev next = keepsSpace first' prev' next) :
    squeeze first last prev pending ts = squeeze first' last prev' pending ts := by
  induction ts generalizing prev prev' pending with
  | nil => rw [squeeze, squeeze, h]
  | cons t ts ih =>
    have hpiece : ∀ text : List Char, squeeze first last (text.getLast?.or prev) false ts =
        squeeze first' last (text.getLast?.or prev') false ts := by
      intro text
      refine ih false fun next => ?_
      cases text.getLast? with
      | none => exact h next
      | some c => simp [keepsSpace]
    cases t with
    | comment => exact ih pending h
    | space => exact ih true h
    | plain text => rw [squeeze, squeeze, h, hpiece]
    | quoted text => rw [squeeze, squeeze, h, hpiece]

/-- **A text is squeezed in two parts around an inert character.** -/
theorem squeeze_around (hx : IsInert x) (ts us : List Token) :
    squeeze first last prev pending (ts ++ .plain [x] :: us) =
      squeeze first false prev pending ts ++ x :: squeeze false last none false us := by
  induction ts generalizing prev pending with
  | nil =>
    have hnone : keepsSpace first prev (some x) = keepsSpace first prev none := by
      simp [keepsSpace, hx.notPunctuation]
    have hafter : squeeze first last (some x) false us = squeeze false last none false us :=
      squeeze_congr us false fun next => by simp [keepsSpace, hx.notPunctuation]
    simp only [List.nil_append, squeeze, List.head?_cons, hnone, List.getLast?_singleton,
      Option.some_or, hafter]
    simp
  | cons t ts ih =>
    cases t with
    | comment => simp only [List.cons_append, squeeze, ih]
    | space => simp only [List.cons_append, squeeze, ih]
    | plain text => simp only [List.cons_append, squeeze, ih, List.append_assoc]
    | quoted text => simp only [List.cons_append, squeeze, ih, List.append_assoc]

/-- **Cutting a text at an inert character in plain text.**  If neither a string nor a
comment reaches over the character, the text may be cut into tokens before and behind it,
and the tokens behind it stay where they are. -/
theorem tokens_cut (hx : IsInert x) (cs ds : List Char)
    (h : isDelimitedAt (tokens (cs ++ x :: ds)) cs.length = false) :
    (∀ first last prev pending, squeeze first last prev pending (tokens (cs ++ x :: ds)) =
      squeeze first last prev pending (tokens cs ++ .plain [x] :: tokens ds)) ∧
    ∀ i, isDelimitedAt (tokens (cs ++ x :: ds)) (cs.length + (i + 1)) =
      isDelimitedAt (tokens ds) i := by
  fun_induction tokens cs with
  | case1 =>
    rw [List.nil_append, tokens_cons_of_none (token?_inert hx ds)]
    refine ⟨fun first last prev pending => ?_, fun i => ?_⟩
    · rw [squeeze_consPlain, List.nil_append]
    · rw [List.length_nil, Nat.zero_add, isDelimitedAt_consPlain]
  | case2 c rest t after ht _ ih =>
    have hlen : (c :: rest).length = t.text.length + after.length := by
      rw [← append_of_token? ht, List.length_append]
    have htokens : tokens (c :: rest ++ x :: ds) = t :: tokens (after ++ x :: ds) :=
      tokens_cons_of_some (token?_append hx ht ds)
    rw [htokens, hlen, isDelimitedAt_cons_add] at h
    obtain ⟨hs, hi⟩ := ih h
    rw [htokens]
    refine ⟨fun first last prev pending => ?_, fun i => ?_⟩
    · cases t <;> simp only [List.cons_append, squeeze, hs]
    · rw [hlen, Nat.add_assoc, isDelimitedAt_cons_add, hi]
  | case3 c rest hn ih =>
    cases hlong : token? (c :: rest ++ x :: ds) with
    | some p =>
      obtain ⟨t, after⟩ := p
      obtain ⟨ht, hlt⟩ := token?_append_of_none hx hn hlong
      have htokens : tokens (c :: rest ++ x :: ds) = t :: tokens after := tokens_cons_of_some hlong
      rw [htokens, isDelimitedAt_cons, if_pos hlt, ht] at h
      cases h
    | none =>
      have htokens : tokens (c :: rest ++ x :: ds) = consPlain c (tokens (rest ++ x :: ds)) :=
        tokens_cons_of_none hlong
      rw [htokens, List.length_cons, isDelimitedAt_consPlain] at h
      obtain ⟨hs, hi⟩ := ih h
      rw [htokens]
      refine ⟨fun first last prev pending => ?_, fun i => ?_⟩
      · rw [squeeze_consPlain, squeeze_consPlain_append, squeeze, squeeze, hs]
      · rw [List.length_cons, Nat.add_right_comm, isDelimitedAt_consPlain, hi]

end Css
end StyleLowering
