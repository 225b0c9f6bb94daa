/-
# Tokens of a style text

A style text is cut, from the left and as early as possible, into quoted
strings, comments, runs of white space and the plain text between them.  A
quote or a comment that is never closed opens nothing and counts as plain text.

The texts of the tokens make up the text that was cut (`flatMap_text_tokens`).
-/

import StyleLowering.Text.White

namespace StyleLowering
namespace Css

/-- A token of a style text, with the characters it was cut from. -/
inductive Token where
  /-- Text without white space, outside quotes and comments. -/
  | plain (text : List Char)
  /-- A quoted string, with its quotes. -/
  | quoted (text : List Char)
  /-- A comment, with its delimiters. -/
  | comment (text : List Char)
  /-- A run of white space. -/
  | space (text : List Char)
  deriving DecidableEq, Repr

/-- The characters a token was cut from. -/
def Token.text : Token → List Char
  | .plain text | .quoted text | .comment text | .space text => text

/-- A string up to its closing quote and what follows it, read from behind the
opening quote.  A backslash takes the character behind it along. -/
def quotedEnd (quote : Char) : List Char → Option (List Char × List Char)
  | [] => none
  | '\\' :: c :: rest => (quotedEnd quote rest).map fun (s, rest) => ('\\' :: c :: s, rest)
  | c :: rest =>
    if c = quote then some ([c], rest)
    else if c = '\\' then none
    else (quotedEnd quote rest).map fun (s, rest) => (c :: s, rest)

/-- A comment up to its end and what follows it, read from behind its opening. -/
def commentEnd : List Char → Option (List Char × List Char)
  | [] => none
  | '*' :: '/' :: rest => some (['*', '/'], rest)
  | c :: rest => (commentEnd rest).map fun (s, rest) => (c :: s, rest)

/-- The string and what follows it are the text. -/
theorem append_of_quotedEnd {quote : Char} {cs s rest : List Char}
    (h : quotedEnd quote cs = some (s, rest)) : s ++ rest = cs := by
  fun_induction quotedEnd quote cs generalizing s rest with
  | case1 => simp at h
  | case2 c r ih =>
    obtain ⟨⟨s', r'⟩, hr, heq⟩ := Option.map_eq_some_iff.1 h
    obtain ⟨rfl, rfl⟩ := Prod.mk.inj heq
    rw [List.cons_append, List.cons_append, ih hr]
  | case3 =>
    obtain ⟨rfl, rfl⟩ := Prod.mk.inj (Option.some.inj h)
    rfl
  | case4 => simp at h
  | case5 c r _ _ _ ih =>
    obtain ⟨⟨s', r'⟩, hr, heq⟩ := Option.map_eq_some_iff.1 h
    obtain ⟨rfl, rfl⟩ := Prod.mk.inj heq
    rw [List.cons_append, ih hr]

/-- The comment and what follows it are the text. -/
theorem append_of_commentEnd {cs s rest : List Char} (h : commentEnd cs = some (s, rest)) :
    s ++ rest = cs := by
  fun_induction commentEnd cs generalizing s rest with
  | case1 => simp at h
  | case2 r =>
    obtain ⟨rfl, rfl⟩ := Prod.mk.inj (Option.some.inj h)
    rfl
  | case3 c r _ ih =>
    obtain ⟨⟨s', r'⟩, hr, heq⟩ := Option.map_eq_some_iff.1 h
    obtain ⟨rfl, rfl⟩ := Prod.mk.inj heq
    rw [List.cons_append, ih hr]

/-- The string, comment or white space at the start of a text, if there is one,
and what follows it. -/
def token? : List Char → Option (Token × List Char)
  | '/' :: '*' :: rest =>
    (commentEnd rest).map fun (s, rest) => (.comment ('/' :: '*' :: s), rest)
  | c :: rest =>
    if c = '"' ∨ c = '\'' then
      (quotedEnd c rest).map fun (s, rest) => (.quoted (c :: s), rest)
    else if Text.isWhite c then
      some (.space (c :: rest.takeWhile Text.isWhite), rest.dropWhile Text.isWhite)
    else none
  | [] => none

/-- A quote starts a token if the string is closed. -/
theorem token?_quote {c : Char} (hq : c = '"' ∨ c = '\'') (rest : List Char) :
    token? (c :: rest) = (quotedEnd c rest).map fun (s, rest) => (.quoted (c :: s), rest) := by
  have hc : c ≠ '/' := by rcases hq with rfl | rfl <;> decide
  rw [token?.eq_2 _ _ (fun _ h _ => hc h), if_pos hq]

/-- White space starts a token. -/
theorem token?_white {c : Char} (hw : Text.isWhite c = true) (rest : List Char) :
    token? (c :: rest) =
      some (.space (c :: rest.takeWhile Text.isWhite), rest.dropWhile Text.isWhite) := by
  have hne : ∀ d, Text.isWhite d = false → c ≠ d := by
    rintro d hd rfl
    rw [hw] at hd
    cases hd
  have hq : ¬(c = '"' ∨ c = '\'') := not_or.2 ⟨hne _ (by decide), hne _ (by decide)⟩
  rw [token?.eq_2 _ _ (fun _ h _ => hne _ (by decide) h), if_neg hq, if_pos hw]

/-- What a token at the start of a text is, and what it is cut off by. -/
theorem token?_cases {cs rest : List Char} {t : Token} (h : token? cs = some (t, rest)) :
    (∃ s r, cs = '/' :: '*' :: r ∧ commentEnd r = some (s, rest) ∧
        t = .comment ('/' :: '*' :: s)) ∨
      (∃ c s r, cs = c :: r ∧ (c = '"' ∨ c = '\'') ∧ quotedEnd c r = some (s, rest) ∧
        t = .quoted (c :: s)) ∨
      ∃ c r, cs = c :: r ∧ Text.isWhite c = true ∧ t = .space (c :: r.takeWhile Text.isWhite) ∧
        rest = r.dropWhile Text.isWhite := by
  unfold token? at h
  split at h
  · obtain ⟨⟨s, r⟩, hr, heq⟩ := Option.map_eq_some_iff.1 h
    obtain ⟨rfl, rfl⟩ := Prod.mk.inj heq
    exact .inl ⟨s, _, rfl, hr, rfl⟩
  · next c r _ =>
    split at h
    · next hq =>
      obtain ⟨⟨s, r'⟩, hr, heq⟩ := Option.map_eq_some_iff.1 h
      obtain ⟨rfl, rfl⟩ := Prod.mk.inj heq
      exact .inr (.inl ⟨c, s, r, rfl, hq, hr, rfl⟩)
    · obtain ⟨hw, h⟩ := Option.ite_none_right_eq_some.1 h
      cases h
      exact .inr (.inr ⟨c, r, rfl, hw, rfl, rfl⟩)
  · cases h

/-- A token at the start of a text and what follows it make up the text. -/
theorem append_of_token? {cs rest : List Char} {t : Token} (h : token? cs = some (t, rest)) :
    t.text ++ rest = cs := by
  rcases token?_cases h with ⟨s, r, rfl, hr, rfl⟩ | ⟨c, s, r, rfl, -, hr, rfl⟩ |
    ⟨c, r, rfl, -, rfl, rfl⟩
  · rw [Token.text, List.cons_append, List.cons_append, append_of_commentEnd hr]
  · rw [Token.text, List.cons_append, append_of_quotedEnd hr]
  · rw [Token.text, List.cons_append, List.takeWhile_append_dropWhile]

/-- A token at the start of a text has at least one character. -/
theorem text_ne_nil_of_token? {cs rest : List Char} {t : Token}
    (h : token? cs = some (t, rest)) : t.text ≠ [] := by
  rcases token?_cases h with ⟨s, r, -, -, rfl⟩ | ⟨c, s, r, -, -, -, rfl⟩ | ⟨c, r, -, -, rfl, -⟩ <;>
    exact List.cons_ne_nil _ _

/-- Every token uses up characters. -/
theorem token?_length_lt {cs rest : List Char} {t : Token} (h : token? cs = some (t, rest)) :
    rest.length < cs.length := by
  have := List.length_pos_iff.2 (text_ne_nil_of_token? h)
  rw [← append_of_token? h, List.length_append]
  omega

/-- A plain character in front of the tokens that follow it. -/
def consPlain (c : Char) : List Token → List Token
  | .plain text :: ts => .plain (c :: text) :: ts
  | ts => .plain [c] :: ts

/-- A character of plain text in front is in front of the whole text. -/
theorem flatMap_text_consPlain (c : Char) (ts : List Token) :
    (consPlain c ts).flatMap Token.text = c :: ts.flatMap Token.text := by
  unfold consPlain
  split <;> rfl

/-- The tokens of a text. -/
def tokens (cs : List Char) : List Token :=
  match cs with
  | [] => []
  | c :: rest =>
    match h : token? (c :: rest) with
    | some (t, after) =>
      have := token?_length_lt h
      t :: tokens after
    | none => consPlain c (tokens rest)
termination_by cs.length
decreasing_by all_goals simp only [List.length_cons] at *; omega

/-- **Cutting loses nothing:** the texts of the tokens make up the text. -/
theorem flatMap_text_tokens (cs : List Char) : (tokens cs).flatMap Token.text = cs := by
  fun_induction tokens cs with
  | case1 => rfl
  | case2 c rest t after h _ ih => rw [List.flatMap_cons, ih, append_of_token? h]
  | case3 c rest h ih => rw [flatMap_text_consPlain, ih]

end Css
end StyleLowering
