/-
# JSON tokens read back

A quoted text is one token, and the token holds the text (`Json.tokens_quote`),
whatever stands behind it.  An escaped character is one item of the string: the
character itself, or, where JSON has no letter for it, its number, which is
below every surrogate.  Digits are one token as far as the number goes
(`Json.tokens_number`).
-/

import StyleLowering.Json.Quote
import StyleLowering.Json.Token

namespace StyleLowering
namespace Json

/-- The item of a string that an escaped character is read as. -/
inductive StringUnit.StandsFor : StringUnit → Char → Prop
  | char (c : Char) : StandsFor (.char c) c
  | unit {c : Char} (h : c.toNat < 0x20) : StandsFor (.unit c.toNat) c

/-- The number of a control character is read back from its digits. -/
theorem hex4?_lowerHex : ∀ {n : Nat}, n < 0x20 →
    hex4? '0' '0' (lowerHex (n / 16)) (lowerHex (n % 16)) = some n := by
  have hall : ∀ n < 0x20, hex4? '0' '0' (lowerHex (n / 16)) (lowerHex (n % 16)) = some n := by
    decide
  exact fun {n} h => hall n h

/-- An escaped character is read as what it stands for. -/
theorem stringUnits_simpleEscape {e c : Char} (h : simpleEscape? e = some c) (cs : List Char) :
    stringUnits ('\\' :: e :: cs) = (stringUnits cs).map fun p => (.char c :: p.1, p.2) := by
  have he : e ≠ 'u' := by
    rintro rfl
    cases h
  rw [stringUnits, h]
  · cases stringUnits cs <;> rfl
  · exact fun _ _ _ _ _ hu => (he hu).elim

/-- A control character is read as a unit of its number. -/
theorem stringUnits_hex4 {n : Nat} (h : n < 0x20) (cs : List Char) :
    stringUnits ('\\' :: 'u' :: '0' :: '0' :: lowerHex (n / 16) :: lowerHex (n % 16) :: cs) =
      (stringUnits cs).map fun p => (.unit n :: p.1, p.2) := by
  rw [stringUnits, hex4?_lowerHex h]
  cases stringUnits cs <;> rfl

/-- A character that needs no escape is read as itself. -/
theorem stringUnits_plain {c : Char} (hquote : c ≠ '"') (hback : c ≠ '\\')
    (hcontrol : ¬c.toNat < 0x20) (cs : List Char) :
    stringUnits (c :: cs) = (stringUnits cs).map fun p => (.char c :: p.1, p.2) := by
  rw [stringUnits]
  · simp [hback, hcontrol]
  · exact hquote
  · exact fun _ _ _ _ _ h => (hback h).elim
  · exact fun _ _ h => (hback h).elim

/-- **A character is read back from how it is written.** -/
theorem stringUnits_escape (c : Char) (cs : List Char) :
    ∃ u : StringUnit, u.StandsFor c ∧
      stringUnits (escape c ++ cs) = (stringUnits cs).map fun p => (u :: p.1, p.2) := by
  unfold escape
  split
  case h_8 hquote hback _ _ _ _ _ =>
    split
    · next h => exact ⟨.unit c.toNat, .unit h, stringUnits_hex4 h cs⟩
    · next h => exact ⟨.char c, .char c, stringUnits_plain hquote hback h cs⟩
  all_goals exact ⟨.char _, .char _, stringUnits_simpleEscape rfl cs⟩

/-- A unit that is no surrogate is a character of its own. -/
theorem charsOfUnits_unit {n : Nat} (h : n < 0xD800) (us : List StringUnit) :
    charsOfUnits (.unit n :: us) = (charsOfUnits us).map (Char.ofNat n :: ·) := by
  cases us with
  | nil => exact if_neg (by omega)
  | cons u us =>
    cases u with
    | char c => exact if_neg (by omega)
    | unit lo => rw [charsOfUnits, if_neg (by omega), if_neg (by omega)]

/-- A unit that stands for a character becomes that character. -/
theorem charsOfUnits_cons {u : StringUnit} {c : Char} (h : u.StandsFor c)
    (us : List StringUnit) : charsOfUnits (u :: us) = (charsOfUnits us).map (c :: ·) := by
  cases h with
  | char => rfl
  | unit hlt => rw [charsOfUnits_unit (by omega), Char.ofNat_toNat]

/-- A text is read back from how it is written, up to the quotation mark. -/
theorem stringUnits_flatMap_escape (cs rest : List Char) :
    ∃ us, stringUnits (cs.flatMap escape ++ '"' :: rest) = some (us, rest) ∧
      charsOfUnits us = some cs := by
  induction cs with
  | nil => exact ⟨[], rfl, rfl⟩
  | cons c cs ih =>
    obtain ⟨us, hus, hcs⟩ := ih
    obtain ⟨u, hu, hunits⟩ := stringUnits_escape c (cs.flatMap escape ++ '"' :: rest)
    refine ⟨u :: us, ?_, ?_⟩
    · rw [List.flatMap_cons, List.append_assoc, hunits, hus]
      rfl
    · rw [charsOfUnits_cons hu, hcs]
      rfl

/-- A text without anything to escape is written as it stands. -/
theorem quote_eq_of_forall {cs : List Char} (h : ∀ c ∈ cs, escape c = [c]) :
    quote cs = '"' :: (cs ++ ['"']) := by
  have hself : cs.flatMap escape = cs := by
    induction cs with
    | nil => rfl
    | cons c cs ih =>
      rw [List.flatMap_cons, h c List.mem_cons_self, List.singleton_append,
        ih fun d hd => h d (List.mem_cons_of_mem c hd)]
  rw [quote, hself, List.cons_append]

/-- **A quoted text is read as that text.** -/
theorem tokens_quote (cs rest : List Char) :
    tokens (quote cs ++ rest) = (tokens rest).map (.string (some cs) :: ·) := by
  obtain ⟨us, hus, hcs⟩ := stringUnits_flatMap_escape cs rest
  rw [quote, List.cons_append, List.cons_append, List.append_assoc, List.singleton_append, tokens]
  split
  · next us' after h =>
    obtain ⟨rfl, rfl⟩ := Prod.mk.inj (Option.some.inj (h.symm.trans hus))
    rw [hcs]
  · next h =>
    rw [hus] at h
    cases h

/-- A number is read as one token. -/
theorem tokens_number {c : Char} {cs rest : List Char} (hc : c.isDigit = true)
    (h : afterNumber? (c :: (cs ++ rest)) = some rest) :
    tokens (c :: (cs ++ rest)) = (tokens rest).map (.number (c :: cs) :: ·) := by
  have hne : ∀ d : Char, d.isDigit = false → c = d → False := by
    rintro d hd rfl
    exact Bool.false_ne_true (hd.symm.trans hc)
  have hblank : isBlank c = false := by
    simp only [isBlank, Bool.or_eq_false_iff, beq_eq_false_iff_ne]
    exact ⟨⟨⟨hne _ rfl, hne _ rfl⟩, hne _ rfl⟩, hne _ rfl⟩
  rw [tokens]
  · rw [if_neg (by rw [hblank]; exact Bool.false_ne_true)]
    split
    · next after hafter =>
      obtain rfl := Option.some.inj (hafter.symm.trans h)
      have hlength : (c :: (cs ++ after)).length - after.length = (c :: cs).length := by
        simp only [List.length_cons, List.length_append]
        omega
      dsimp only
      rw [hlength, ← List.cons_append, List.take_left]
    · next hnone =>
      rw [h] at hnone
      cases hnone
  case x_6 | x_7 | x_8 => exact fun _ hc _ => hne _ rfl hc
  all_goals exact hne _ rfl

end Json
end StyleLowering
