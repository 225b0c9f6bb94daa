/-
# Base-36 numerals read back

A numeral is read from the left: every digit multiplies what is there by 36 and adds its
value.  A number has many numerals, by zeros in front, and exactly one without them
(`Hash.eq_numeral36_iff`); its length says how large the number is
(`Hash.length_numeral36_le_iff`).
-/

import StyleLowering.Hash.Numeral
import Mathlib.Algebra.Group.Nat.Defs

namespace StyleLowering
namespace Hash

/-- The value of a decimal digit or a lower-case letter; other characters have none. -/
def digitValue? (c : Char) : Option Nat :=
  if '0' ≤ c ∧ c ≤ '9' then some (c.toNat - 48)
  else if 'a' ≤ c ∧ c ≤ 'z' then some (c.toNat - 87)
  else none

/-- The number that digits make behind the digits of `n`. -/
def readDigits? (n : Nat) : List Char → Option Nat
  | [] => some n
  | c :: cs => (digitValue? c).bind fun d => readDigits? (36 * n + d) cs

/-- The number that a text stands for in base 36; there has to be one digit at least. -/
def readNumeral? (cs : List Char) : Option Nat :=
  if cs = [] then none else readDigits? 0 cs

/-- A digit is one of 36, and has one value. -/
theorem digitValue?_eq_some_iff {c : Char} {d : Nat} :
    digitValue? c = some d ↔ d < 36 ∧ c = digit36 d := by
  constructor
  · intro h
    have hle : ∀ a b : Char, a ≤ b ↔ a.toNat ≤ b.toNat := fun _ _ => Iff.rfl
    simp only [digitValue?, hle] at h
    have hbounds : '0'.toNat = 48 ∧ '9'.toNat = 57 ∧ 'a'.toNat = 97 ∧ 'z'.toNat = 122 := by decide
    rw [hbounds.1, hbounds.2.1, hbounds.2.2.1, hbounds.2.2.2] at h
    split at h
    · next hdigit =>
      obtain rfl := Option.some.inj h
      refine ⟨by omega, ?_⟩
      rw [digit36, if_pos (by omega), show 48 + (c.toNat - 48) = c.toNat from by omega,
        Char.ofNat_toNat]
    · split at h
      · next hletter =>
        obtain rfl := Option.some.inj h
        refine ⟨by omega, ?_⟩
        rw [digit36, if_neg (by omega), show 87 + (c.toNat - 87) = c.toNat from by omega,
          Char.ofNat_toNat]
      · simp at h
  · rintro ⟨hd, rfl⟩
    exact (by decide : ∀ d < 36, digitValue? (digit36 d) = some d) d hd

/-- Digits are read from left to right. -/
theorem readDigits?_append (n : Nat) (cs ds : List Char) :
    readDigits? n (cs ++ ds) = (readDigits? n cs).bind (readDigits? · ds) := by
  induction cs generalizing n with
  | nil => rfl
  | cons c cs ih =>
    rw [List.cons_append, readDigits?, readDigits?, Option.bind_assoc]
    congr 1
    funext d
    exact ih _

/-- Each digit counts for what it is, and what was read before for 36 times as much. -/
theorem readDigits?_digit36 (n : Nat) {d : Nat} (hd : d < 36) :
    readDigits? n [digit36 d] = some (36 * n + d) := by
  rw [readDigits?, digitValue?_eq_some_iff.2 ⟨hd, rfl⟩]
  rfl

/-- A numeral with one digit more stands for 36 times the number and the digit. -/
theorem numeral36_append {n d : Nat} (hn : 0 < n) (hd : d < 36) :
    numeral36 n ++ [digit36 d] = numeral36 (36 * n + d) := by
  rw [numeral36_of_le (n := 36 * n + d) (by omega), show (36 * n + d) / 36 = n from by omega,
    show (36 * n + d) % 36 = d from by omega]

/-- **A number is read back from its digits.** -/
theorem readDigits?_numeral36 (n : Nat) : readDigits? 0 (numeral36 n) = some n := by
  induction n using Nat.base_induction 36 (by decide) with
  | single m hm => rw [numeral36_of_lt hm, readDigits?_digit36 0 hm, Nat.mul_zero, Nat.zero_add]
  | digit m d hd hm ih =>
    rw [← numeral36_append hm hd, readDigits?_append, ih]
    exact readDigits?_digit36 m hd

/-- Digits read behind a number that is not zero go on its numeral. -/
theorem numeral36_append_of_readDigits? {n m : Nat} {cs : List Char} (hn : 0 < n)
    (h : readDigits? n cs = some m) : numeral36 n ++ cs = numeral36 m := by
  induction cs generalizing n with
  | nil => rw [List.append_nil, Option.some.inj h]
  | cons c cs ih =>
    obtain ⟨d, hd, hrest⟩ := Option.bind_eq_some_iff.1 h
    obtain ⟨hlt, rfl⟩ := digitValue?_eq_some_iff.1 hd
    rw [← ih (by omega) hrest, ← numeral36_append hn hlt, List.append_assoc,
      List.singleton_append]

/-- Only the numeral of zero begins with a zero. -/
theorem eq_zero_of_head?_numeral36 {n : Nat} (h : (numeral36 n).head? = some '0') : n = 0 := by
  induction n using Nat.base_induction 36 (by decide) with
  | single m hm =>
    rw [numeral36_of_lt hm] at h
    have hzero : ∀ m < 36, digit36 m = '0' → m = 0 := by decide
    exact hzero m hm (Option.some.inj h)
  | digit m d hd hm ih =>
    rw [← numeral36_append hm hd, List.head?_append] at h
    cases hm' : (numeral36 m).head? with
    | none => exact absurd (List.head?_eq_none_iff.1 hm') (numeral36_ne_nil m)
    | some c =>
      rw [hm', Option.some_or] at h
      have := ih (hm'.trans h)
      omega

/-- **The numeral of a number.**  Of the texts that stand for a number, its numeral is the
one that has no zero in front of other digits. -/
theorem eq_numeral36_iff {cs : List Char} {n : Nat} :
    cs = numeral36 n ↔ readNumeral? cs = some n ∧ (cs.head? = some '0' → cs = ['0']) := by
  constructor
  · rintro rfl
    refine ⟨?_, fun h => ?_⟩
    · rw [readNumeral?, if_neg (numeral36_ne_nil n), readDigits?_numeral36]
    · rw [eq_zero_of_head?_numeral36 h, numeral36_of_lt (by decide)]
      rfl
  · rintro ⟨hread, hzero⟩
    cases cs with
    | nil => simp [readNumeral?] at hread
    | cons c cs =>
      rw [readNumeral?, if_neg (List.cons_ne_nil c cs)] at hread
      obtain ⟨d, hd, hrest⟩ := Option.bind_eq_some_iff.1 hread
      obtain ⟨hlt, rfl⟩ := digitValue?_eq_some_iff.1 hd
      rw [Nat.mul_zero, Nat.zero_add] at hrest
      rcases Nat.eq_zero_or_pos d with rfl | hpos
      · -- the text is `0` itself
        have hcs := (List.cons.inj (hzero rfl)).2
        rw [hcs, readDigits?, Option.some.injEq] at hrest
        rw [hcs, ← hrest, numeral36_of_lt hlt]
      · rw [← numeral36_append_of_readDigits? hpos hrest, numeral36_of_lt hlt,
          List.singleton_append]

/-- A number has as many digits as it needs. -/
theorem length_numeral36_le_iff {n k : Nat} :
    (numeral36 n).length ≤ k + 1 ↔ n < 36 ^ (k + 1) := by
  induction k generalizing n with
  | zero =>
    by_cases hn : n < 36
    · rw [numeral36_of_lt hn, List.length_singleton]
      omega
    · have := List.length_pos_iff.2 (numeral36_ne_nil (n / 36))
      rw [numeral36_of_le (by omega), List.length_append, List.length_singleton]
      omega
  | succ k ih =>
    rw [Nat.pow_succ]
    by_cases hn : n < 36
    · have := Nat.one_le_pow (k + 1) 36 (by decide)
      rw [numeral36_of_lt hn, List.length_singleton]
      omega
    · rw [numeral36_of_le (by omega), List.length_append, List.length_singleton,
        Nat.add_le_add_iff_right, ih]
      omega

/-- Different numbers have different digits. -/
theorem numeral36_injective {n m : Nat} (h : numeral36 n = numeral36 m) : n = m := by
  have := readDigits?_numeral36 n
  rw [h, readDigits?_numeral36] at this
  exact (Option.some.inj this).symm

end Hash
end StyleLowering
