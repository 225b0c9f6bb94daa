/-
# Base 64 read back

A strict reader: four characters at a time, padding in the last group only, and
no bit set that the padding cuts off.  What it reads as some bytes is what the
bytes are written as, and nothing else (`SourceMap.decode64?_eq_some_iff`), so
no two texts stand for the same bytes.
-/

import StyleLowering.SourceMap.Base64
import Mathlib.Tactic.SplitIfs

namespace StyleLowering
namespace SourceMap

/-- The value of a digit; other characters, such as the padding, have none. -/
def sextet? (c : Char) : Option Nat :=
  if 'A' ≤ c ∧ c ≤ 'Z' then some (c.toNat - 65)
  else if 'a' ≤ c ∧ c ≤ 'z' then some (c.toNat - 71)
  else if '0' ≤ c ∧ c ≤ '9' then some (c.toNat + 4)
  else if c = '+' then some 62
  else if c = '/' then some 63
  else none

/-- The bytes of a padded group that starts with the digits `a` and `b`. -/
def paddedBytes? (a b : Nat) (c : Char) : Option (List UInt8) :=
  if c = '=' then
    if b % 16 = 0 then some [UInt8.ofNat (4 * a + b / 16)] else none
  else do
    let c ← sextet? c
    if c % 4 = 0 then some [UInt8.ofNat (4 * a + b / 16), UInt8.ofNat (b % 16 * 16 + c / 4)]
    else none

/-- The bytes that a text stands for in base 64. -/
def decode64? : List Char → Option (List UInt8)
  | [] => some []
  | a :: b :: c :: d :: rest => do
    let a ← sextet? a
    let b ← sextet? b
    if d = '=' then
      if rest = [] then paddedBytes? a b c else none
    else do
      let c ← sextet? c
      let d ← sextet? d
      let bytes ← decode64? rest
      return UInt8.ofNat (4 * a + b / 16) :: UInt8.ofNat (b % 16 * 16 + c / 4) ::
        UInt8.ofNat (c % 4 * 64 + d) :: bytes
  | _ => none

/-- A digit is read back. -/
theorem sextet?_digit64 : ∀ {n : Nat}, n < 64 → sextet? (digit64 n) = some n := by
  have hall : ∀ n < 64, sextet? (digit64 n) = some n := by decide
  exact fun {n} h => hall n h

/-- Only digits are read, and each as one number. -/
theorem sextet?_eq_some_iff {c : Char} {n : Nat} :
    sextet? c = some n ↔ n < 64 ∧ c = digit64 n := by
  constructor
  · intro h
    have hle : ∀ a b : Char, a ≤ b ↔ a.toNat ≤ b.toNat := fun _ _ => Iff.rfl
    have hbounds : 'A'.toNat = 65 ∧ 'Z'.toNat = 90 ∧ 'a'.toNat = 97 ∧ 'z'.toNat = 122 ∧
        '0'.toNat = 48 ∧ '9'.toNat = 57 := by decide
    obtain ⟨hA, hZ, ha, hz, h0, h9⟩ := hbounds
    simp only [sextet?, hle, hA, hZ, ha, hz, h0, h9] at h
    split_ifs at h with hupper hlower hdecimal hplus hslash
    all_goals obtain rfl := Option.some.inj h
    · refine ⟨by omega, ?_⟩
      rw [digit64, if_pos (by omega), show 65 + (c.toNat - 65) = c.toNat from by omega,
        Char.ofNat_toNat]
    · refine ⟨by omega, ?_⟩
      rw [digit64, if_neg (by omega), if_pos (by omega),
        show 71 + (c.toNat - 71) = c.toNat from by omega, Char.ofNat_toNat]
    · refine ⟨by omega, ?_⟩
      rw [digit64, if_neg (by omega), if_neg (by omega), if_pos (by omega),
        Nat.add_sub_cancel, Char.ofNat_toNat]
    · exact ⟨by decide, hplus⟩
    · exact ⟨by decide, hslash⟩
  · rintro ⟨hn, rfl⟩
    exact sextet?_digit64 hn

/-- A character that is no digit is none of the digits. -/
theorem digit64_ne {n : Nat} (h : n < 64) {c : Char} (hc : sextet? c = none) : digit64 n ≠ c := by
  rintro rfl
  rw [sextet?_digit64 h] at hc
  cases hc

/-- Three bytes from the values of four digits. -/
theorem bytes_eq_of_sextets {a b c : UInt8} {n : Nat}
    (hn : n = (a.toNat * 256 + b.toNat) * 256 + c.toNat) :
    UInt8.ofNat (4 * (n / 262144) + n / 4096 % 64 / 16) = a ∧
      UInt8.ofNat (n / 4096 % 64 % 16 * 16 + n / 64 % 64 / 4) = b ∧
      UInt8.ofNat (n / 64 % 64 % 4 * 64 + n % 64) = c := by
  have ha := a.toNat_lt
  have hb := b.toNat_lt
  have hc := c.toNat_lt
  refine ⟨?_, ?_, ?_⟩
  · rw [show 4 * (n / 262144) + n / 4096 % 64 / 16 = a.toNat from by omega, UInt8.ofNat_toNat]
  · rw [show n / 4096 % 64 % 16 * 16 + n / 64 % 64 / 4 = b.toNat from by omega,
      UInt8.ofNat_toNat]
  · rw [show n / 64 % 64 % 4 * 64 + n % 64 = c.toNat from by omega, UInt8.ofNat_toNat]

/-- **Bytes are read back from their digits.** -/
theorem decode64?_base64 (bytes : List UInt8) : decode64? (base64 bytes) = some bytes := by
  fun_induction base64 bytes with
  | case1 a b c rest n ih =>
    have ha := a.toNat_lt
    have hb := b.toNat_lt
    have hc := c.toNat_lt
    obtain ⟨h₁, h₂, h₃⟩ := bytes_eq_of_sextets (a := a) (b := b) (c := c) (n := n) rfl
    rw [decode64?, sextet?_digit64 (by omega), sextet?_digit64 (by omega),
      sextet?_digit64 (by omega), sextet?_digit64 (by omega)]
    simp only [Option.bind_eq_bind, Option.bind_some, Option.pure_def]
    rw [if_neg (digit64_ne (by omega) (by decide)), ih, Option.bind_some, h₁, h₂, h₃]
  | case2 a b n =>
    have ha := a.toNat_lt
    have hb := b.toNat_lt
    rw [decode64?, sextet?_digit64 (by omega), sextet?_digit64 (by omega)]
    simp only [Option.bind_eq_bind, Option.bind_some, if_true, paddedBytes?]
    rw [if_neg (digit64_ne (by omega) (by decide)), sextet?_digit64 (by omega),
      Option.bind_some, if_pos (by omega),
      show 4 * (n / 4096) + n / 64 % 64 / 16 = a.toNat from by omega,
      show n / 64 % 64 % 16 * 16 + n % 64 / 4 = b.toNat from by omega,
      UInt8.ofNat_toNat, UInt8.ofNat_toNat]
  | case3 a n =>
    have ha := a.toNat_lt
    rw [decode64?, sextet?_digit64 (by omega), sextet?_digit64 (by omega)]
    simp only [Option.bind_eq_bind, Option.bind_some, if_true, paddedBytes?]
    rw [if_pos (by omega), show 4 * (n / 64) + n % 64 / 16 = a.toNat from by omega,
      UInt8.ofNat_toNat]
  | case4 => rfl

/-- Three bytes made of four digits are written as these. -/
theorem base64_of_sextets {a b c d : Nat} (ha : a < 64) (hb : b < 64) (hc : c < 64)
    (hd : d < 64) (rest : List UInt8) :
    base64 (UInt8.ofNat (4 * a + b / 16) :: UInt8.ofNat (b % 16 * 16 + c / 4) ::
        UInt8.ofNat (c % 4 * 64 + d) :: rest) =
      digit64 a :: digit64 b :: digit64 c :: digit64 d :: base64 rest := by
  have h₁ : (4 * a + b / 16) % 2 ^ 8 = 4 * a + b / 16 := by omega
  have h₂ : (b % 16 * 16 + c / 4) % 2 ^ 8 = b % 16 * 16 + c / 4 := by omega
  have h₃ : (c % 4 * 64 + d) % 2 ^ 8 = c % 4 * 64 + d := by omega
  have hn : ((4 * a + b / 16) * 256 + (b % 16 * 16 + c / 4)) * 256 + (c % 4 * 64 + d) =
      ((a * 64 + b) * 64 + c) * 64 + d := by omega
  simp only [base64, UInt8.toNat_ofNat', h₁, h₂, h₃, hn]
  rw [show (((a * 64 + b) * 64 + c) * 64 + d) / 262144 = a from by omega,
    show (((a * 64 + b) * 64 + c) * 64 + d) / 4096 % 64 = b from by omega,
    show (((a * 64 + b) * 64 + c) * 64 + d) / 64 % 64 = c from by omega,
    show (((a * 64 + b) * 64 + c) * 64 + d) % 64 = d from by omega]

/-- Bytes that are read before the padding are written as they were. -/
theorem base64_of_paddedBytes? {a b : Nat} (ha : a < 64) (hb : b < 64) {c : Char}
    {bytes : List UInt8} (h : paddedBytes? a b c = some bytes) :
    base64 bytes = [digit64 a, digit64 b, c, '='] := by
  have h₁ : (4 * a + b / 16) % 2 ^ 8 = 4 * a + b / 16 := by omega
  unfold paddedBytes? at h
  split_ifs at h with hpad hzero
  · obtain rfl := Option.some.inj h
    simp only [base64, UInt8.toNat_ofNat', h₁, hpad]
    rw [show (4 * a + b / 16) * 16 / 64 = a from by omega,
      show (4 * a + b / 16) * 16 % 64 = b from by omega]
  · obtain ⟨d, hdigit, hlast⟩ := Option.bind_eq_some_iff.1 h
    obtain ⟨hd, rfl⟩ := sextet?_eq_some_iff.1 hdigit
    split_ifs at hlast with hzero
    obtain rfl := Option.some.inj hlast
    have h₂ : (b % 16 * 16 + d / 4) % 2 ^ 8 = b % 16 * 16 + d / 4 := by omega
    have hn : ((4 * a + b / 16) * 256 + (b % 16 * 16 + d / 4)) * 4 = (a * 64 + b) * 64 + d := by
      omega
    simp only [base64, UInt8.toNat_ofNat', h₁, h₂, hn]
    rw [show ((a * 64 + b) * 64 + d) / 4096 = a from by omega,
      show ((a * 64 + b) * 64 + d) / 64 % 64 = b from by omega,
      show ((a * 64 + b) * 64 + d) % 64 = d from by omega]

/-- **Digits that are read are written as they were:** every byte sequence has one spelling. -/
theorem base64_of_decode64? {cs : List Char} {bytes : List UInt8}
    (h : decode64? cs = some bytes) : base64 bytes = cs := by
  fun_induction decode64? cs generalizing bytes with
  | case1 =>
    obtain rfl := Option.some.inj h
    rfl
  | case2 a b c d rest ih =>
    simp only [Option.bind_eq_bind, Option.bind_eq_some_iff, Option.pure_def] at h
    obtain ⟨x, hx, y, hy, h⟩ := h
    obtain ⟨hxlt, rfl⟩ := sextet?_eq_some_iff.1 hx
    obtain ⟨hylt, rfl⟩ := sextet?_eq_some_iff.1 hy
    split_ifs at h with hpad hend
    · subst hpad hend
      exact base64_of_paddedBytes? hxlt hylt h
    · simp only [Option.bind_eq_some_iff, Option.some.injEq] at h
      obtain ⟨z, hz, w, hw, tail, htail, rfl⟩ := h
      obtain ⟨hzlt, rfl⟩ := sextet?_eq_some_iff.1 hz
      obtain ⟨hwlt, rfl⟩ := sextet?_eq_some_iff.1 hw
      rw [base64_of_sextets hxlt hylt hzlt hwlt, ih htail]
  | case3 => cases h

/-- A text in base 64 consists of digits and padding. -/
theorem eq_digit64_of_mem_base64 {bytes : List UInt8} {c : Char} (h : c ∈ base64 bytes) :
    c = '=' ∨ ∃ n < 64, c = digit64 n := by
  fun_induction base64 bytes with
  | case1 a b c rest n ih =>
    have ha := a.toNat_lt
    have hb := b.toNat_lt
    have hc := c.toNat_lt
    simp only [List.mem_cons] at h
    obtain rfl | rfl | rfl | rfl | h := h
    · exact .inr ⟨_, by omega, rfl⟩
    · exact .inr ⟨_, by omega, rfl⟩
    · exact .inr ⟨_, by omega, rfl⟩
    · exact .inr ⟨_, by omega, rfl⟩
    · exact ih h
  | case2 a b n =>
    have ha := a.toNat_lt
    have hb := b.toNat_lt
    simp only [List.mem_cons, List.not_mem_nil, or_false] at h
    obtain rfl | rfl | rfl | rfl := h
    · exact .inr ⟨_, by omega, rfl⟩
    · exact .inr ⟨_, by omega, rfl⟩
    · exact .inr ⟨_, by omega, rfl⟩
    · exact .inl rfl
  | case3 a n =>
    have ha := a.toNat_lt
    simp only [List.mem_cons, List.not_mem_nil, or_false] at h
    obtain rfl | rfl | rfl | rfl := h
    · exact .inr ⟨_, by omega, rfl⟩
    · exact .inr ⟨_, by omega, rfl⟩
    · exact .inl rfl
    · exact .inl rfl
  | case4 => cases h

/-- **Base 64.**  A text stands for some bytes if and only if it is what they are written as. -/
theorem decode64?_eq_some_iff {cs : List Char} {bytes : List UInt8} :
    decode64? cs = some bytes ↔ base64 bytes = cs :=
  ⟨base64_of_decode64?, fun h => h ▸ decode64?_base64 bytes⟩

end SourceMap
end StyleLowering
