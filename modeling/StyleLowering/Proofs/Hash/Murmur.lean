/-
# The hash and its published form

MurmurHash2 is published as a loop with a position and a count of the bytes that are left:
four bytes are read as a little-endian word as long as there are four, the one to three
others are mixed in by a switch whose cases fall through, and an avalanche ends it.
`Hash.Published.hash?` is that loop.  A read outside the data makes it fail, so an answer
says that no read is (`Hash.Published.hash?_eq`).

The product with the multiplier is taken from the two halves of a word in
`Hash.mulMix`; both ways agree (`Hash.mulMix_eq`).
-/

import StyleLowering.Proofs.Hash.Numeral
import StyleLowering.Hash.Murmur
import Mathlib.Data.Nat.Digits.Defs

namespace StyleLowering
namespace Hash

/-- The multiplier of the hash. -/
def multiplier : UInt32 := 0x5bd1e995

/-- The product of a word and the constant, without overflow. -/
theorem toNat_mulMix (v : UInt32) : (mulMix v).toNat = v.toNat * 0x5bd1e995 % 2 ^ 32 := by
  have hlow : (v &&& 0xffff).toNat = v.toNat % 2 ^ 16 := by
    rw [UInt32.toNat_and]
    exact Nat.and_two_pow_sub_one_eq_mod v.toNat 16
  have hhigh : ((v >>> 16) &&& 0xffff).toNat = v.toNat / 2 ^ 16 := by
    have hv := v.toNat_lt
    have hshift : (v >>> 16).toNat = v.toNat / 2 ^ 16 := by
      rw [UInt32.toNat_shiftRight]
      exact Nat.shiftRight_eq_div_pow v.toNat 16
    rw [UInt32.toNat_and, hshift, show (0xffff : UInt32).toNat = 2 ^ 16 - 1 from rfl,
      Nat.and_two_pow_sub_one_eq_mod]
    omega
  have hshift : ∀ w : UInt32, (w <<< 16).toNat = w.toNat * 2 ^ 16 % 2 ^ 32 := by
    intro w
    rw [UInt32.toNat_shiftLeft]
    exact congrArg (· % 2 ^ 32) (Nat.shiftLeft_eq w.toNat 16)
  rw [mulMix, UInt32.toNat_add, UInt32.toNat_mul, hlow, hshift, UInt32.toNat_mul, hhigh,
    show (0x5bd1e995 : UInt32).toNat = 0x5bd1e995 from rfl,
    show (0xe995 : UInt32).toNat = 0xe995 from rfl]
  -- the upper half of the multiplier times the upper half of the word is a multiple of `2 ^ 32`
  omega

/-- Multiplying half by half is multiplying. -/
theorem mulMix_eq (v : UInt32) : mulMix v = v * multiplier := by
  rw [← UInt32.toNat_inj, toNat_mulMix, UInt32.toNat_mul]
  rfl

/-- Bytes as a number, the first one lowest. -/
def littleEndian (bytes : List UInt8) : Nat :=
  Nat.ofDigits 256 (bytes.map UInt8.toNat)

/-- A number of which the lower bits are free takes a number in there by `or`. -/
theorem or_shiftLeft_eq_add {a b i : Nat} (h : a < 2 ^ i) : a ||| b <<< i = a + 2 ^ i * b := by
  rw [Nat.or_comm, ← Nat.shiftLeft_add_eq_or_of_lt h, Nat.shiftLeft_eq, Nat.add_comm,
    Nat.mul_comm]

/-- A byte that is moved up by three bytes at most is still all there. -/
theorem toNat_shiftLeft_toUInt32 (b : UInt8) {i : UInt32} (hi : i.toNat ≤ 24) :
    (b.toUInt32 <<< i).toNat = b.toNat <<< i.toNat := by
  have hfits : b.toNat * 2 ^ i.toNat < 2 ^ 32 :=
    calc b.toNat * 2 ^ i.toNat < 2 ^ 8 * 2 ^ i.toNat :=
          Nat.mul_lt_mul_of_pos_right b.toNat_lt (Nat.two_pow_pos _)
      _ ≤ 2 ^ 8 * 2 ^ 24 := Nat.mul_le_mul_left _ (Nat.pow_le_pow_right (by decide) hi)
  rw [UInt32.toNat_shiftLeft, UInt8.toNat_toUInt32, Nat.mod_eq_of_lt (by omega : i.toNat < 32),
    Nat.shiftLeft_eq, Nat.mod_eq_of_lt hfits]

/-- A block is a word in little-endian order. -/
theorem toNat_blockWord (b₀ b₁ b₂ b₃ : UInt8) :
    (blockWord b₀ b₁ b₂ b₃).toNat = littleEndian [b₀, b₁, b₂, b₃] := by
  have h₀ := b₀.toNat_lt
  have h₁ := b₁.toNat_lt
  have h₂ := b₂.toNat_lt
  have htwo : b₀.toNat ||| b₁.toNat <<< 8 = b₀.toNat + 2 ^ 8 * b₁.toNat := or_shiftLeft_eq_add h₀
  have hthree : b₀.toNat + 2 ^ 8 * b₁.toNat ||| b₂.toNat <<< 16 =
      b₀.toNat + 2 ^ 8 * b₁.toNat + 2 ^ 16 * b₂.toNat := or_shiftLeft_eq_add (by omega)
  rw [blockWord, UInt32.toNat_or, UInt32.toNat_or, UInt32.toNat_or, UInt8.toNat_toUInt32,
    toNat_shiftLeft_toUInt32 b₁ (by decide), toNat_shiftLeft_toUInt32 b₂ (by decide),
    toNat_shiftLeft_toUInt32 b₃ (by decide), show (8 : UInt32).toNat = 8 from rfl,
    show (16 : UInt32).toNat = 16 from rfl, show (24 : UInt32).toNat = 24 from rfl,
    htwo, hthree, or_shiftLeft_eq_add (by omega)]
  simp only [littleEndian, List.map_cons, List.map_nil, Nat.ofDigits_cons, Nat.ofDigits_nil]
  omega

namespace Published

/-- The word at position `i`, least significant byte first. -/
def word? (data : List UInt8) (i : Nat) : Option UInt32 := do
  let b₀ ← data[i]?
  let b₁ ← data[i + 1]?
  let b₂ ← data[i + 2]?
  let b₃ ← data[i + 3]?
  return UInt32.ofNat (littleEndian [b₀, b₁, b₂, b₃])

/-- The state after the word `k`. -/
def mix (h k : UInt32) : UInt32 :=
  let k := k * multiplier
  let k := k ^^^ (k >>> 24)
  let k := k * multiplier
  let h := h * multiplier
  h ^^^ k

/-- The state with the byte at position `i` mixed in, `shift` bits up. -/
def xorByte? (data : List UInt8) (i : Nat) (shift h : UInt32) : Option UInt32 :=
  data[i]?.map fun b => h ^^^ (b.toUInt32 <<< shift)

/-- The state after the `len` bytes left over at position `i`, from the last one to the
first: a switch that is entered at `len` and falls through to the cases below. -/
def tail? (data : List UInt8) (i len : Nat) (h : UInt32) : Option UInt32 := do
  let h ← if 3 ≤ len then xorByte? data (i + 2) 16 h else some h
  let h ← if 2 ≤ len then xorByte? data (i + 1) 8 h else some h
  if 1 ≤ len then (xorByte? data i 0 h).map (· * multiplier) else some h

/-- The loop at position `i`, with `len` bytes left. -/
def loop? (data : List UInt8) (h : UInt32) (i len : Nat) : Option UInt32 :=
  if 4 ≤ len then (word? data i).bind fun k => loop? data (mix h k) (i + 4) (len - 4)
  else tail? data i len h
termination_by len

/-- The hash of the data from the state `h`. -/
def hash? (data : List UInt8) (h : UInt32) : Option UInt32 :=
  (loop? data h 0 data.length).map fun (h : UInt32) =>
    let h := h ^^^ (h >>> 13)
    let h := h * multiplier
    h ^^^ (h >>> 15)

/-- Indices behind a part of the bytes count on from its end. -/
theorem getElem?_append_add (p bytes : List UInt8) (i : Nat) :
    (p ++ bytes)[p.length + i]? = bytes[i]? := by
  rw [List.getElem?_append_right (Nat.le_add_right _ _), Nat.add_sub_cancel_left]

/-- Four bytes behind a part are read as a block. -/
theorem word?_append (p : List UInt8) (b₀ b₁ b₂ b₃ : UInt8) (bytes : List UInt8) :
    word? (p ++ b₀ :: b₁ :: b₂ :: b₃ :: bytes) p.length = some (blockWord b₀ b₁ b₂ b₃) := by
  have hfirst := getElem?_append_add p (b₀ :: b₁ :: b₂ :: b₃ :: bytes) 0
  have hword : UInt32.ofNat (littleEndian [b₀, b₁, b₂, b₃]) = blockWord b₀ b₁ b₂ b₃ := by
    rw [← toNat_blockWord, UInt32.ofNat_toNat]
  rw [Nat.add_zero] at hfirst
  rw [word?, hfirst, getElem?_append_add, getElem?_append_add, getElem?_append_add, ← hword]
  rfl

/-- Mixing as published is mixing in steps. -/
theorem mix_eq (h k : UInt32) : mix h k = mixBlock h k := by
  simp only [mix, mixBlock, mulMix_eq]
  exact UInt32.xor_comm _ _

/-- The bytes that are left over are absorbed. -/
theorem loop?_append_of_length_lt (p bytes : List UInt8) (h : UInt32) (hlength : bytes.length < 4) :
    loop? (p ++ bytes) h p.length bytes.length = some (absorb h bytes) := by
  have hfirst := getElem?_append_add p bytes 0
  rw [Nat.add_zero] at hfirst
  rw [loop?, if_neg (by omega)]
  simp only [tail?, xorByte?, getElem?_append_add, hfirst]
  match bytes with
  | [] => rfl
  | [b₀] => simp [absorb, mulMix_eq]
  | [b₀, b₁] => simp [absorb, mulMix_eq]
  | [b₀, b₁, b₂] => simp [absorb, mulMix_eq]

/-- Where `bytes` are what is left, the loop absorbs them and reads nothing else. -/
theorem loop?_append (p bytes : List UInt8) (h : UInt32) :
    loop? (p ++ bytes) h p.length bytes.length = some (absorb h bytes) := by
  fun_induction absorb h bytes generalizing p with
  | case1 h b₀ b₁ b₂ b₃ rest ih =>
    have hrest := ih (p ++ [b₀, b₁, b₂, b₃])
    rw [List.append_assoc, List.length_append] at hrest
    rw [loop?, if_pos (by simp), word?_append, Option.bind_some, mix_eq]
    exact hrest
  | case2 h | case3 h | case4 h | case5 h =>
    rw [loop?_append_of_length_lt p _ h (by simp)]
    rfl

/-- The published loop answers, and answers what the hash is. -/
theorem hash?_eq (bytes : List UInt8) (h : UInt32) :
    hash? bytes h = some (avalanche (absorb h bytes)) := by
  have hloop := loop?_append [] bytes h
  rw [List.nil_append, List.length_nil] at hloop
  rw [hash?, hloop, avalanche, mulMix_eq]
  rfl

end Published

/-- The bytes that are hashed are the low ones of the units of a text. -/
theorem toNat_lowBytes (s : String) :
    (lowBytes s).map UInt8.toNat = (s.toList.flatMap Text.units16).map (· % 256) := by
  rw [lowBytes, List.map_map]
  refine List.map_congr_left fun u _ => ?_
  exact UInt8.toNat_ofNat'

/-- **What the hash of a text is.**  The published hash of the low bytes of the UTF-16 code
units, from the state zero: it answers, so every read is inside; products are taken modulo
`2 ^ 32`.  The text of the hash is its base-36 numeral, with no zero in front unless it is
zero, and has seven digits at most. -/
theorem hashString_published (s : String) :
    (lowBytes s).map UInt8.toNat = (s.toList.flatMap Text.units16).map (· % 256) ∧
      Published.hash? (lowBytes s) 0 = some (murmur2 (lowBytes s)) ∧
      (∀ v, (mulMix v).toNat = v.toNat * 0x5bd1e995 % 2 ^ 32) ∧
      readNumeral? (hashString s).toList = some (murmur2 (lowBytes s)).toNat ∧
      ((hashString s).toList.head? = some '0' → hashString s = "0") ∧
      (hashString s).length ≤ 7 := by
  have htoList : (hashString s).toList = numeral36 (murmur2 (lowBytes s)).toNat :=
    String.toList_ofList
  obtain ⟨hread, hzero⟩ := eq_numeral36_iff.1 htoList
  refine ⟨toNat_lowBytes s, Published.hash?_eq (lowBytes s) 0, toNat_mulMix, hread, fun h => ?_, ?_⟩
  · rw [← String.toList_inj, hzero h]
    rfl
  · have hlt : (murmur2 (lowBytes s)).toNat < 36 ^ 7 :=
      Nat.lt_of_lt_of_le (murmur2 (lowBytes s)).toNat_lt (by decide)
    rw [← String.length_toList, htoList]
    exact length_numeral36_le_iff.2 hlt

end Hash
end StyleLowering
