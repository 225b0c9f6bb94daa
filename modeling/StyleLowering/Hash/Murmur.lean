/-
# The file hash

A 32-bit multiplicative hash over bytes (MurmurHash2, shift 24), started from
the state `0` instead of from a seed and a length.  Bytes are absorbed in
little-endian blocks of four; one to three left-over bytes are folded in last,
and a final avalanche spreads them over the word.

A text is hashed by the low bytes of its UTF-16 code units, and its hash is
written in base 36.
-/

import StyleLowering.Hash.Numeral
import StyleLowering.Text.Utf16

namespace StyleLowering
namespace Hash

/-- The product of a word with `0x5bd1e995`, modulo `2 ^ 32`, computed from the
two halves of the word. -/
def mulMix (v : UInt32) : UInt32 :=
  let low : UInt32 := (v &&& 0xffff) * 0x5bd1e995
  let high : UInt32 := ((v >>> 16) &&& 0xffff) * 0xe995
  low + (high <<< 16)

/-- Four bytes as a word, the first one lowest. -/
def blockWord (b₀ b₁ b₂ b₃ : UInt8) : UInt32 :=
  b₀.toUInt32 ||| (b₁.toUInt32 <<< 8) ||| (b₂.toUInt32 <<< 16) ||| (b₃.toUInt32 <<< 24)

/-- The state after a block. -/
def mixBlock (h k : UInt32) : UInt32 :=
  let k := mulMix k
  let k := k ^^^ (k >>> 24)
  mulMix k ^^^ mulMix h

/-- The state after all the bytes, left-over ones included. -/
def absorb (h : UInt32) : List UInt8 → UInt32
  | b₀ :: b₁ :: b₂ :: b₃ :: rest => absorb (mixBlock h (blockWord b₀ b₁ b₂ b₃)) rest
  | [b₀, b₁, b₂] =>
    mulMix (h ^^^ (b₂.toUInt32 <<< 16) ^^^ (b₁.toUInt32 <<< 8) ^^^ b₀.toUInt32)
  | [b₀, b₁] => mulMix (h ^^^ (b₁.toUInt32 <<< 8) ^^^ b₀.toUInt32)
  | [b₀] => mulMix (h ^^^ b₀.toUInt32)
  | [] => h

/-- The avalanche that ends the hash. -/
def avalanche (h : UInt32) : UInt32 :=
  let h := h ^^^ (h >>> 13)
  let h := mulMix h
  h ^^^ (h >>> 15)

/-- The hash of a list of bytes. -/
def murmur2 (bytes : List UInt8) : UInt32 :=
  avalanche (absorb 0 bytes)

/-- The low byte of each UTF-16 code unit of a text. -/
def lowBytes (s : String) : List UInt8 :=
  (s.toList.flatMap Text.units16).map UInt8.ofNat

/-- The hash of a text, as a numeral. -/
def hashString (s : String) : String :=
  String.ofList (numeral36 (murmur2 (lowBytes s)).toNat)

end Hash
end StyleLowering
