/-
# UTF-16 code units

A character of the basic plane is one 16-bit unit, every other character a
pair of surrogates.  Columns of source positions and the file hash count in
these units.
-/

namespace StyleLowering
namespace Text

/-- The UTF-16 code units of a character, each below `0x10000`. -/
def units16 (c : Char) : List Nat :=
  let n := c.toNat
  if n < 0x10000 then [n]
  else [0xD800 + (n - 0x10000) / 0x400, 0xDC00 + (n - 0x10000) % 0x400]

/-- How many UTF-16 code units the characters take. -/
def length16 (cs : List Char) : Nat :=
  (cs.flatMap units16).length

example : length16 ['é', '日', '😀'] = 4 := by decide

end Text
end StyleLowering
