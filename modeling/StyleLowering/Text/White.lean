/-
# White space

The characters with the White_Space property: tab to carriage return, the
space, U+0085, the no-break space and the separators of general punctuation
and of the ideographic block.  Zero-width characters are not among them.
-/

namespace StyleLowering
namespace Text

/-- A character with the White_Space property. -/
def isWhite (c : Char) : Bool :=
  let n := c.toNat
  (0x9 ≤ n && n ≤ 0xD) || n == 0x20 || n == 0x85 || n == 0xA0 || n == 0x1680 ||
    (0x2000 ≤ n && n ≤ 0x200A) || n == 0x2028 || n == 0x2029 || n == 0x202F ||
    n == 0x205F || n == 0x3000

/-- A blank is white space. -/
theorem isWhite_space : isWhite ' ' = true := by decide

example : isWhite '\u200b' = false ∧ isWhite '\ufeff' = false ∧ isWhite '\u3000' = true := by
  decide

end Text
end StyleLowering
