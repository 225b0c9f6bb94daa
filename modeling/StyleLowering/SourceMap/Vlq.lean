/-
# Variable-length quantities

The numbers of a mapping.  A number is doubled, the bit gained being its sign,
and cut into groups of five bits, lowest first; every group but the last has
the sixth bit set.  Each group is a base-64 digit.  Lines and columns are never
negative.
-/

import StyleLowering.SourceMap.Base64

namespace StyleLowering
namespace SourceMap

/-- The groups of a number. -/
def vlqGroups (n : Nat) : List Nat :=
  if n < 32 then [n] else (32 + n % 32) :: vlqGroups (n / 32)

/-- A number as a variable-length quantity. -/
def vlq (n : Nat) : List Char :=
  (vlqGroups (2 * n)).map digit64

end SourceMap
end StyleLowering
