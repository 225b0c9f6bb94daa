/-
# Base 64

Three bytes are four digits of six bits, most significant first, over the
standard alphabet.  One or two bytes at the end are padded with zero bits, and
with `=` to four characters.
-/

namespace StyleLowering
namespace SourceMap

/-- The digit of value `n`, for `n < 64`. -/
def digit64 (n : Nat) : Char :=
  if n < 26 then Char.ofNat (65 + n)
  else if n < 52 then Char.ofNat (71 + n)
  else if n < 62 then Char.ofNat (n - 4)
  else if n = 62 then '+'
  else '/'

/-- Bytes in base 64. -/
def base64 : List UInt8 → List Char
  | a :: b :: c :: rest =>
    let n := (a.toNat * 256 + b.toNat) * 256 + c.toNat
    digit64 (n / 262144) :: digit64 (n / 4096 % 64) :: digit64 (n / 64 % 64) ::
      digit64 (n % 64) :: base64 rest
  | [a, b] =>
    let n := (a.toNat * 256 + b.toNat) * 4
    [digit64 (n / 4096), digit64 (n / 64 % 64), digit64 (n % 64), '=']
  | [a] =>
    let n := a.toNat * 16
    [digit64 (n / 64), digit64 (n % 64), '=', '=']
  | [] => []

example : base64 [77, 97, 110, 77, 97, 77] = "TWFuTWFN".toList ∧ base64 [77] = "TQ==".toList ∧
    base64 [77, 97] = "TWE=".toList := by decide

end SourceMap
end StyleLowering
