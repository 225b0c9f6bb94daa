/-
# Numerals in base 36

A number is written with the ten digits and the twenty-six lower-case letters,
most significant first and without leading zeros; zero is `0`.
-/

namespace StyleLowering
namespace Hash

/-- The digit of value `d`, for `d < 36`. -/
def digit36 (d : Nat) : Char :=
  if d < 10 then Char.ofNat (48 + d) else Char.ofNat (87 + d)

/-- The base-36 numeral of a number. -/
def numeral36 (n : Nat) : List Char :=
  if n < 36 then [digit36 n] else numeral36 (n / 36) ++ [digit36 (n % 36)]

/-- A number below 36 is one digit. -/
theorem numeral36_of_lt {n : Nat} (h : n < 36) : numeral36 n = [digit36 n] := by
  rw [numeral36, if_pos h]

/-- Any other number ends with the digit of what is left over. -/
theorem numeral36_of_le {n : Nat} (h : 36 ≤ n) :
    numeral36 n = numeral36 (n / 36) ++ [digit36 (n % 36)] := by
  rw [numeral36, if_neg (by omega)]

/-- Every number has a digit. -/
theorem numeral36_ne_nil (n : Nat) : numeral36 n ≠ [] := by
  rw [numeral36]
  split <;> simp

end Hash
end StyleLowering
