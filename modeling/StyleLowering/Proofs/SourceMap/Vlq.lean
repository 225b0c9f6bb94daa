/-
# Variable-length quantities read back

The numbers of a mapping are read one digit at a time, from the front: five bits
of a digit belong to the number, the sixth says whether it goes on, and the
lowest bit of the whole is its sign.  Numbers written one behind the other are
read as they were written, without anything between them
(`SourceMap.numbers?_vlq_append`).
-/

import StyleLowering.SourceMap.Vlq
import StyleLowering.Proofs.SourceMap.Base64

namespace StyleLowering
namespace SourceMap

/-- The number that bits stand for whose lowest one is the sign. -/
def signed (bits : Nat) : Int :=
  if bits % 2 = 0 then (bits / 2 : Nat) else -(bits / 2 : Nat)

/-- The numbers that digits stand for, behind digits that make `bits` so far; the
next one counts `weight` fold.  A text cannot end inside a number. -/
def readVlq? (bits weight : Nat) : List Char → Option (List Int)
  | [] => if weight = 1 then some [] else none
  | c :: cs => do
    let d ← sextet? c
    let bits := bits + d % 32 * weight
    if d < 32 then (readVlq? 0 1 cs).map (signed bits :: ·)
    else readVlq? bits (weight * 32) cs

/-- The numbers of a text. -/
def numbers? (cs : List Char) : Option (List Int) := readVlq? 0 1 cs

/-- An even code is a number that is not negative. -/
theorem signed_two_mul (n : Nat) : signed (2 * n) = n := by
  rw [signed, if_pos (by omega), show 2 * n / 2 = n from by omega]

/-- Zero is one digit. -/
theorem vlq_zero : vlq 0 = ['A'] := by
  rw [vlq, vlqGroups, if_pos (by decide)]
  rfl

/-- The groups of a number are digits. -/
theorem lt_of_mem_vlqGroups {n g : Nat} (h : g ∈ vlqGroups n) : g < 64 := by
  fun_induction vlqGroups n with
  | case1 n hn =>
    obtain rfl := List.mem_singleton.1 h
    omega
  | case2 n hn ih =>
    obtain rfl | h := List.mem_cons.1 h
    · omega
    · exact ih h

/-- A number is written in base 64 digits. -/
theorem eq_digit64_of_mem_vlq {n : Nat} {c : Char} (h : c ∈ vlq n) : ∃ g < 64, c = digit64 g := by
  obtain ⟨g, hg, rfl⟩ := List.mem_map.1 h
  exact ⟨g, lt_of_mem_vlqGroups hg, rfl⟩

/-- Groups are read as the number that they are of, at the weight that is reached. -/
theorem readVlq?_vlqGroups (n bits weight : Nat) (cs : List Char) :
    readVlq? bits weight ((vlqGroups n).map digit64 ++ cs) =
      (numbers? cs).map (signed (bits + n * weight) :: ·) := by
  fun_induction vlqGroups n generalizing bits weight with
  | case1 n hn =>
    rw [List.map_singleton, List.singleton_append, readVlq?, sextet?_digit64 (by omega),
      Option.bind_eq_bind, Option.bind_some, if_pos hn, Nat.mod_eq_of_lt hn, numbers?]
  | case2 n hn ih =>
    have hweight : n % 32 * weight + n / 32 * (weight * 32) = n * weight := by
      rw [Nat.mul_comm weight, ← Nat.mul_assoc, ← Nat.add_mul, Nat.mod_add_div']
    have hbits : bits + (32 + n % 32) % 32 * weight + n / 32 * (weight * 32) =
        bits + n * weight := by
      rw [Nat.add_mod_left, Nat.mod_mod, Nat.add_assoc, hweight]
    rw [List.map_cons, List.cons_append, readVlq?, sextet?_digit64 (by omega),
      Option.bind_eq_bind, Option.bind_some, if_neg (by omega), ih, hbits]

/-- **Numbers are read as they were written.** -/
theorem numbers?_vlq_append (n : Nat) (cs : List Char) :
    numbers? (vlq n ++ cs) = (numbers? cs).map ((n : Int) :: ·) := by
  rw [vlq, numbers?, readVlq?_vlqGroups, Nat.mul_one, Nat.zero_add, signed_two_mul]

end SourceMap
end StyleLowering
