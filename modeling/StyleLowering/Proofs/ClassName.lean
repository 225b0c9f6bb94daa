/-
# What a class name tells

The hash of a file and the number of a component stand in a class name with nothing
between them, and both are numerals of no fixed length.  So the name says what they
are to anyone who knows how long the hash is (`Styled.readClassName_className`), and
to nobody else: a hash may end with decimal digits that belong to the number in the
name of another file (`Styled.className_eq_iff`).
-/

import StyleLowering.Styled
import Mathlib.Tactic.Ring
import Std.Data.String.ToNat

namespace StyleLowering

/-- Decimal numerals one behind the other are the numeral of one number, if there is no
zero in front. -/
theorem toDigits_append_toDigits {a : Nat} (ha : 0 < a) (m : Nat) :
    Nat.toDigits 10 a ++ Nat.toDigits 10 m =
      Nat.toDigits 10 (a * 10 ^ (Nat.toDigits 10 m).length + m) := by
  induction m using Nat.strongRecOn with
  | ind m ih =>
    by_cases hm : m < 10
    · rw [Nat.toDigits_append_toDigits (by decide) ha hm, Nat.toDigits_of_lt_base hm,
        List.length_singleton, Nat.pow_one, Nat.mul_comm]
    · have hdigits : Nat.toDigits 10 m = Nat.toDigits 10 (m / 10) ++ Nat.toDigits 10 (m % 10) := by
        rw [Nat.toDigits_of_base_le (by decide) (Nat.le_of_not_lt hm),
          Nat.toDigits_of_lt_base (Nat.mod_lt m (by decide))]
      have hlast : (Nat.toDigits 10 (m % 10)).length = 1 := by
        rw [Nat.toDigits_of_lt_base (Nat.mod_lt m (by decide)), List.length_singleton]
      rw [hdigits, ← List.append_assoc, ih (m / 10) (by omega), List.length_append, hlast,
        Nat.toDigits_append_toDigits (by decide) (by omega) (Nat.mod_lt m (by decide))]
      generalize (Nat.toDigits 10 (m / 10)).length = l
      congr 1
      calc 10 * (a * 10 ^ l + m / 10) + m % 10
          = a * 10 ^ (l + 1) + (10 * (m / 10) + m % 10) := by ring
        _ = a * 10 ^ (l + 1) + m := by rw [Nat.div_add_mod]

/-- What stands in front of a numeral inside a longer one is a numeral, without a zero in
front. -/
theorem exists_of_toDigits_eq_append {n m : Nat} {ds : List Char} (hne : ds ≠ [])
    (h : Nat.toDigits 10 n = ds ++ Nat.toDigits 10 m) : ∃ a, 0 < a ∧ ds = Nat.toDigits 10 a := by
  induction m using Nat.strongRecOn generalizing n with
  | ind m ih =>
    have hn : ¬n < 10 := by
      intro hn
      have hlength := congrArg List.length h
      rw [Nat.toDigits_of_lt_base hn, List.length_append, List.length_singleton] at hlength
      have := List.length_pos_iff.2 hne
      have := Nat.length_toDigits_pos (b := 10) (n := m)
      omega
    rw [Nat.toDigits_of_base_le (by decide) (Nat.le_of_not_lt hn)] at h
    by_cases hm : m < 10
    · rw [Nat.toDigits_of_lt_base hm] at h
      exact ⟨n / 10, by omega, (List.append_inj_left' h rfl).symm⟩
    · rw [Nat.toDigits_of_base_le (by decide) (Nat.le_of_not_lt hm), ← List.append_assoc] at h
      exact ih (m / 10) (by omega) (List.append_inj_left' h rfl)

namespace Styled

open Hash

/-- A class name taken apart behind a hash of the given length, into the hash and the
number. -/
def readClassName (length : Nat) (name : String) : String × Option Nat :=
  (String.ofList ((name.toList.drop 1).take length),
    (String.ofList ((name.toList.drop 1).drop length)).toNat?)

/-- The class name with the number `n` of a file and the one with the number `m` of another
file are composed of the same characters: the hash of the second file goes on with the
numeral of some `a`, and `n` is written as `a` followed by `m`.  So `n` is ten at least. -/
def Overlap (f : FileInfo) (n : Nat) (g : FileInfo) (m : Nat) : Prop :=
  ∃ a, 0 < a ∧ hashString g.hashedPath = hashString f.hashedPath ++ Nat.repr a ∧
    n = a * 10 ^ (Nat.repr m).length + m

/-- A class name is an `e`, the hash of the file and the counter in decimal. -/
theorem toList_className (f : FileInfo) (n : Nat) :
    (className f n).toList = 'e' :: ((hashString f.hashedPath).toList ++ Nat.toDigits 10 n) := by
  have he : "e".toList = ['e'] := by decide
  rw [className, String.toList_append, String.toList_append, Nat.toList_repr, he,
    List.append_assoc, List.singleton_append]

/-- A class name can be read back by the length of the hash. -/
theorem readClassName_className (f : FileInfo) (n : Nat) :
    readClassName (hashString f.hashedPath).length (className f n) =
      (hashString f.hashedPath, some n) := by
  have hn : String.ofList (Nat.toDigits 10 n) = Nat.repr n := Nat.repr_eq_ofList_toDigits.symm
  rw [readClassName, toList_className, List.drop_succ_cons, List.drop_zero,
    ← String.length_toList, List.take_left, List.drop_left, String.ofList_toList, hn,
    Nat.toNat?_repr]

/-- The number in front of which a hash goes on with digits is made of those digits. -/
theorem overlap_iff {f g : FileInfo} {n m : Nat} :
    Overlap f n g m ↔ ∃ ds ≠ [],
      (hashString g.hashedPath).toList = (hashString f.hashedPath).toList ++ ds ∧
      Nat.toDigits 10 n = ds ++ Nat.toDigits 10 m := by
  have hlength : (Nat.repr m).length = (Nat.toDigits 10 m).length := by
    rw [← String.length_toList, Nat.toList_repr]
  constructor
  · rintro ⟨a, ha, hg, rfl⟩
    refine ⟨Nat.toDigits 10 a, Nat.toDigits_ne_nil, ?_, ?_⟩
    · rw [hg, String.toList_append, Nat.toList_repr]
    · rw [hlength, toDigits_append_toDigits ha]
  · rintro ⟨ds, hne, hg, hn⟩
    obtain ⟨a, ha, rfl⟩ := exists_of_toDigits_eq_append hne hn
    rw [toDigits_append_toDigits ha] at hn
    refine ⟨a, ha, ?_, ?_⟩
    · rw [← String.toList_inj, hg, String.toList_append, Nat.toList_repr]
    · rw [hlength]
      exact Nat.repr_inj.1 (congrArg String.ofList hn)

/-- **When class names collide.**  A class name tells the hash and the number if the length
of the hash is known; and the class names of two files are the same exactly if both
parts are, or if one hash goes on with decimal digits where the number behind the other
one has them. -/
theorem className_eq_iff (f g : FileInfo) (n m : Nat) :
    readClassName (hashString f.hashedPath).length (className f n) =
        (hashString f.hashedPath, some n) ∧
      (className f n = className g m ↔
        (hashString f.hashedPath = hashString g.hashedPath ∧ n = m) ∨
          Overlap f n g m ∨ Overlap g m f n) := by
  refine ⟨readClassName_className f n, ?_⟩
  rw [← String.toList_inj, toList_className, toList_className, List.cons_inj_right,
    List.append_eq_append_iff, overlap_iff, overlap_iff]
  constructor
  · rintro (⟨ds, hg, hn⟩ | ⟨ds, hf, hm⟩)
    · by_cases hds : ds = []
      · subst hds
        rw [List.append_nil, String.toList_inj] at hg
        exact .inl ⟨hg.symm, Nat.repr_inj.1 (congrArg String.ofList hn)⟩
      · exact .inr (.inl ⟨ds, hds, hg, hn⟩)
    · by_cases hds : ds = []
      · subst hds
        rw [List.append_nil, String.toList_inj] at hf
        exact .inl ⟨hf, (Nat.repr_inj.1 (congrArg String.ofList hm)).symm⟩
      · exact .inr (.inr ⟨ds, hds, hf, hm⟩)
  · rintro (⟨hhash, rfl⟩ | ⟨ds, -, hg, hn⟩ | ⟨ds, -, hf, hm⟩)
    · exact .inl ⟨[], by rw [hhash, List.append_nil], rfl⟩
    · exact .inl ⟨ds, hg, hn⟩
    · exact .inr ⟨ds, hf, hm⟩

/-- The facts about a file in the root directory. -/
def rootFile (name : String) : FileInfo := FileInfo.ofOptions {} ⟨some name, "/", none⟩ false

/-- Files with different hashes can have a class name in common: `h3yw7` with the number 10
and `h3yw71` with the number 0. -/
theorem not_forall_className_ne :
    ¬∀ (f g : FileInfo) (n m : Nat), hashString f.hashedPath ≠ hashString g.hashedPath →
      className f n ≠ className g m := by
  intro h
  have hhash : hashString (rootFile "/tdpd.js").hashedPath = "h3yw7" ∧
      hashString (rootFile "/iecf.js").hashedPath = "h3yw71" := by
    decide +kernel
  refine h (rootFile "/tdpd.js") (rootFile "/iecf.js") 10 0 ?_ ?_
  · rw [hhash.1, hhash.2]
    decide
  · rw [className, className, hhash.1, hhash.2]
    decide

end Styled
end StyleLowering
