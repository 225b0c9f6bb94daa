/-
# Texts that differ in one block

No step of the hash loses anything: the multiplier is odd, a word combined with its own
right shift can be taken apart again, and a block goes into the state by such steps alone.
So two states that differ still differ after any further block, and two blocks that differ
leave different states.  Texts of one length that differ inside a single block therefore
have different hashes (`Hash.hashString_ne_of_differInBlock`).
-/

import StyleLowering.Proofs.Hash.Murmur

namespace StyleLowering
namespace Hash

/-! ## Steps that can be undone -/

/-- To mix a word loses nothing. -/
theorem mulMix_injective : Function.Injective mulMix := by
  intro v w h
  have hinverse : multiplier * 0xe59b19bd = 1 := by decide
  rw [mulMix_eq, mulMix_eq] at h
  calc v = v * multiplier * 0xe59b19bd := by rw [UInt32.mul_assoc, hinverse, UInt32.mul_one]
    _ = w * multiplier * 0xe59b19bd := by rw [h]
    _ = w := by rw [UInt32.mul_assoc, hinverse, UInt32.mul_one]

/-- A word combined with its own right shift tells the word. -/
theorem xor_shiftRight_injective {k : UInt32} (hk : 0 < k.toNat % 32) :
    Function.Injective fun v : UInt32 => v ^^^ (v >>> k) := by
  intro v w h
  -- the difference of the two words is its own shift, and only zero is
  have hself : (v ^^^ w) >>> k = v ^^^ w := by
    have h : v ^^^ (v >>> k) = w ^^^ (w >>> k) := h
    rw [UInt32.shiftRight_xor, ← UInt32.xor_right_inj v, ← UInt32.xor_assoc, h,
      UInt32.xor_assoc, UInt32.xor_self, UInt32.xor_zero, ← UInt32.xor_assoc, UInt32.xor_self,
      UInt32.zero_xor]
  have hzero : (v ^^^ w).toNat = 0 := by
    by_contra hne
    have hlt : (v ^^^ w).toNat / 2 ^ (k.toNat % 32) < (v ^^^ w).toNat :=
      Nat.div_lt_self (Nat.pos_of_ne_zero hne) (Nat.one_lt_two_pow (by omega))
    rw [← Nat.shiftRight_eq_div_pow, ← UInt32.toNat_shiftRight, hself] at hlt
    exact Nat.lt_irrefl _ hlt
  rw [← UInt32.xor_right_inj w, UInt32.xor_self, UInt32.xor_comm]
  exact UInt32.toNat_inj.1 hzero

/-- Different states stay different under the same block. -/
theorem mixBlock_left_injective (k : UInt32) : Function.Injective fun h => mixBlock h k := by
  intro h h' heq
  exact mulMix_injective ((UInt32.xor_right_inj _).1 heq)

/-- **Different blocks make a difference** in the same state. -/
theorem mixBlock_right_injective (h : UInt32) : Function.Injective (mixBlock h) := by
  intro k k' heq
  have hshift : 0 < (24 : UInt32).toNat % 32 := by decide
  exact mulMix_injective
    (xor_shiftRight_injective hshift (mulMix_injective ((UInt32.xor_left_inj _).1 heq)))

/-- The last step loses nothing. -/
theorem avalanche_injective : Function.Injective avalanche := by
  intro h h' heq
  have hfirst : 0 < (13 : UInt32).toNat % 32 := by decide
  have hlast : 0 < (15 : UInt32).toNat % 32 := by decide
  exact xor_shiftRight_injective hfirst
    (mulMix_injective (xor_shiftRight_injective hlast heq))

/-! ## One block -/

/-- The bytes of a block as a word. -/
def word (bytes : List UInt8) : UInt32 := UInt32.ofNat (littleEndian bytes)

/-- The digits of a word are bytes. -/
theorem lt_of_mem_map_toNat {bytes : List UInt8} {d : Nat} (hd : d ∈ bytes.map UInt8.toNat) :
    d < 256 := by
  obtain ⟨b, -, rfl⟩ := List.mem_map.1 hd
  exact b.toNat_lt

/-- A number is smaller than what its bytes leave room for. -/
theorem littleEndian_lt (bytes : List UInt8) : littleEndian bytes < 256 ^ bytes.length := by
  have h : littleEndian bytes < 256 ^ (bytes.map UInt8.toNat).length :=
    Nat.ofDigits_lt_base_pow_length (by decide) fun _ => lt_of_mem_map_toNat
  rwa [List.length_map] at h

/-- A word has room for four bytes. -/
theorem toNat_word {bytes : List UInt8} (h : bytes.length ≤ 4) :
    (word bytes).toNat = littleEndian bytes :=
  UInt32.toNat_ofNat_of_lt
    (Nat.lt_of_lt_of_le (littleEndian_lt bytes) (Nat.pow_le_pow_right (by decide) h))

/-- A block of no more than four bytes is told by its length and its word. -/
theorem eq_of_word_eq {x y : List UInt8} (hlength : x.length = y.length) (hx : x.length ≤ 4)
    (h : word x = word y) : x = y := by
  have hvalue : littleEndian x = littleEndian y := by
    rw [← toNat_word hx, ← toNat_word (hlength ▸ hx), h]
  have hmap : x.map UInt8.toNat = y.map UInt8.toNat :=
    Nat.ofDigits_inj_of_len_eq (by decide) (by simpa only [List.length_map] using hlength)
      (fun _ => lt_of_mem_map_toNat) (fun _ => lt_of_mem_map_toNat) hvalue
  exact (List.map_inj_right fun _ _ => UInt8.toNat_inj.1).1 hmap

/-- A number of which the lower bits are free takes a number in there by `xor`, too. -/
theorem shiftLeft_xor_eq_add {a b i : Nat} (h : a < 2 ^ i) : b <<< i ^^^ a = a + 2 ^ i * b := by
  rw [← or_shiftLeft_eq_add h]
  apply Nat.eq_of_testBit_eq
  intro j
  rw [Nat.testBit_xor, Nat.testBit_or, Nat.testBit_shiftLeft]
  by_cases hj : i ≤ j
  · rw [Nat.testBit_lt_two_pow (Nat.lt_of_lt_of_le h (Nat.pow_le_pow_right (by decide) hj)),
      Bool.xor_false, Bool.false_or]
  · rw [decide_eq_false hj, Bool.false_and, Bool.false_xor, Bool.or_false]

/-- A byte that is combined with the word of the bytes below it makes the word of all. -/
theorem shiftLeft_xor_word (b : UInt8) {bytes : List UInt8} {i : UInt32}
    (hi : i.toNat = 8 * bytes.length) (hlength : bytes.length < 4) :
    b.toUInt32 <<< i ^^^ word bytes = word (bytes ++ [b]) := by
  have hlt : littleEndian bytes < 2 ^ (8 * bytes.length) := by
    rw [Nat.pow_mul]
    exact littleEndian_lt bytes
  have hle : (bytes ++ [b]).length ≤ 4 := by
    rw [List.length_append, List.length_singleton]
    omega
  rw [← UInt32.toNat_inj, toNat_word hle, UInt32.toNat_xor, toNat_shiftLeft_toUInt32 b (by omega),
    toNat_word (by omega), hi, shiftLeft_xor_eq_add hlt, littleEndian, littleEndian,
    List.map_append, Nat.ofDigits_append, List.length_map, List.map_singleton,
    Nat.ofDigits_singleton, Nat.pow_mul]

/-- One to three bytes are mixed in as a word. -/
theorem absorb_of_length_lt {bytes : List UInt8} (hpos : 0 < bytes.length) (hlt : bytes.length < 4)
    (h : UInt32) : absorb h bytes = mulMix (h ^^^ word bytes) := by
  have hone : ∀ b₀ : UInt8, b₀.toUInt32 = word [b₀] := by
    intro b₀
    rw [← UInt32.toNat_inj, toNat_word (by simp)]
    exact (Nat.ofDigits_singleton (b := 256)).symm
  have htwo : ∀ b₀ b₁ : UInt8, b₁.toUInt32 <<< 8 ^^^ b₀.toUInt32 = word [b₀, b₁] := by
    intro b₀ b₁
    rw [hone b₀, shiftLeft_xor_word b₁ (by rfl) (by simp)]
    rfl
  have hthree : ∀ b₀ b₁ b₂ : UInt8,
      b₂.toUInt32 <<< 16 ^^^ (b₁.toUInt32 <<< 8 ^^^ b₀.toUInt32) = word [b₀, b₁, b₂] := by
    intro b₀ b₁ b₂
    rw [htwo, shiftLeft_xor_word b₂ (by rfl) (by simp)]
    rfl
  match bytes with
  | [b₀] => rw [absorb, hone]
  | [b₀, b₁] => rw [absorb, UInt32.xor_assoc, htwo]
  | [b₀, b₁, b₂] => rw [absorb, UInt32.xor_assoc, UInt32.xor_assoc, hthree]

/-- A full block is mixed into the state as a word. -/
theorem absorb_of_length_eq {bytes : List UInt8} (hlength : bytes.length = 4) (h : UInt32) :
    absorb h bytes = mixBlock h (word bytes) := by
  match bytes with
  | [b₀, b₁, b₂, b₃] => rw [absorb, absorb, word, ← toNat_blockWord, UInt32.ofNat_toNat]

/-- Different blocks of one length leave different states. -/
theorem absorb_ne_of_length_le {x y : List UInt8} (hlength : x.length = y.length)
    (hx : x.length ≤ 4) (hne : x ≠ y) (h : UInt32) : absorb h x ≠ absorb h y := by
  intro heq
  have hword : word x = word y := by
    rcases Nat.lt_or_ge x.length 4 with hlt | hge
    · have hpos : 0 < x.length := by
        rw [List.length_pos_iff]
        rintro rfl
        exact hne (List.length_eq_zero_iff.1 hlength.symm).symm
      rw [absorb_of_length_lt hpos hlt, absorb_of_length_lt (by omega) (by omega)] at heq
      exact (UInt32.xor_right_inj h).1 (mulMix_injective heq)
    · rw [absorb_of_length_eq (by omega), absorb_of_length_eq (by omega)] at heq
      exact mixBlock_right_injective h heq
  exact hne (eq_of_word_eq hlength hx hword)

/-! ## Many blocks -/

/-- Whole blocks can be absorbed first. -/
theorem absorb_append {p : List UInt8} (hp : p.length % 4 = 0) (q : List UInt8) (h : UInt32) :
    absorb h (p ++ q) = absorb (absorb h p) q := by
  fun_induction absorb h p with
  | case1 h b₀ b₁ b₂ b₃ rest ih =>
    rw [← ih (by simp only [List.length_cons] at hp; omega)]
    rfl
  | case2 | case3 | case4 => simp at hp
  | case5 h => rfl

/-- States that differ still differ after any further bytes. -/
theorem absorb_left_injective (bytes : List UInt8) :
    Function.Injective fun h => absorb h bytes := by
  intro h h' (heq : absorb h bytes = absorb h' bytes)
  fun_induction absorb h bytes generalizing h' with
  | case1 h b₀ b₁ b₂ b₃ rest ih => exact mixBlock_left_injective _ (ih heq)
  | case2 | case3 | case4 => simpa only [UInt32.xor_left_inj] using mulMix_injective heq
  | case5 h => exact heq

/-- Bytes that differ in one block, in the middle or at the end, leave different states. -/
theorem absorb_ne {p x y q : List UInt8} (hp : p.length % 4 = 0) (hlength : x.length = y.length)
    (hx : x.length = 4 ∨ x.length < 4 ∧ q = []) (hne : x ≠ y) (h : UInt32) :
    absorb h (p ++ (x ++ q)) ≠ absorb h (p ++ (y ++ q)) := by
  rw [absorb_append hp, absorb_append hp]
  rcases hx with hfour | ⟨hlt, rfl⟩
  · rw [absorb_append (by omega), absorb_append (by omega)]
    exact fun heq => absorb_ne_of_length_le hlength (by omega) hne _ (absorb_left_injective q heq)
  · rw [List.append_nil, List.append_nil]
    exact absorb_ne_of_length_le hlength (by omega) hne _

/-- Three parts of some bytes: what is in front of a block, the block, what is behind. -/
theorem eq_append_block (j : Nat) (bytes : List UInt8) :
    bytes = bytes.take (4 * j) ++ ((bytes.drop (4 * j)).take 4 ++ bytes.drop (4 * j + 4)) := by
  rw [← List.drop_drop, List.take_append_drop, List.take_append_drop]

/-- Bytes that agree at every place outside the `j`-th block, and not inside, leave different
states. -/
theorem absorb_ne_of_getElem? {a b : List UInt8} {j : Nat} (hlength : a.length = b.length)
    (hoff : ∀ i, i / 4 ≠ j → a[i]? = b[i]?) (hon : ∃ i, i / 4 = j ∧ a[i]? ≠ b[i]?) (h : UInt32) :
    absorb h a ≠ absorb h b := by
  obtain ⟨i, hi, hne⟩ := hon
  have hlt : i < a.length := by
    refine Nat.lt_of_not_le fun hle => hne ?_
    rw [List.getElem?_eq_none hle, List.getElem?_eq_none (hlength ▸ hle)]
  -- The bytes agree in front of the block and behind it, and differ in it.
  have hfront : a.take (4 * j) = b.take (4 * j) := by
    refine List.ext_getElem? fun i => ?_
    rw [List.getElem?_take, List.getElem?_take]
    split
    · exact hoff i (by omega)
    · rfl
  have hback : a.drop (4 * j + 4) = b.drop (4 * j + 4) := by
    refine List.ext_getElem? fun i => ?_
    rw [List.getElem?_drop, List.getElem?_drop]
    exact hoff _ (by omega)
  have hblock : (a.drop (4 * j)).take 4 ≠ (b.drop (4 * j)).take 4 := by
    intro heq
    have hread := congrArg (·[i - 4 * j]?) heq
    simp only [List.getElem?_take, List.getElem?_drop] at hread
    rw [if_pos (by omega), if_pos (by omega), show 4 * j + (i - 4 * j) = i from by omega] at hread
    exact hne hread
  rw [eq_append_block j a, eq_append_block j b, ← hfront, ← hback]
  refine absorb_ne ?_ ?_ ?_ hblock h
  · rw [List.length_take]
    omega
  · rw [List.length_take, List.length_take, List.length_drop, List.length_drop, hlength]
  · rw [List.length_take, List.length_drop, List.drop_eq_nil_iff]
    omega

/-! ## Texts -/

/-- There is one byte for each unit of a text. -/
theorem length_lowBytes (s : String) : (lowBytes s).length = Text.length16 s.toList :=
  List.length_map _

/-- Texts of the same number of UTF-16 code units whose low bytes agree outside the block of
the units `4 * j` to `4 * j + 3`, as far as the texts have them, and differ inside. -/
def DifferInBlock (j : Nat) (s t : String) : Prop :=
  Text.length16 s.toList = Text.length16 t.toList ∧
    (∀ i < Text.length16 s.toList, i / 4 ≠ j → (lowBytes s)[i]? = (lowBytes t)[i]?) ∧
    ∃ i < Text.length16 s.toList, i / 4 = j ∧ (lowBytes s)[i]? ≠ (lowBytes t)[i]?

instance (j : Nat) (s t : String) : Decidable (DifferInBlock j s t) :=
  inferInstanceAs (Decidable (_ ∧ _ ∧ _))

/-- **Paths that differ in one block never share a hash.** -/
theorem hashString_ne_of_differInBlock {j : Nat} {s t : String} (h : DifferInBlock j s t) :
    hashString s ≠ hashString t := by
  obtain ⟨hlength, hoff, i, -, hij, hne⟩ := h
  rw [← length_lowBytes] at hlength hoff
  rw [← length_lowBytes] at hlength
  -- the texts agree at every place outside the block, also where both have ended
  have hoff : ∀ i, i / 4 ≠ j → (lowBytes s)[i]? = (lowBytes t)[i]? := by
    intro i hij
    by_cases hi : i < (lowBytes s).length
    · exact hoff i hi hij
    · rw [List.getElem?_eq_none (by omega), List.getElem?_eq_none (by omega)]
  have habsorb : absorb 0 (lowBytes s) ≠ absorb 0 (lowBytes t) :=
    absorb_ne_of_getElem? hlength hoff ⟨i, hij, hne⟩ 0
  intro heq
  have hnumeral := numeral36_injective (String.ofList_inj.1 heq)
  exact habsorb (avalanche_injective (UInt32.toNat_inj.1 hnumeral))

/-- Two file names whose endings differ, in the block that is not full. -/
theorem hashString_ne_ending :
    DifferInBlock 2 "src/App.tsx" "src/App.mjs" ∧
      hashString "src/App.tsx" ≠ hashString "src/App.mjs" :=
  ⟨by decide, hashString_ne_of_differInBlock (j := 2) (by decide)⟩

end Hash
end StyleLowering
