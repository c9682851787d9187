import Mathlib.Data.Nat.Bitwise

/-!
# Machine words read as numbers

Masking with a low mask is division with remainder by a power of two, at any width.
-/

namespace ExtKtrace.Word
set_option autoImplicit false

theorem toNat_and_not_low {w : Nat} (x : BitVec w) (k : Nat) :
    (x &&& ~~~(BitVec.ofNat w (2 ^ k - 1))).toNat = 2 ^ k * (x.toNat / 2 ^ k) := by
  apply Nat.eq_of_testBit_eq
  intro i
  rw [Nat.testBit_two_pow_mul, Nat.testBit_div_two_pow, BitVec.testBit_toNat, BitVec.testBit_toNat]
  rw [BitVec.getLsbD_and, BitVec.getLsbD_not, BitVec.getLsbD_ofNat, Nat.testBit_two_pow_sub_one]
  by_cases h : k ≤ i
  · have hlt : ¬ i < k := by omega
    have hw : x.getLsbD i = true → i < w := BitVec.lt_of_getLsbD
    cases hx : x.getLsbD i <;> simp_all [Nat.sub_add_cancel h]
  · have hlt : i < k := by omega
    simp [h, hlt]

theorem uint64_and_not_seven (x : UInt64) : (x &&& ~~~7).toNat = 8 * (x.toNat / 8) :=
  toNat_and_not_low x.toBitVec 3

theorem uint64_and_seven (x : UInt64) : (x &&& 7).toNat = x.toNat % 8 := by
  rw [UInt64.toNat_and]
  exact Nat.and_two_pow_sub_one_eq_mod x.toNat 3

/-- A word without bits from `3` on is one of eight. -/
theorem uint64_and_not_seven_eq_zero {x : UInt64} : x &&& ~~~7 = 0 ↔ x.toNat < 8 := by
  rw [← UInt64.toNat_inj, uint64_and_not_seven]
  have h0 : (0 : UInt64).toNat = 0 := rfl
  rw [h0]
  omega

theorem uint64_and_not_three_eq_zero {x : UInt64} : x &&& ~~~3 = 0 ↔ x.toNat < 4 := by
  have hand : (x &&& ~~~3).toNat = 4 * (x.toNat / 4) := toNat_and_not_low x.toBitVec 2
  rw [← UInt64.toNat_inj, hand]
  have h0 : (0 : UInt64).toNat = 0 := rfl
  rw [h0]
  omega

/-- Masking with all bits below `k`. -/
theorem uint64_and_low (x : UInt64) {m : UInt64} {k : Nat} (hm : m.toNat = 2 ^ k - 1) :
    (x &&& m).toNat = x.toNat % 2 ^ k := by
  rw [UInt64.toNat_and, hm]
  exact Nat.and_two_pow_sub_one_eq_mod x.toNat k

theorem and_not_of_and {w : Nat} {x b : BitVec w} (h : x &&& b = 0) : x &&& ~~~b = x := by
  ext i hi
  have hbit : (x &&& b)[i] = false := by simp [h]
  rw [BitVec.getElem_and] at hbit
  rw [BitVec.getElem_and, BitVec.getElem_not]
  cases hx : x[i] <;> cases hb : b[i] <;> simp_all

/-- Bits a word does not have can be set and cleared again. -/
theorem or_and_not {w : Nat} {x b : BitVec w} (h : x &&& b = 0) : (x ||| b) &&& ~~~b = x := by
  rw [BitVec.and_or_distrib_right, and_not_of_and h, BitVec.and_not_self]
  simp

theorem or_and_self {w : Nat} (x b : BitVec w) : (x ||| b) &&& b = b := by
  ext i hi
  rw [BitVec.getElem_and, BitVec.getElem_or]
  cases x[i] <;> cases b[i] <;> rfl

theorem uint32_and_not_of_and {x b : UInt32} (h : x &&& b = 0) : x &&& ~~~b = x := by
  rw [← UInt32.toBitVec_inj] at h ⊢
  exact and_not_of_and h

theorem uint32_or_and_self (x b : UInt32) : (x ||| b) &&& b = b := by
  rw [← UInt32.toBitVec_inj]
  exact or_and_self _ _

theorem uint32_or_and_not {x b : UInt32} (h : x &&& b = 0) : (x ||| b) &&& ~~~b = x := by
  rw [← UInt32.toBitVec_inj] at h ⊢
  exact or_and_not h

/-- A small word has no bit in common with a mask of high bits. -/
theorem uint32_and_eq_zero {x b : UInt32} {k : Nat} (hx : x.toNat < 2 ^ k)
    (hb : 2 ^ k ∣ b.toNat) : x &&& b = 0 := by
  rw [← UInt32.toNat_inj, UInt32.toNat_and]
  obtain ⟨c, hc⟩ := hb
  rw [hc]
  apply Nat.eq_of_testBit_eq
  intro i
  rw [Nat.testBit_and, Nat.testBit_two_pow_mul]
  by_cases hi : k ≤ i
  · have hlt : x.toNat < 2 ^ i := Nat.lt_of_lt_of_le hx (Nat.pow_le_pow_right (by omega) hi)
    rw [Nat.testBit_lt_two_pow hlt]
    simp
  · simp [hi]

theorem uint16_low (x : UInt16) : (x &&& 0xFF).toUInt8.toNat = x.toNat % 256 := by
  have hand : (x &&& 0xFF).toNat = x.toNat % 256 := by
    rw [UInt16.toNat_and]
    exact Nat.and_two_pow_sub_one_eq_mod x.toNat 8
  rw [UInt16.toNat_toUInt8, hand, Nat.mod_mod]

theorem uint16_high (x : UInt16) : (x >>> 8).toUInt8.toNat = x.toNat / 256 := by
  have hshift : (x >>> 8).toNat = x.toNat / 256 := by
    rw [UInt16.toNat_shiftRight]
    exact Nat.shiftRight_eq_div_pow x.toNat 8
  have hlt := x.toNat_lt
  rw [UInt16.toNat_toUInt8, hshift]
  omega

theorem uint16_of_bytes (high low : UInt8) :
    ((high.toUInt16 <<< 8) ||| low.toUInt16).toNat = high.toNat * 256 + low.toNat := by
  have hhigh := high.toNat_lt
  have hlow : low.toNat < 2 ^ 8 := low.toNat_lt
  have hshift : (high.toUInt16 <<< 8).toNat = 2 ^ 8 * high.toNat := by
    rw [UInt16.toNat_shiftLeft, UInt8.toNat_toUInt16]
    have h8 : (8 : UInt16).toNat % 16 = 8 := rfl
    rw [h8, Nat.shiftLeft_eq, Nat.mod_eq_of_lt (by omega), Nat.mul_comm]
  rw [UInt16.toNat_or, hshift, UInt8.toNat_toUInt16, ← Nat.two_pow_add_eq_or_of_lt hlow]
  omega

/-- A word is put together again from its two bytes. -/
theorem uint16_bytes (x : UInt16) :
    ((x >>> 8).toUInt8.toUInt16 <<< 8) ||| (x &&& 0xFF).toUInt8.toUInt16 = x := by
  rw [← UInt16.toNat_inj, uint16_of_bytes, uint16_low, uint16_high]
  omega

end ExtKtrace.Word
