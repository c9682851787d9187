import Mathlib.Algebra.Group.Int.Defs
import Mathlib.Algebra.GroupWithZero.Nat

/-! # Integers as bytes -/

namespace ExtKtrace.Endian
set_option autoImplicit false

/-- The number whose base 256 digits are `bs`, least significant first. -/
def leNat : List UInt8 → Nat
  | [] => 0
  | b :: bs => b.toNat + 256 * leNat bs

/-- The `n` lowest base 256 digits of a number, least significant first. -/
def toLe : Nat → Nat → List UInt8
  | 0, _ => []
  | n + 1, k => UInt8.ofNat k :: toLe n (k / 256)

/-- The same, most significant digit first. -/
def beNat (bs : List UInt8) : Nat := leNat bs.reverse

/-- The two's complement reading of a number of `bits` bits. -/
def signedOf (bits n : Nat) : Int := if n < 2 ^ (bits - 1) then n else n - 2 ^ bits

@[simp] theorem length_toLe (n k : Nat) : (toLe n k).length = n := by
  induction n generalizing k with
  | zero => rfl
  | succ n ih => simp [toLe, ih]

theorem leNat_toLe (n k : Nat) : leNat (toLe n k) = k % 256 ^ n := by
  induction n generalizing k with
  | zero => simp [toLe, leNat, Nat.mod_one]
  | succ n ih =>
    have hbyte : (UInt8.ofNat k).toNat = k % 256 := by simp
    simp only [toLe, leNat, ih, hbyte]
    rw [Nat.pow_succ, Nat.mul_comm (256 ^ n) 256, Nat.mod_mul]

theorem toLe_leNat (bs : List UInt8) : toLe bs.length (leNat bs) = bs := by
  induction bs with
  | nil => rfl
  | cons b bs ih =>
    have hbyte : UInt8.ofNat (b.toNat + 256 * leNat bs) = b := by
      apply UInt8.toNat_inj.mp
      have hlt := b.toNat_lt
      simp only [UInt8.toNat_ofNat']
      omega
    have hdiv : (b.toNat + 256 * leNat bs) / 256 = leNat bs := by
      have hlt := b.toNat_lt
      omega
    simp only [List.length_cons, toLe, leNat, hbyte, hdiv, ih]

theorem leNat_toLe_of_lt {n k : Nat} (h : k < 256 ^ n) : leNat (toLe n k) = k := by
  rw [leNat_toLe, Nat.mod_eq_of_lt h]

theorem leNat_lt (bs : List UInt8) : leNat bs < 256 ^ bs.length := by
  rw [← toLe_leNat bs, leNat_toLe, length_toLe]
  exact Nat.mod_lt _ (Nat.pow_pos (by decide))

/-- The halves of the numbers of a width, as integers. -/
theorem two_pow_pred {bits : Nat} (h : 0 < bits) :
    ((2 ^ bits : Nat) : Int) = 2 * ((2 ^ (bits - 1) : Nat) : Int) := by
  obtain ⟨b, rfl⟩ := Nat.exists_eq_add_of_lt h
  rw [Nat.zero_add, Nat.add_sub_cancel, Nat.pow_succ]
  omega

theorem signedOf_range {bits n : Nat} (h : 0 < bits) (hn : n < 2 ^ bits) :
    -((2 ^ (bits - 1) : Nat) : Int) ≤ signedOf bits n ∧
      signedOf bits n < ((2 ^ (bits - 1) : Nat) : Int) := by
  have htwo := two_pow_pred h
  have hcast : (2 : Int) ^ bits = ((2 ^ bits : Nat) : Int) := by simp
  unfold signedOf
  split
  · omega
  · rw [hcast]
    omega

/-- The low bits of a signed number are the number that was read. -/
theorem signedOf_emod {bits n : Nat} (hn : n < 2 ^ bits) :
    (signedOf bits n % ((2 ^ bits : Nat) : Int)).toNat = n := by
  have hcast : (2 : Int) ^ bits = ((2 ^ bits : Nat) : Int) := by simp
  have hmod : ((n : Int) % ((2 ^ bits : Nat) : Int)).toNat = n := by
    rw [Int.emod_eq_of_lt (Int.natCast_nonneg n) (Int.ofNat_lt.mpr hn)]
    exact Int.toNat_natCast n
  unfold signedOf
  split
  · exact hmod
  · rw [hcast, Int.sub_emod_right]
    exact hmod

/-- A number in the signed range is read back from its low bits. -/
theorem signedOf_of_range {bits : Nat} {v : Int} (h : 0 < bits)
    (hmin : -((2 ^ (bits - 1) : Nat) : Int) ≤ v) (hmax : v < ((2 ^ (bits - 1) : Nat) : Int)) :
    signedOf bits (v % ((2 ^ bits : Nat) : Int)).toNat = v := by
  have htwo := two_pow_pred h
  have hcast : (2 : Int) ^ bits = ((2 ^ bits : Nat) : Int) := by simp
  unfold signedOf
  rcases Int.lt_or_le v 0 with hneg | hpos
  · have hmod : v % ((2 ^ bits : Nat) : Int) = v + ((2 ^ bits : Nat) : Int) := by
      rw [← Int.add_emod_right]
      exact Int.emod_eq_of_lt (by omega) (by omega)
    rw [hmod, hcast, if_neg (by omega)]
    omega
  · rw [Int.emod_eq_of_lt hpos (by omega), if_pos (by omega)]
    omega

end ExtKtrace.Endian
