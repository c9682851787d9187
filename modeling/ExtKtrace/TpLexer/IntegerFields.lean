import ExtKtrace.TpLexer.BufSound

/-!
# Integer fields

What the bytes of an integer field stand for, and where `to_i64` returns just that.
-/

namespace ExtKtrace.TpLexer
set_option autoImplicit false

namespace Prim

def bits (t : Target) (p : Prim) : Nat := 8 * p.size t

/-- The values of the type. -/
def InRange (t : Target) (p : Prim) (v : Int) : Prop :=
  if p.signed then
    -((2 ^ (p.bits t - 1) : Nat) : Int) ≤ v ∧ v < ((2 ^ (p.bits t - 1) : Nat) : Int)
  else 0 ≤ v ∧ v < ((2 ^ p.bits t : Nat) : Int)

instance (t : Target) (p : Prim) (v : Int) : Decidable (p.InRange t v) :=
  inferInstanceAs (Decidable (if p.signed then _ ∧ _ else _ ∧ _))

/-- `to_ne_bytes`: the low bits of the value in the byte order of the target. -/
def toNeBytes (t : Target) (p : Prim) (v : Int) : Str :=
  let le := Endian.toLe (p.size t) (v % ((2 ^ p.bits t : Nat) : Int)).toNat
  if t.bigEndian then le.reverse else le

/-- The bytes hold the value. -/
def Stored (t : Target) (p : Prim) (bytes : Str) (v : Int) : Prop :=
  p.InRange t v ∧ bytes = p.toNeBytes t v

theorem bits_pos (t : Target) (p : Prim) : 0 < p.bits t := by
  unfold bits
  cases p with
  | isize | usize =>
    simp only [size, Target.usizeBytes]
    split <;> omega
  | i8 | i16 | i32 | i64 | i128 | u8 | u16 | u32 | u64 | u128 => exact Nat.succ_pos _

theorem two_pow_bits (t : Target) (p : Prim) : 2 ^ p.bits t = 256 ^ p.size t := by
  rw [bits, Nat.pow_mul]

@[simp] theorem length_toNeBytes (t : Target) (p : Prim) (v : Int) :
    (p.toNeBytes t v).length = p.size t := by
  unfold toNeBytes
  dsimp only
  split <;> simp

/-- The bytes as a number without a sign. -/
def unsigned (t : Target) (slice : Str) : Nat :=
  if t.bigEndian then Endian.beNat slice else Endian.leNat slice

theorem fromNeBytes_eq (t : Target) (p : Prim) (slice : Str) : p.fromNeBytes t slice =
    if p.signed then Endian.signedOf (p.bits t) (unsigned t slice) else unsigned t slice := rfl

theorem unsigned_lt {t : Target} {p : Prim} {slice : Str} (h : slice.length = p.size t) :
    unsigned t slice < 2 ^ p.bits t := by
  rw [two_pow_bits, ← h, unsigned]
  split
  · rw [Endian.beNat, ← List.length_reverse]
    exact Endian.leNat_lt _
  · exact Endian.leNat_lt _

/-- Bytes and number determine each other. -/
theorem unsigned_eq_iff {t : Target} {p : Prim} {slice : Str} (h : slice.length = p.size t)
    {n : Nat} (hn : n < 2 ^ p.bits t) :
    unsigned t slice = n ↔
      slice = if t.bigEndian then (Endian.toLe (p.size t) n).reverse
        else Endian.toLe (p.size t) n := by
  rw [two_pow_bits] at hn
  have hread := Endian.leNat_toLe_of_lt hn
  unfold unsigned
  split
  · have hwrite := Endian.toLe_leNat slice.reverse
    rw [List.length_reverse, h] at hwrite
    constructor
    · rintro rfl
      rw [Endian.beNat, hwrite, List.reverse_reverse]
    · rintro rfl
      rw [Endian.beNat, List.reverse_reverse, hread]
  · have hwrite := Endian.toLe_leNat slice
    rw [h] at hwrite
    constructor
    · rintro rfl
      exact hwrite.symm
    · rintro rfl
      exact hread

/-- Bytes of the type's size hold one value, the one that `from_ne_bytes` returns. -/
theorem stored_iff {t : Target} {p : Prim} {slice : Str} (h : slice.length = p.size t) {v : Int} :
    p.Stored t slice v ↔ v = p.fromNeBytes t slice := by
  have hpos := p.bits_pos t
  have hlt : (v % ((2 ^ p.bits t : Nat) : Int)).toNat < 2 ^ p.bits t := by
    have := Nat.two_pow_pos (p.bits t)
    have := Int.emod_lt_of_pos v (b := ((2 ^ p.bits t : Nat) : Int)) (by omega)
    have := Int.emod_nonneg v (b := ((2 ^ p.bits t : Nat) : Int)) (by omega)
    omega
  have hbytes : slice = p.toNeBytes t v ↔
      unsigned t slice = (v % ((2 ^ p.bits t : Nat) : Int)).toNat := (unsigned_eq_iff h hlt).symm
  have hun := unsigned_lt h
  rw [Stored, hbytes, fromNeBytes_eq, InRange]
  split
  · constructor
    · rintro ⟨⟨hmin, hmax⟩, hn⟩
      rw [hn, Endian.signedOf_of_range hpos hmin hmax]
    · rintro rfl
      exact ⟨Endian.signedOf_range hpos hun, (Endian.signedOf_emod hun).symm⟩
  · constructor
    · rintro ⟨⟨hmin, hmax⟩, hn⟩
      rw [hn, Int.emod_eq_of_lt hmin hmax]
      omega
    · rintro rfl
      refine ⟨⟨by omega, by omega⟩, ?_⟩
      rw [Int.emod_eq_of_lt (by omega) (by omega)]
      rfl

end Prim

namespace IntegerType

/-- The integer type whose bytes a field of the type has. -/
def repr : IntegerType → Prim
  | prim p | nonZero p => p
  | bool => .u8
  | char => .u32

/-- The stored integers that are no value of the type. -/
def Refused : IntegerType → Int → Prop
  | nonZero _, v => v = 0
  | char, v => ¬ v.toNat.isValidChar
  | _, _ => False

/-- What a stored integer stands for in 64 bits. -/
def value : IntegerType → Int → Int
  | bool, v => if v = 0 then 0 else 1
  | char, v => v
  | _, v => v.bmod (2 ^ 64)

theorem size_repr (t : Target) (ty : IntegerType) : ty.repr.size t = ty.size t := by
  cases ty <;> rfl

end IntegerType

namespace IntegerFields

open IntegerType

/-- An integer that is no value of the type is refused, every other one decodes to what it stands
for. -/
def Documented (ty : IntegerType) (v : Int) (r : Except String Int64) : Prop :=
  (ty.Refused v ∧ ∃ message, r = .error message) ∨
    (¬ ty.Refused v ∧ ∃ w : Int64, r = .ok w ∧ w.toInt = ty.value v)

theorem Documented.ok_iff {ty : IntegerType} {v : Int} {w : Int64} :
    Documented ty v (.ok w) ↔ ¬ ty.Refused v ∧ w.toInt = ty.value v := by
  simp [Documented]

theorem Documented.error_iff {ty : IntegerType} {v : Int} {message : String} :
    Documented ty v (.error message) ↔ ty.Refused v := by
  simp [Documented]

theorem isScalar_iff {v : Int} (hv : 0 ≤ v) : isScalar v = true ↔ v.toNat.isValidChar := by
  simp only [isScalar, Bool.or_eq_true, Bool.and_eq_true, decide_eq_true_eq, Nat.isValidChar]
  omega

theorem ofInt_eq_zero_iff (v : Int) : Int64.ofInt v = 0 ↔ ((2 ^ 64 : Nat) : Int) ∣ v := by
  rw [Int.dvd_iff_bmod_eq_zero, ← Int64.toInt_inj, Int64.toInt_ofInt]
  exact Iff.rfl

/-- Up to eight bytes, only zero is truncated to zero. -/
theorem eq_zero_of_dvd {t : Target} {p : Prim} {v : Int} (hrange : p.InRange t v)
    (hsize : p.size t ≤ 8) (hdvd : ((2 ^ 64 : Nat) : Int) ∣ v) : v = 0 := by
  have hbits : p.bits t ≤ 64 := Nat.mul_le_mul_left 8 hsize
  have hle : 2 ^ p.bits t ≤ 2 ^ 64 := Nat.pow_le_pow_right (by decide) hbits
  have hhalf : 2 ^ (p.bits t - 1) ≤ 2 ^ 63 := Nat.pow_le_pow_right (by decide) (by omega)
  obtain ⟨k, rfl⟩ := hdvd
  unfold Prim.InRange at hrange
  split at hrange
  all_goals omega

section
variable {t : Target} {slice : Str}

theorem documented_prim (p : Prim) :
    Documented (.prim p) (p.fromNeBytes t slice) ((IntegerType.prim p).decode t slice) := by
  rw [IntegerType.decode, Documented.ok_iff]
  exact ⟨id, Int64.toInt_ofInt⟩

theorem documented_bool (h : slice.length = 1) :
    Documented .bool (Prim.u8.fromNeBytes t slice) (IntegerType.bool.decode t slice) := by
  obtain ⟨b, rfl⟩ := List.length_eq_one_iff.mp h
  have hread : Prim.u8.fromNeBytes t [b] = b.toNat := by
    have hsigned : Prim.u8.signed = false := rfl
    rw [Prim.fromNeBytes_eq, hsigned, Prim.unsigned]
    simp [Endian.beNat, Endian.leNat]
  have hzero : ([b] : Str).head? = some 0 ↔ (b.toNat : Int) = 0 := by
    rw [List.head?_cons, Option.some_inj, ← UInt8.toNat_inj, Int.natCast_eq_zero]
    exact Iff.rfl
  rw [IntegerType.decode, Documented.ok_iff, hread, IntegerType.value]
  refine ⟨id, ?_⟩
  by_cases hb : (b.toNat : Int) = 0
  · rw [if_pos hb, if_pos (hzero.mpr hb)]
    rfl
  · rw [if_neg hb, if_neg (mt hzero.mp hb)]
    rfl

theorem documented_char (h : slice.length = 4) :
    Documented .char (Prim.u32.fromNeBytes t slice) (IntegerType.char.decode t slice) := by
  have hlt : Prim.unsigned t slice < 2 ^ 32 := Prim.unsigned_lt (t := t) (p := .u32) h
  have hread : Prim.u32.fromNeBytes t slice = Prim.unsigned t slice := rfl
  have hscalar := isScalar_iff (Int.natCast_nonneg (Prim.unsigned t slice))
  simp only [IntegerType.decode]
  rw [hread]
  split
  · rename_i hvalid
    rw [Documented.ok_iff]
    exact ⟨not_not_intro (hscalar.mp hvalid), Int64.toInt_ofInt_of_le (by omega) (by omega)⟩
  · rename_i hvalid
    rw [Documented.error_iff]
    exact mt hscalar.mpr hvalid

/-- The zero test comes behind the truncation. -/
theorem documented_nonZero_iff (p : Prim) :
    Documented (.nonZero p) (p.fromNeBytes t slice) ((IntegerType.nonZero p).decode t slice) ↔
      (((2 ^ 64 : Nat) : Int) ∣ p.fromNeBytes t slice → p.fromNeBytes t slice = 0) := by
  have hzero := ofInt_eq_zero_iff (p.fromNeBytes t slice)
  simp only [IntegerType.decode]
  split
  · rename_i h
    rw [Documented.error_iff]
    exact (imp_iff_right (hzero.mp h)).symm
  · rename_i h
    have hdvd := mt hzero.mpr h
    rw [Documented.ok_iff]
    refine iff_of_true ⟨?_, Int64.toInt_ofInt⟩ fun hd => absurd hd hdvd
    intro hv
    apply hdvd
    rw [hv]
    exact Int.dvd_zero _

end

/-- The two types whose values are cut before they are compared with zero. -/
theorem wide_or_size (t : Target) (p : Prim) : p = .i128 ∨ p = .u128 ∨ p.size t ≤ 8 := by
  cases p with
  | i128 => exact .inl rfl
  | u128 => exact .inr (.inl rfl)
  | isize | usize =>
    refine .inr (.inr ?_)
    simp only [Prim.size, Target.usizeBytes]
    split <;> omega
  | i8 | i16 | i32 | i64 | u8 | u16 | u32 | u64 => exact .inr (.inr (by simp [Prim.size]))

theorem decode_documented_iff {t : Target} {ty : IntegerType} {slice : Str}
    (h : slice.length = ty.size t) {v : Int} (hv : ty.repr.Stored t slice v) :
    Documented ty v (ty.decode t slice) ↔
      (ty = .nonZero .i128 ∨ ty = .nonZero .u128 → ((2 ^ 64 : Nat) : Int) ∣ v → v = 0) := by
  have hrange := hv.1
  obtain rfl := (Prim.stored_iff (h.trans (size_repr t ty).symm)).mp hv
  cases ty with
  | prim p => exact iff_of_true (documented_prim p) (by simp)
  | bool => exact iff_of_true (documented_bool h) (by simp)
  | char => exact iff_of_true (documented_char h) (by simp)
  | nonZero p =>
    rw [IntegerType.repr] at hrange ⊢
    rw [documented_nonZero_iff]
    constructor
    · exact fun hzero _ => hzero
    · intro hzero hdvd
      rcases wide_or_size t p with rfl | rfl | hsize
      · exact hzero (.inl rfl) hdvd
      · exact hzero (.inr rfl) hdvd
      · exact eq_zero_of_dvd hrange hsize hdvd

/-- For every field type and every buffer with enough bytes: the bytes hold one integer, and
`to_i64` does with it what is documented, except where the integer of a 128-bit `NonZero` type is
not zero and a multiple of `2 ^ 64`. -/
theorem toI64_documented_iff (t : Target) (ty : IntegerType) (buf : Str) (offset : Nat)
    (hbuf : buf.length < 256 ^ t.usizeBytes) (h : offset + ty.size t ≤ buf.length) :
    ∃ v r, (∀ v', ty.repr.Stored t ((buf.drop offset).take (ty.size t)) v' ↔ v' = v) ∧
      (integerToI64 t ty).toI64 buf offset = .ok r ∧
      (Documented ty v r ↔
        (ty = .nonZero .i128 ∨ ty = .nonZero .u128 → ((2 ^ 64 : Nat) : Int) ∣ v → v = 0)) := by
  have hlen : ((buf.drop offset).take (ty.size t)).length = ty.size t := by
    rw [List.length_take, List.length_drop]
    omega
  have hstored : ∀ {v}, ty.repr.Stored t ((buf.drop offset).take (ty.size t)) v ↔
      v = ty.repr.fromNeBytes t ((buf.drop offset).take (ty.size t)) :=
    Prim.stored_iff (hlen.trans (size_repr t ty).symm)
  exact ⟨_, _, fun _ => hstored, BufSound.toI64_inside hbuf h,
    decode_documented_iff hlen (hstored.mpr rfl)⟩

/-- A 64-bit target with the least significant byte first. -/
def littleEndian64 : Target := { bigEndian := false, pointerWidth32 := false, overflowChecks := true }

/-- The bytes of `2 ^ 64 + 5`: of a 16-byte integer that is no multiple of `2 ^ 64`, the low half is
what is documented. -/
theorem toI64_documented_wide :
    ([5, 0, 0, 0, 0, 0, 0, 0, 1, 0, 0, 0, 0, 0, 0, 0] : Str).length <
      256 ^ littleEndian64.usizeBytes ∧
    (integerToI64 littleEndian64 (.nonZero .u128)).toI64
      [5, 0, 0, 0, 0, 0, 0, 0, 1, 0, 0, 0, 0, 0, 0, 0] 0 = .ok (.ok 5) ∧
    Documented (.nonZero .u128) (2 ^ 64 + 5) (.ok 5) := by
  have hbuf : ([5, 0, 0, 0, 0, 0, 0, 0, 1, 0, 0, 0, 0, 0, 0, 0] : Str).length <
      256 ^ littleEndian64.usizeBytes := by decide
  have hexec : (integerToI64 littleEndian64 (.nonZero .u128)).toI64
      [5, 0, 0, 0, 0, 0, 0, 0, 1, 0, 0, 0, 0, 0, 0, 0] 0 = .ok (.ok 5) := rfl
  have hstored : Prim.u128.Stored littleEndian64 [5, 0, 0, 0, 0, 0, 0, 0, 1, 0, 0, 0, 0, 0, 0, 0]
      (2 ^ 64 + 5) := ⟨by decide, by decide⟩
  obtain ⟨v, r, honly, hr, hiff⟩ := toI64_documented_iff littleEndian64 (.nonZero .u128)
    [5, 0, 0, 0, 0, 0, 0, 0, 1, 0, 0, 0, 0, 0, 0, 0] 0 hbuf (by decide)
  obtain rfl := (honly _).mp hstored
  cases hexec.symm.trans hr
  exact ⟨hbuf, hexec, hiff.mpr fun _ hdvd => absurd hdvd (by decide)⟩

/-- The bytes of `2 ^ 64` in a field of type `NonZeroU128`. -/
theorem toI64_two_pow_64 :
    ¬ ∀ (t : Target) (ty : IntegerType) (buf : Str) (offset : Nat),
      buf.length < 256 ^ t.usizeBytes → offset + ty.size t ≤ buf.length →
        ∀ v, ty.repr.Stored t ((buf.drop offset).take (ty.size t)) v →
          ∃ r, (integerToI64 t ty).toI64 buf offset = .ok r ∧ Documented ty v r := by
  intro h
  have hstored : Prim.u128.Stored littleEndian64 [0, 0, 0, 0, 0, 0, 0, 0, 1, 0, 0, 0, 0, 0, 0, 0]
      (2 ^ 64) := ⟨by decide, by decide⟩
  obtain ⟨r, hexec, hr⟩ := h littleEndian64 (.nonZero .u128)
    [0, 0, 0, 0, 0, 0, 0, 0, 1, 0, 0, 0, 0, 0, 0, 0] 0 (by decide) (by decide) (2 ^ 64) hstored
  have hzero : (integerToI64 littleEndian64 (.nonZero .u128)).toI64
      [0, 0, 0, 0, 0, 0, 0, 0, 1, 0, 0, 0, 0, 0, 0, 0] 0 =
        .ok (.error "NonZeroU128 cannot be zero") := rfl
  rw [hzero] at hexec
  cases hexec
  have hv : (2 ^ 64 : Int) = 0 := Documented.error_iff.mp hr
  exact absurd hv (by decide)

end IntegerFields

end ExtKtrace.TpLexer
