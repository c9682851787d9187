import Mathlib.Algebra.GroupWithZero.Nat
import Mathlib.Data.List.Basic

/-!
# Structures in the C layout

Fields lie in the order of their declaration, each at the next place that its alignment allows. The
bytes of a structure are those of its fields with padding between them and behind them.
-/

namespace ExtKtrace.ReprC
set_option autoImplicit false

structure Shape where
  size : Nat
  align : Nat
  align_pos : 0 < align

theorem four_pos : 0 < 4 := Nat.succ_pos 3

def roundUp (n a : Nat) : Nat := (n + (a - 1)) / a * a

/-- Where the fields lie, from an offset on. -/
def offsets : Nat → List Shape → List Nat
  | _, [] => []
  | off, s :: ss => roundUp off s.align :: offsets (roundUp off s.align + s.size) ss

/-- Where the last field ends. -/
def stop : Nat → List Shape → Nat
  | off, [] => off
  | off, s :: ss => stop (roundUp off s.align + s.size) ss

def structAlign (ss : List Shape) : Nat := (ss.map Shape.align).foldr max 1

theorem structAlign_pos (ss : List Shape) : 0 < structAlign ss := by
  induction ss with
  | nil => exact Nat.one_pos
  | cons s ss ih => exact Nat.lt_of_lt_of_le ih (Nat.le_max_right _ _)

def structShape (ss : List Shape) : Shape where
  size := roundUp (stop 0 ss) (structAlign ss)
  align := structAlign ss
  align_pos := structAlign_pos ss

def slice (buf : List UInt8) (offset size : Nat) : List UInt8 := (buf.drop offset).take size

/-- The bytes at the fields of a structure that begins at `base`. -/
def readFields (base : Nat) (buf : List UInt8) (ss : List Shape) : List (List UInt8) :=
  List.zipWith (fun off s => slice buf (base + off) s.size) (offsets 0 ss) ss

section Image
-- The bytes that stand where no field is.
variable (pad : Nat → UInt8)

def fill (start stop : Nat) : List UInt8 := (List.range' start (stop - start)).map pad

/-- The fields with the padding in front of each, from an offset on. -/
def image : Nat → List (Shape × List UInt8) → List UInt8
  | _, [] => []
  | off, (s, bytes) :: fields =>
    fill pad off (roundUp off s.align) ++ bytes ++ image (roundUp off s.align + s.size) fields

/-- The bytes of a structure. -/
def structImage (fields : List (Shape × List UInt8)) : List UInt8 :=
  let ss := fields.map Prod.fst
  image pad 0 fields ++ fill pad (stop 0 ss) (structShape ss).size

end Image

/-- Every field has bytes of its size. -/
def Fits (fields : List (Shape × List UInt8)) : Prop := ∀ f ∈ fields, f.2.length = f.1.size

theorem le_roundUp {a : Nat} (ha : 0 < a) (n : Nat) : n ≤ roundUp n a := by
  have hdiv := Nat.div_add_mod (n + (a - 1)) a
  have hmod := Nat.mod_lt (n + (a - 1)) ha
  rw [Nat.mul_comm] at hdiv
  unfold roundUp
  omega

theorem roundUp_eq_self {n a : Nat} (ha : 0 < a) (h : a ∣ n) : roundUp n a = n := by
  obtain ⟨k, rfl⟩ := h
  have hdiv : (a * k + (a - 1)) / a = k := by
    rw [Nat.mul_comm, Nat.add_comm, Nat.add_mul_div_right _ _ ha,
      Nat.div_eq_of_lt (by omega), Nat.zero_add]
  rw [roundUp, hdiv, Nat.mul_comm]

theorem length_fill (pad : Nat → UInt8) (start stop : Nat) :
    (fill pad start stop).length = stop - start := by
  simp [fill]

/-- A structure of two fields. -/
theorem structImage_pair (pad : Nat → UInt8) (s₁ s₂ : Shape) (b₁ b₂ : List UInt8) :
    structImage pad [(s₁, b₁), (s₂, b₂)] =
      b₁ ++ fill pad s₁.size (roundUp s₁.size s₂.align) ++ b₂ ++
        fill pad (roundUp s₁.size s₂.align + s₂.size) (structShape [s₁, s₂]).size := by
  have hzero : roundUp 0 s₁.align = 0 := roundUp_eq_self s₁.align_pos (Nat.dvd_zero _)
  have hnone : fill pad 0 0 = [] := rfl
  simp only [structImage, image, stop, List.map_cons, List.map_nil, hzero, hnone, Nat.zero_add,
    List.nil_append, List.append_nil, List.append_assoc]

theorem slice_append (pre bytes post : List UInt8) :
    slice (pre ++ bytes ++ post) pre.length bytes.length = bytes := by
  rw [slice, List.append_assoc, List.drop_left, List.take_left]

/-- A structure does not end before it begins. -/
theorem le_stop (off : Nat) (ss : List Shape) : off ≤ stop off ss := by
  induction ss generalizing off with
  | nil => exact Nat.le_refl off
  | cons s ss ih =>
    have hround := le_roundUp s.align_pos off
    exact Nat.le_trans (by omega) (ih (roundUp off s.align + s.size))

variable {pad : Nat → UInt8}

theorem length_image {fields : List (Shape × List UInt8)} (h : Fits fields) (off : Nat) :
    (image pad off fields).length = stop off (fields.map Prod.fst) - off := by
  induction fields generalizing off with
  | nil => exact (Nat.sub_self off).symm
  | cons f fields ih =>
    obtain ⟨s, bytes⟩ := f
    have hbytes : bytes.length = s.size := h (s, bytes) List.mem_cons_self
    have hround := le_roundUp s.align_pos off
    have hle := le_stop (roundUp off s.align + s.size) (fields.map Prod.fst)
    have hlen := ih (fun g hg => h g (List.mem_cons_of_mem _ hg)) (roundUp off s.align + s.size)
    simp only [image, stop, List.map_cons, List.length_append, length_fill, hlen, hbytes]
    omega

theorem length_structImage {fields : List (Shape × List UInt8)} (h : Fits fields) :
    (structImage pad fields).length = (structShape (fields.map Prod.fst)).size := by
  have hlen := @length_image pad _ h 0
  have hround := le_roundUp (structAlign_pos (fields.map Prod.fst)) (stop 0 (fields.map Prod.fst))
  rw [structImage, List.length_append, hlen, length_fill]
  show stop 0 _ - 0 + (roundUp (stop 0 _) _ - stop 0 _) = roundUp (stop 0 _) _
  omega

theorem zipWith_slice_image {fields : List (Shape × List UInt8)} (h : Fits fields)
    (pre post : List UInt8) {base off : Nat} (hpre : pre.length = base + off) :
    List.zipWith (fun o s => slice (pre ++ image pad off fields ++ post) (base + o) s.size)
      (offsets off (fields.map Prod.fst)) (fields.map Prod.fst) = fields.map Prod.snd := by
  induction fields generalizing off pre with
  | nil => rfl
  | cons f fields ih =>
    obtain ⟨s, bytes⟩ := f
    have hbytes : bytes.length = s.size := h (s, bytes) List.mem_cons_self
    have hround := le_roundUp s.align_pos off
    have hfill := length_fill pad off (roundUp off s.align)
    have hstart : (pre ++ fill pad off (roundUp off s.align)).length =
        base + roundUp off s.align := by
      rw [List.length_append, hpre, hfill]
      omega
    have hnext : (pre ++ fill pad off (roundUp off s.align) ++ bytes).length =
        base + (roundUp off s.align + s.size) := by
      rw [List.length_append, hstart, hbytes]
      omega
    have hrest := ih (fun g hg => h g (List.mem_cons_of_mem _ hg)) _ hnext
    have hfield := slice_append (pre ++ fill pad off (roundUp off s.align)) bytes
      (image pad (roundUp off s.align + s.size) fields ++ post)
    rw [hstart, hbytes] at hfield
    simp only [image, offsets, List.map_cons, List.zipWith_cons_cons, List.append_assoc] at *
    rw [hfield, hrest]

/-- A structure inside a buffer is read back field by field. -/
theorem readFields_image {fields : List (Shape × List UInt8)} (h : Fits fields)
    (pre post : List UInt8) :
    readFields pre.length (pre ++ structImage pad fields ++ post) (fields.map Prod.fst) =
      fields.map Prod.snd := by
  have hread := @zipWith_slice_image pad _ h pre
    (fill pad (stop 0 (fields.map Prod.fst)) (structShape (fields.map Prod.fst)).size ++ post)
    pre.length 0 rfl
  rw [readFields, structImage]
  simp only [List.append_assoc] at *
  exact hread

/-- The fields of what is behind the first bytes. -/
theorem readFields_drop (n : Nat) (buf : List UInt8) (ss : List Shape) :
    readFields 0 (buf.drop n) ss = readFields n buf ss := by
  have hslice : ∀ off size, slice (buf.drop n) (0 + off) size = slice buf (n + off) size := by
    intro off size
    rw [slice, slice, List.drop_drop, Nat.zero_add]
  simp only [readFields, hslice]

end ExtKtrace.ReprC
