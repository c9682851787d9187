import ExtKtrace.Lib.Machine
import ExtKtrace.Lib.Slots
import ExtKtrace.Bpf.Array

/-!
# The elements of an array map

An array of values is what the map has to be. It is one exactly when the size of all values is a
32-bit number: beyond that the products which size the storage and place the elements wrap.
-/

namespace ExtKtrace.Bpf.ArrayElements
set_option autoImplicit false

inductive Op where
  | lookup (key : Bytes)
  | update (key value : Bytes) (flags : UInt64)

inductive Answer where
  | found (r : Except BpfError (Option Bytes))
  | done (r : Except BpfError Unit)

def step (m : ArrayMap) : Op → Option (Answer × ArrayMap)
  | .lookup key => ((ArrayMap.lookupElem key).exec m).map (Prod.map .found id)
  | .update key value flags => ((ArrayMap.updateElem key value flags).exec m).map (Prod.map .done id)

/-- Why an update is refused. -/
def refusal (mapMeta : BpfMapMeta) (key value : Bytes) (flags : UInt64) : Option BpfError :=
  if key.length ≠ 4 ∨ value.length ≠ mapMeta.valueSize.toNat then some .EINVAL
  else if 8 ≤ flags.toNat ∨ flags.toNat.testBit 2 then some .EINVAL
  else if flags.toNat.testBit 0 then some .EEXIST
  else if mapMeta.maxEntries ≤ u32FromNeBytes key then some .EINVAL
  else none

/-- An array of values under an index; a refused call changes nothing. -/
def spec (mapMeta : BpfMapMeta) (values : UInt32 → Bytes) : Op → Answer × (UInt32 → Bytes)
  | .lookup key =>
    (.found (if key.length ≠ 4 ∨ mapMeta.maxEntries ≤ u32FromNeBytes key then .error .EINVAL
      else .ok (some (values (u32FromNeBytes key)))), values)
  | .update key value flags =>
    match refusal mapMeta key value flags with
    | some e => (.done (.error e), values)
    | none => (.done (.ok ()), Function.update values (u32FromNeBytes key) value)

def zeros (mapMeta : BpfMapMeta) : UInt32 → Bytes :=
  fun _ => List.replicate mapMeta.valueSize.toNat 0

/-- The products and sums of `ArrayMapData`, as numbers. -/
structure NoOverflow (mapMeta : BpfMapMeta) : Prop where
  totalSize : mapMeta.valueSize.toNat * mapMeta.maxEntries.toNat < 2 ^ 32
  start : ∀ i < mapMeta.maxEntries, i.toNat * mapMeta.valueSize.toNat < 2 ^ 32
  stop : ∀ i < mapMeta.maxEntries,
    i.toNat * mapMeta.valueSize.toNat + mapMeta.valueSize.toNat < 2 ^ 32

/-- Every element can be sliced, lies inside the range of all values and has its bytes to
itself. -/
def RangesApart (address : Nat) (m : ArrayMap) : Prop :=
  ∃ all, m.mapValuesPtrRange address = .ok all ∧
    ∀ i < m.maxEntries, ∃ r, m.data.range i = some r ∧
      all.1 ≤ address + r.1 ∧ address + r.2 ≤ all.2 ∧
      ∀ j < m.maxEntries, i ≠ j → ∀ r', m.data.range j = some r' → r.2 ≤ r'.1 ∨ r'.2 ≤ r.1

/-- No sequence of calls panics, each is answered as the array of values answers it, and the
elements stay apart. -/
def KeepsValues (mapMeta : BpfMapMeta) (address : Nat) (m : ArrayMap) : Prop :=
  ∀ ops, ∃ m', Machine.run step m ops =
      some ((Machine.specRun (spec mapMeta) (zeros mapMeta) ops).1, m') ∧ RangesApart address m'

/-- The size of all values is a 32-bit number. -/
def Fits (mapMeta : BpfMapMeta) : Prop :=
  mapMeta.valueSize.toNat * mapMeta.maxEntries.toNat < 2 ^ 32

instance (mapMeta : BpfMapMeta) : Decidable (Fits mapMeta) := inferInstanceAs (Decidable (_ < _))

section Fits
variable {mapMeta : BpfMapMeta} {i : UInt32}

theorem Fits.stop_lt (h : Fits mapMeta) (hi : i < mapMeta.maxEntries) :
    i.toNat * mapMeta.valueSize.toNat + mapMeta.valueSize.toNat < 2 ^ 32 :=
  Nat.lt_of_le_of_lt (Slots.stop_le_of_lt (UInt32.lt_iff_toNat_lt.mp hi)) h

theorem Fits.start_lt (h : Fits mapMeta) (hi : i < mapMeta.maxEntries) :
    i.toNat * mapMeta.valueSize.toNat < 2 ^ 32 :=
  Nat.lt_of_le_of_lt (Nat.le_add_right _ _) (h.stop_lt hi)

theorem Fits.noOverflow (h : Fits mapMeta) : NoOverflow mapMeta where
  totalSize := h
  start _ hi := h.start_lt hi
  stop _ hi := h.stop_lt hi

end Fits

/-- What the calls keep: the storage is that of the array of values. -/
structure Holds (mapMeta : BpfMapMeta) (m : ArrayMap) (values : UInt32 → Bytes) : Prop where
  valueSize : m.valueSize = mapMeta.valueSize
  maxEntries : m.maxEntries = mapMeta.maxEntries
  elemSize : m.data.elemSize = mapMeta.valueSize
  length : m.data.data.length = mapMeta.valueSize.toNat * mapMeta.maxEntries.toNat
  slot : ∀ i < mapMeta.maxEntries,
    Slots.slot mapMeta.valueSize.toNat m.data.data i.toNat = values i

namespace Holds
variable {mapMeta : BpfMapMeta} {m : ArrayMap} {values : UInt32 → Bytes} {i : UInt32}

theorem stop_le (h : Holds mapMeta m values) (hi : i < mapMeta.maxEntries) :
    i.toNat * mapMeta.valueSize.toNat + mapMeta.valueSize.toNat ≤ m.data.data.length := by
  rw [h.length]
  exact Slots.stop_le_of_lt (UInt32.lt_iff_toNat_lt.mp hi)

theorem range_eq (h : Holds mapMeta m values) (hfits : Fits mapMeta)
    (hi : i < mapMeta.maxEntries) : m.data.range i =
      some (i.toNat * mapMeta.valueSize.toNat,
        i.toNat * mapMeta.valueSize.toNat + mapMeta.valueSize.toNat) := by
  have hstart : (i * mapMeta.valueSize).toNat = i.toNat * mapMeta.valueSize.toNat := by
    rw [UInt32.toNat_mul]
    exact Nat.mod_eq_of_lt (hfits.start_lt hi)
  have hstop : (i * mapMeta.valueSize + mapMeta.valueSize).toNat =
      i.toNat * mapMeta.valueSize.toNat + mapMeta.valueSize.toNat := by
    rw [UInt32.toNat_add, hstart]
    exact Nat.mod_eq_of_lt (hfits.stop_lt hi)
  have hle : i * mapMeta.valueSize ≤ i * mapMeta.valueSize + mapMeta.valueSize := by
    rw [UInt32.le_iff_toNat_le, hstart, hstop]
    exact Nat.le_add_right _ _
  have hlen := h.stop_le hi
  simp only [ArrayMapData.range, h.elemSize]
  rw [if_pos ⟨hle, hstop ▸ hlen⟩, hstart, hstop]

theorem index_eq (h : Holds mapMeta m values) (hfits : Fits mapMeta)
    (hi : i < mapMeta.maxEntries) : m.data.index i = some (values i) := by
  rw [ArrayMapData.index, h.range_eq hfits hi, ← h.slot i hi]
  rfl

theorem indexMut_eq (h : Holds mapMeta m values) (hfits : Fits mapMeta)
    (hi : i < mapMeta.maxEntries) {value : Bytes}
    (hvalue : value.length = mapMeta.valueSize.toNat) : m.data.indexMut i value =
      some { m.data with
        data := Slots.setSlot mapMeta.valueSize.toNat m.data.data i.toNat value } := by
  have hcopy : copyFromSlice (Slots.slot mapMeta.valueSize.toNat m.data.data i.toNat) value =
      some value :=
    copyFromSlice_eq_some.mpr ⟨(Slots.length_slot (h.stop_le hi)).trans hvalue.symm, rfl⟩
  rw [Slots.slot] at hcopy
  simp only [ArrayMapData.indexMut, h.range_eq hfits hi, Option.bind_eq_bind, Option.bind_some,
    hcopy]
  rfl

theorem update (h : Holds mapMeta m values) (hi : i < mapMeta.maxEntries) {value : Bytes}
    (hvalue : value.length = mapMeta.valueSize.toNat) :
    Holds mapMeta { m with data := { m.data with
        data := Slots.setSlot mapMeta.valueSize.toNat m.data.data i.toNat value } }
      (Function.update values i value) where
  valueSize := h.valueSize
  maxEntries := h.maxEntries
  elemSize := h.elemSize
  length := (Slots.length_setSlot (h.stop_le hi) hvalue).trans h.length
  slot j hj := by
    by_cases hij : i = j
    · subst hij
      rw [Function.update_self]
      exact Slots.slot_setSlot_self (h.stop_le hi) hvalue
    · rw [Function.update_of_ne (Ne.symm hij), ← h.slot j hj]
      exact Slots.slot_setSlot_of_ne (h.stop_le hi) hvalue fun heq => hij (UInt32.toNat_inj.mp heq)

theorem rangesApart (h : Holds mapMeta m values) (hfits : Fits mapMeta) (address : Nat) :
    RangesApart address m := by
  refine ⟨_, rfl, fun i hi => ?_⟩
  rw [h.maxEntries] at hi ⊢
  refine ⟨_, h.range_eq hfits hi, Nat.le_add_right _ _,
    Nat.add_le_add_left (h.stop_le hi) address, ?_⟩
  intro j hj hij r' hr'
  rw [h.range_eq hfits hj] at hr'
  cases hr'
  exact Slots.apart_of_ne fun heq => hij (UInt32.toNat_inj.mp heq)

end Holds

/-- Each call is answered as the array of values answers it. -/
theorem step_refines {mapMeta : BpfMapMeta} (hfits : Fits mapMeta) :
    Machine.Refines (Holds mapMeta) step (spec mapMeta) := by
  intro m values op h
  cases op with
  | lookup key =>
    have hexec := ArrayMap.exec_lookupElem m key
    rw [h.maxEntries] at hexec
    refine ⟨m, ?_, h⟩
    by_cases hbad : key.length ≠ 4 ∨ mapMeta.maxEntries ≤ u32FromNeBytes key
    · rw [if_pos hbad] at hexec
      rw [step, hexec, spec, if_pos hbad]
      rfl
    · obtain ⟨-, hin⟩ := not_or.mp hbad
      rw [if_neg hbad, h.index_eq hfits (UInt32.not_le.mp hin)] at hexec
      rw [step, hexec, spec, if_neg hbad]
      rfl
  | update key value flags =>
    have hexec := ArrayMap.exec_updateElem m key value flags
    rw [h.maxEntries, h.valueSize] at hexec
    have hrefused : ∀ e, refusal mapMeta key value flags = some e →
        (ArrayMap.updateElem key value flags).exec m = some (.error e, m) := by
      intro e he
      rw [hexec]
      unfold refusal at he
      split_ifs at he ⊢ <;> cases he <;> rfl
    cases hr : refusal mapMeta key value flags with
    | some e =>
      rw [spec, hr]
      exact ⟨m, by rw [step, hrefused e hr]; rfl, h⟩
    | none =>
      unfold refusal at hr
      split_ifs at hr with hargs hflags hnoexist hout
      rw [if_neg hargs, if_neg hflags, if_neg hnoexist, if_neg hout] at hexec
      have hi : u32FromNeBytes key < mapMeta.maxEntries := UInt32.not_le.mp hout
      have hvalue : value.length = mapMeta.valueSize.toNat :=
        not_not.mp (not_or.mp hargs).2
      rw [h.indexMut_eq hfits hi hvalue] at hexec
      have hspec : spec mapMeta values (.update key value flags) =
          (.done (.ok ()), Function.update values (u32FromNeBytes key) value) := by
        rw [spec, refusal, if_neg hargs, if_neg hflags, if_neg hnoexist, if_neg hout]
      rw [hspec]
      refine ⟨_, ?_, h.update hi hvalue⟩
      rw [step, hexec]
      simp only [Option.map_some, h.valueSize, h.maxEntries]
      rfl

theorem new_eq {mapMeta : BpfMapMeta} {m : ArrayMap} (hnew : ArrayMap.new mapMeta = .ok m) :
    mapMeta.valueSize ≠ 0 ∧ mapMeta.maxEntries ≠ 0 ∧
      m = ⟨.new mapMeta.valueSize mapMeta.maxEntries, mapMeta.valueSize, mapMeta.maxEntries⟩ := by
  unfold ArrayMap.new at hnew
  split at hnew
  · cases hnew
  · rename_i hargs
    cases hnew
    exact ⟨fun h => hargs (.inl h), fun h => hargs (.inr (.inl h)), rfl⟩

theorem new_holds {mapMeta : BpfMapMeta} {m : ArrayMap} (hnew : ArrayMap.new mapMeta = .ok m)
    (hfits : Fits mapMeta) : Holds mapMeta m (zeros mapMeta) := by
  obtain ⟨-, -, rfl⟩ := new_eq hnew
  have hlen : (mapMeta.valueSize * mapMeta.maxEntries).toNat =
      mapMeta.valueSize.toNat * mapMeta.maxEntries.toNat := by
    rw [UInt32.toNat_mul]
    exact Nat.mod_eq_of_lt hfits
  refine ⟨rfl, rfl, rfl, ?_, fun i hi => ?_⟩
  · simp only [ArrayMapData.new, List.length_replicate, hlen]
  · simp only [ArrayMapData.new, zeros, hlen]
    exact Slots.slot_replicate (Slots.stop_le_of_lt (UInt32.lt_iff_toNat_lt.mp hi))

theorem keepsValues_of_fits {mapMeta : BpfMapMeta} {m : ArrayMap}
    (hnew : ArrayMap.new mapMeta = .ok m) (hfits : Fits mapMeta) (address : Nat) :
    KeepsValues mapMeta address m := by
  intro ops
  obtain ⟨m', hrun, hm'⟩ := (step_refines hfits).run ops (new_holds hnew hfits)
  exact ⟨m', hrun, hm'.rangesApart hfits address⟩

/-- The element that the end of the 32-bit numbers falls into. -/
def lastIndex (mapMeta : BpfMapMeta) : UInt32 := .ofNat ((2 ^ 32 - 1) / mapMeta.valueSize.toNat)

/-- A release build cannot slice that element: its end wraps to before its start. -/
theorem range_lastIndex {mapMeta : BpfMapMeta} {m : ArrayMap}
    (hnew : ArrayMap.new mapMeta = .ok m) (hfits : ¬ Fits mapMeta) :
    lastIndex mapMeta < mapMeta.maxEntries ∧ m.data.range (lastIndex mapMeta) = none := by
  obtain ⟨hsize, -, rfl⟩ := new_eq hnew
  have hpos : 0 < mapMeta.valueSize.toNat := UInt32.pos_iff_ne_zero.mpr hsize
  have hlt := mapMeta.valueSize.toNat_lt
  have hlast : (lastIndex mapMeta).toNat = (2 ^ 32 - 1) / mapMeta.valueSize.toNat := by
    rw [lastIndex, UInt32.toNat_ofNat']
    exact Nat.mod_eq_of_lt (Nat.lt_of_le_of_lt (Nat.div_le_self _ _) (by decide))
  -- the element holds the last byte that a 32-bit number can address
  have hstart : (lastIndex mapMeta).toNat * mapMeta.valueSize.toNat ≤ 2 ^ 32 - 1 := by
    rw [hlast]
    exact Nat.div_mul_le_self _ _
  have hstop : 2 ^ 32 - 1 <
      (lastIndex mapMeta).toNat * mapMeta.valueSize.toNat + mapMeta.valueSize.toNat := by
    rw [hlast]
    exact Nat.lt_div_mul_add hpos
  constructor
  · rw [UInt32.lt_iff_toNat_lt]
    refine Nat.lt_of_mul_lt_mul_left (a := mapMeta.valueSize.toNat) ?_
    rw [Nat.mul_comm]
    exact Nat.lt_of_lt_of_le (Nat.lt_of_le_of_lt hstart (by decide)) (Nat.le_of_not_lt hfits)
  · have hwrap : ¬ lastIndex mapMeta * mapMeta.valueSize ≤
        lastIndex mapMeta * mapMeta.valueSize + mapMeta.valueSize := by
      rw [UInt32.le_iff_toNat_le, UInt32.toNat_add, UInt32.toNat_mul,
        Nat.mod_eq_of_lt (Nat.lt_of_le_of_lt hstart (by decide))]
      omega
    simp only [ArrayMapData.range, ArrayMapData.new]
    exact if_neg fun h => hwrap h.1

/-- A release build keeps the elements apart only where the arithmetic does not wrap. -/
theorem keepsValues_iff {mapMeta : BpfMapMeta} {m : ArrayMap}
    (hnew : ArrayMap.new mapMeta = .ok m) (address : Nat) :
    KeepsValues mapMeta address m ↔ Fits mapMeta := by
  refine ⟨fun h => ?_, fun hfits => keepsValues_of_fits hnew hfits address⟩
  by_contra hfits
  obtain ⟨hin, hnone⟩ := range_lastIndex hnew hfits
  obtain ⟨-, -, rfl⟩ := new_eq hnew
  obtain ⟨m', hrun, all, -, hranges⟩ := h []
  cases hrun
  obtain ⟨r, hr, -⟩ := hranges _ hin
  exact nomatch hnone.symm.trans hr

/-- For a map that was created: no index or size overflows, no call panics, every sequence of
calls is answered as an array of values answers it and the elements stay apart, exactly when the
size of all values is a 32-bit number. -/
theorem elements_apart_iff {mapMeta : BpfMapMeta} {m : ArrayMap}
    (hnew : ArrayMap.new mapMeta = .ok m) (address : Nat) :
    NoOverflow mapMeta ∧ KeepsValues mapMeta address m ↔ Fits mapMeta := by
  constructor
  · rintro ⟨-, hkeeps⟩
    exact (keepsValues_iff hnew address).mp hkeeps
  · intro hfits
    exact ⟨hfits.noOverflow, (keepsValues_iff hnew address).mpr hfits⟩

/-- The largest array of values of 64 KiB. -/
def largest : BpfMapMeta := ⟨4, 65536, 65535, 0⟩

theorem largest_apart : ∃ m, ArrayMap.new largest = .ok m ∧
    NoOverflow largest ∧ KeepsValues largest 4096 m :=
  ⟨_, rfl, (elements_apart_iff rfl 4096).mpr (by decide)⟩

/-- With two values more the first and the last element are the same bytes. -/
def wrapped : BpfMapMeta := ⟨4, 65536, 65537, 0⟩

theorem wrapped_aliases : ∃ m, ArrayMap.new wrapped = .ok m ∧
    m.data.range 0 = some (0, 65536) ∧ m.data.range 65536 = some (0, 65536) ∧
      ¬ KeepsValues wrapped 4096 m ∧ ¬ NoOverflow wrapped := by
  have hnew : ArrayMap.new wrapped = .ok ⟨.new 65536 65537, 65536, 65537⟩ := rfl
  have hlen : (ArrayMapData.new 65536 65537).data.length = 65536 := by
    simp only [ArrayMapData.new, List.length_replicate]
    decide
  refine ⟨_, hnew, ?_, ?_, ?_, fun h => absurd h.totalSize (by decide)⟩
  · rw [ArrayMapData.range, hlen]
    decide
  · rw [ArrayMapData.range, hlen]
    decide
  · rw [keepsValues_iff hnew]
    decide

end ExtKtrace.Bpf.ArrayElements
