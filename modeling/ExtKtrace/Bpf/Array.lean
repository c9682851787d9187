import ExtKtrace.Bpf.Map
import ExtKtrace.Lib.Endian

/-!
# The array maps

The elements lie one after another in one byte vector. Index arithmetic is that of a release
build: `u32` products and sums wrap, and a range outside the vector panics.
-/

namespace ExtKtrace.Bpf
set_option autoImplicit false

structure ArrayMapData where
  elemSize : UInt32
  data : Bytes

namespace ArrayMapData

def new (elemSize maxEntries : UInt32) : ArrayMapData where
  elemSize := elemSize
  data := List.replicate (elemSize * maxEntries).toNat 0

/-- Where an element begins and ends; `none` where slicing panics. -/
def range (d : ArrayMapData) (index : UInt32) : Option (Nat × Nat) :=
  let start := index * d.elemSize
  let stop := start + d.elemSize
  if start ≤ stop ∧ stop.toNat ≤ d.data.length then some (start.toNat, stop.toNat) else none

def index (d : ArrayMapData) (i : UInt32) : Option Bytes :=
  (d.range i).map fun r => (d.data.take r.2).drop r.1

/-- `self.index_mut(i).copy_from_slice(value)`. -/
def indexMut (d : ArrayMapData) (i : UInt32) (value : Bytes) : Option ArrayMapData := do
  let r ← d.range i
  let value ← copyFromSlice ((d.data.take r.2).drop r.1) value
  return { d with data := d.data.take r.1 ++ value ++ d.data.drop r.2 }

end ArrayMapData

/-- `u32::from_ne_bytes` on the little-endian targets. -/
def u32FromNeBytes (bytes : Bytes) : UInt32 := .ofNat (Endian.leNat bytes)

def u32ToNeBytes (n : UInt32) : Bytes := Endian.toLe 4 n.toNat

/-- The loop of `for_each_elem` over `n` indices from `i` on. Here an element counts before
the callback answers. -/
def forEachIndex {γ : Type} (index : UInt32 → Option Bytes) (cb : Bytes → Bytes → γ → Int32 × γ) :
    Nat → UInt32 → UInt32 → γ → Option (UInt32 × γ)
  | 0, _, totalUsed, ctx => some (totalUsed, ctx)
  | n + 1, i, totalUsed, ctx => do
    let value ← index i
    let res := cb (u32ToNeBytes i) value ctx
    if res.1 ≠ 0 then some (totalUsed + 1, res.2)
    else forEachIndex index cb n (i + 1) (totalUsed + 1) res.2

/-- `BpfMapUpdateElemFlags::from_bits(flags).ok_or(EINVAL)`. -/
def knownUpdateFlags (flags : UInt64) : Except BpfError BpfMapUpdateElemFlags :=
  match BpfMapUpdateElemFlags.fromBits flags with
  | none => .error .EINVAL
  | some flags => .ok flags

theorem knownUpdateFlags_eq (flags : UInt64) :
    if 8 ≤ flags.toNat then knownUpdateFlags flags = .error .EINVAL
    else ∃ f, knownUpdateFlags flags = .ok f ∧ f.bits = flags := by
  unfold knownUpdateFlags
  cases hf : BpfMapUpdateElemFlags.fromBits flags with
  | none =>
    rw [if_pos (BpfMapUpdateElemFlags.fromBits_eq_none.mp hf)]
  | some f =>
    have hlt : ¬ 8 ≤ flags.toNat := by
      rw [← BpfMapUpdateElemFlags.fromBits_eq_none, hf]
      simp
    rw [if_neg hlt]
    exact ⟨f, rfl, BpfMapUpdateElemFlags.fromBits_eq_some hf⟩

structure ArrayMap where
  data : ArrayMapData
  valueSize : UInt32
  maxEntries : UInt32

namespace ArrayMap

def new (mapMeta : BpfMapMeta) : Except BpfError ArrayMap :=
  if mapMeta.valueSize = 0 ∨ mapMeta.maxEntries = 0 ∨ mapMeta.keySize ≠ 4 then .error .EINVAL
  else .ok {
    data := .new mapMeta.valueSize mapMeta.maxEntries
    valueSize := mapMeta.valueSize
    maxEntries := mapMeta.maxEntries }

abbrev Method (α : Type) := Call BpfError ArrayMap α

def lookupElem (key : Bytes) : Method (Option Bytes) := do
  let m ← Call.self
  Call.errorIf (key.length ≠ 4) .EINVAL
  let index := u32FromNeBytes key
  Call.errorIf (index ≥ m.maxEntries) .EINVAL
  let value ← Call.orPanic (m.data.index index)
  return some value

def updateElem (key value : Bytes) (flags : UInt64) : Method Unit := do
  let m ← Call.self
  Call.errorIf (key.length ≠ 4 ∨ value.length ≠ m.valueSize.toNat) .EINVAL
  let flags ← Call.ofExcept (knownUpdateFlags flags)
  Call.errorIf (flags.contains BpfMapUpdateElemFlags.BPF_F_LOCK) .EINVAL
  -- the keys of an array map are fixed
  Call.errorIf (flags.contains BpfMapUpdateElemFlags.BPF_NOEXIST) .EEXIST
  let index := u32FromNeBytes key
  Call.errorIf (index ≥ m.maxEntries) .EINVAL
  let data ← Call.orPanic (m.data.indexMut index value)
  Call.update fun m => { m with data := data }

def forEachElem {γ : Type} (cb : Bytes → Bytes → γ → Int32 × γ) (ctx : γ) (flags : UInt64) :
    Method (UInt32 × γ) := do
  let m ← Call.self
  Call.errorIf (flags ≠ 0) .EINVAL
  Call.orPanic (forEachIndex m.data.index cb m.maxEntries.toNat 0 0 ctx)

/-- Returns what the caller's `next_key` buffer holds afterwards. -/
def getNextKey (key : Option Bytes) (nextKey : Bytes) : Method Bytes := do
  let m ← Call.self
  Call.errorIf (nextKey.length ≠ 4) .EINVAL
  match key with
  | none => Call.orPanic (copyFromSlice nextKey (u32ToNeBytes 0))
  | some key =>
    Call.errorIf (key.length ≠ 4) .EINVAL
    let index := u32FromNeBytes key
    Call.errorIf (index ≥ m.maxEntries - 1) .ENOENT
    Call.orPanic (copyFromSlice nextKey (u32ToNeBytes (index + 1)))

/-- An array map is the only kind that can be frozen, and freezing it changes nothing. -/
def freeze : Method Unit := pure ()

/-- The vector lies at `address` and is never moved. -/
def mapValuesPtrRange (m : ArrayMap) (address : Nat) : Except BpfError (Nat × Nat) :=
  .ok (address, address + m.data.data.length)

theorem exec_lookupElem (m : ArrayMap) (key : Bytes) :
    (lookupElem key).exec m =
      if key.length ≠ 4 ∨ m.maxEntries ≤ u32FromNeBytes key then some (.error .EINVAL, m)
      else (m.data.index (u32FromNeBytes key)).map fun value => (.ok (some value), m) := by
  unfold lookupElem
  rw [Call.exec_bind_ok (Call.exec_self m), Call.exec_errorIf_bind, Call.exec_errorIf_bind, ite_or,
    Call.exec_bind, Call.exec_orPanic]
  cases m.data.index (u32FromNeBytes key) <;> rfl

theorem exec_updateElem (m : ArrayMap) (key value : Bytes) (flags : UInt64) :
    (updateElem key value flags).exec m =
      if key.length ≠ 4 ∨ value.length ≠ m.valueSize.toNat then some (.error .EINVAL, m)
      else if 8 ≤ flags.toNat ∨ flags.toNat.testBit 2 then some (.error .EINVAL, m)
      else if flags.toNat.testBit 0 then some (.error .EEXIST, m)
      else if m.maxEntries ≤ u32FromNeBytes key then some (.error .EINVAL, m)
      else (m.data.indexMut (u32FromNeBytes key) value).map fun data =>
        (.ok (), { m with data := data }) := by
  unfold updateElem
  rw [Call.exec_bind_ok (Call.exec_self m), Call.exec_errorIf_bind]
  congr 1
  have hknown := knownUpdateFlags_eq flags
  by_cases hflags : 8 ≤ flags.toNat
  · rw [if_pos hflags] at hknown
    rw [hknown, Call.exec_bind_error (Call.exec_ofExcept _ m), if_pos (Or.inl hflags)]
  rw [if_neg hflags] at hknown
  obtain ⟨f, hf, hbits⟩ := hknown
  obtain ⟨hno, -, hlock⟩ := f.contains_eq_testBit
  rw [hbits] at hno hlock
  rw [hf, Call.exec_bind_ok (Call.exec_ofExcept _ m), Call.exec_errorIf_bind,
    Call.exec_errorIf_bind, Call.exec_errorIf_bind, Call.exec_bind, Call.exec_orPanic]
  simp only [hno, hlock, hflags, false_or]
  cases m.data.indexMut (u32FromNeBytes key) value <;> rfl

theorem exec_forEachElem {γ : Type} (m : ArrayMap) (cb : Bytes → Bytes → γ → Int32 × γ) (ctx : γ)
    (flags : UInt64) : (forEachElem cb ctx flags).exec m =
      if flags ≠ 0 then some (.error .EINVAL, m)
      else (forEachIndex m.data.index cb m.maxEntries.toNat 0 0 ctx).map fun r => (.ok r, m) := by
  unfold forEachElem
  rw [Call.exec_bind_ok (Call.exec_self m), Call.exec_errorIf_bind]
  rfl

end ArrayMap

/-- The values are the file descriptors of perf events, one for each CPU. -/
structure PerfEventArrayMap where
  fds : ArrayMapData
  numCpus : UInt32

namespace PerfEventArrayMap

def new (mapMeta : BpfMapMeta) (numCpus : UInt32) : Except BpfError PerfEventArrayMap :=
  if mapMeta.keySize ≠ 4 ∨ mapMeta.valueSize ≠ 4 ∨ mapMeta.maxEntries ≠ numCpus then .error .EINVAL
  else .ok { fds := .new 4 numCpus, numCpus := numCpus }

abbrev Method (α : Type) := Call BpfError PerfEventArrayMap α

def lookupElem (key : Bytes) : Method (Option Bytes) := do
  let m ← Call.self
  Call.errorIf (key.length ≠ 4) .EINVAL
  let cpuId := u32FromNeBytes key
  Call.errorIf (cpuId ≥ m.numCpus) .EINVAL
  let value ← Call.orPanic (m.fds.index cpuId)
  return some value

def updateElem (key value : Bytes) (flags : UInt64) : Method Unit := do
  let m ← Call.self
  Call.errorIf (key.length ≠ 4 ∨ value.length ≠ 4) .EINVAL
  let flags ← Call.ofExcept (knownUpdateFlags flags)
  Call.errorIf (flags.bits ≠ 0) .EINVAL
  let cpuId := u32FromNeBytes key
  Call.errorIf (cpuId ≥ m.numCpus) .EINVAL
  let fds ← Call.orPanic (m.fds.indexMut cpuId value)
  Call.update fun m => { m with fds := fds }

def deleteElem (key : Bytes) : Method Unit := do
  let m ← Call.self
  Call.errorIf (key.length ≠ 4) .EINVAL
  let cpuId := u32FromNeBytes key
  Call.errorIf (cpuId ≥ m.numCpus) .EINVAL
  let fds ← Call.orPanic (m.fds.indexMut cpuId (List.replicate 4 0))
  Call.update fun m => { m with fds := fds }

def forEachElem {γ : Type} (cb : Bytes → Bytes → γ → Int32 × γ) (ctx : γ) (flags : UInt64) :
    Method (UInt32 × γ) := do
  let m ← Call.self
  Call.errorIf (flags ≠ 0) .EINVAL
  Call.orPanic (forEachIndex m.fds.index cb m.numCpus.toNat 0 0 ctx)

theorem exec_lookupElem (m : PerfEventArrayMap) (key : Bytes) :
    (lookupElem key).exec m =
      if key.length ≠ 4 ∨ m.numCpus ≤ u32FromNeBytes key then some (.error .EINVAL, m)
      else (m.fds.index (u32FromNeBytes key)).map fun value => (.ok (some value), m) := by
  unfold lookupElem
  rw [Call.exec_bind_ok (Call.exec_self m), Call.exec_errorIf_bind, Call.exec_errorIf_bind, ite_or,
    Call.exec_bind, Call.exec_orPanic]
  cases m.fds.index (u32FromNeBytes key) <;> rfl

theorem exec_updateElem (m : PerfEventArrayMap) (key value : Bytes) (flags : UInt64) :
    (updateElem key value flags).exec m =
      if key.length ≠ 4 ∨ value.length ≠ 4 then some (.error .EINVAL, m)
      else if flags ≠ 0 ∨ m.numCpus ≤ u32FromNeBytes key then some (.error .EINVAL, m)
      else (m.fds.indexMut (u32FromNeBytes key) value).map fun fds =>
        (.ok (), { m with fds := fds }) := by
  unfold updateElem
  rw [Call.exec_bind_ok (Call.exec_self m), Call.exec_errorIf_bind]
  congr 1
  have hknown := knownUpdateFlags_eq flags
  by_cases hflags : 8 ≤ flags.toNat
  · have hne : flags ≠ 0 := by
      rintro rfl
      exact absurd hflags (by decide)
    rw [if_pos hflags] at hknown
    rw [hknown, Call.exec_bind_error (Call.exec_ofExcept _ m), if_pos (Or.inl hne)]
  rw [if_neg hflags] at hknown
  obtain ⟨f, hf, hbits⟩ := hknown
  rw [hf, Call.exec_bind_ok (Call.exec_ofExcept _ m), Call.exec_errorIf_bind, hbits,
    Call.exec_errorIf_bind, ite_or, Call.exec_bind, Call.exec_orPanic]
  cases m.fds.indexMut (u32FromNeBytes key) value <;> rfl

theorem exec_deleteElem (m : PerfEventArrayMap) (key : Bytes) :
    (deleteElem key).exec m =
      if key.length ≠ 4 ∨ m.numCpus ≤ u32FromNeBytes key then some (.error .EINVAL, m)
      else (m.fds.indexMut (u32FromNeBytes key) (List.replicate 4 0)).map fun fds =>
        (.ok (), { m with fds := fds }) := by
  unfold deleteElem
  rw [Call.exec_bind_ok (Call.exec_self m), Call.exec_errorIf_bind, Call.exec_errorIf_bind, ite_or,
    Call.exec_bind, Call.exec_orPanic]
  cases m.fds.indexMut (u32FromNeBytes key) (List.replicate 4 0) <;> rfl

theorem exec_forEachElem {γ : Type} (m : PerfEventArrayMap) (cb : Bytes → Bytes → γ → Int32 × γ)
    (ctx : γ) (flags : UInt64) : (forEachElem cb ctx flags).exec m =
      if flags ≠ 0 then some (.error .EINVAL, m)
      else (forEachIndex m.fds.index cb m.numCpus.toNat 0 0 ctx).map fun r => (.ok r, m) := by
  unfold forEachElem
  rw [Call.exec_bind_ok (Call.exec_self m), Call.exec_errorIf_bind]
  rfl

end PerfEventArrayMap

end ExtKtrace.Bpf
