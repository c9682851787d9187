import ExtKtrace.Bpf.Syscalls

/-!
# The helper functions

Each raw helper wraps an operation and packs what it returns into one integer.
-/

namespace ExtKtrace.Bpf
set_option autoImplicit false

def BPF_F_CURRENT_CPU : UInt64 := 4294967295
def DYNPTR_MAX_SIZE : UInt32 := ((1 : UInt32) <<< 24) - 1
def DYNPTR_TYPE_SHIFT : UInt32 := 28
def BPF_DYNPTR_TYPE_RINGBUF : UInt32 := 2

structure BpfDynPtr where
  data : UInt64
  size : UInt32
  offset : UInt32

/-- What the kernel answers during one helper call. -/
structure HelperOps where
  getUnifiedMapFromPtr : UInt64 → Except LinuxError Unit
  currentCpuId : UInt32
  perfEventOutput : (ctx : UInt64) → (fd flags : UInt32) → (data : Bytes) → Except LinuxError Unit
  stringFromUserCstr : UInt64 → Except LinuxError Bytes

abbrev Memory := UInt64 → UInt8

/-- `slice::from_raw_parts`. -/
def Memory.slice (memory : Memory) (ptr : UInt64) (len : Nat) : Bytes :=
  (List.range len).map fun i => memory (ptr + .ofNat i)

def Memory.store (memory : Memory) (ptr : UInt64) (bytes : Bytes) : Memory := fun a =>
  bytes.getD (a - ptr).toNat (memory a)

/-- What helper calls work on: the map that the map pointer names, the memory of the program
and one dynptr variable of it. -/
structure HelperState (crate : LruCrate Bytes Bytes) where
  map : UnifiedMap crate
  memory : Memory
  dynPtr : BpfDynPtr

/-- A callback on the program's memory. -/
abbrev BpfCallBackFn := Bytes → Bytes → (ctx : UInt64) → Memory → Int32 × Memory

section
variable {crate : LruCrate Bytes Bytes}

abbrev Helper (crate : LruCrate Bytes Bytes) (α : Type) := Call LinuxError (HelperState crate) α

/-- A method on the map that the helper was given. -/
def onMap {α : Type} (c : Call BpfError (BpfMap crate) α) : Helper crate α :=
  Call.focus HelperState.map (fun map s => { s with map := map }) (mapMut c)

theorem exec_onMap {α : Type} (c : Call BpfError (BpfMap crate) α) (s : HelperState crate) :
    (onMap c).exec s = (c.exec s.map.innerMap).map fun r =>
      (r.1.mapError BpfError.errno, { s with map := { s.map with innerMap := r.2 } }) := by
  unfold onMap
  rw [Call.exec_focus]
  show ((c.exec s.map.innerMap).map _).map _ = _
  rw [Option.map_map]
  rfl

def storeMemory (ptr : UInt64) (bytes : Bytes) : Helper crate Unit :=
  Call.update fun s => { s with memory := s.memory.store ptr bytes }

/-- `?` on an error of the crate itself. -/
def fail {α : Type} (e : BpfError) : Helper crate α := throw e.errno

def mapUpdateElem (F : HelperOps) (map key value flags : UInt64) : Helper crate Unit := do
  Call.ofExcept (F.getUnifiedMapFromPtr map)
  let s ← Call.self
  let key := s.memory.slice key s.map.mapMeta.keySize.toNat
  let value := s.memory.slice value s.map.mapMeta.valueSize.toNat
  onMap (BpfMap.updateElem F.currentCpuId key value flags)

def mapDeleteElem (F : HelperOps) (map key : UInt64) : Helper crate Unit := do
  Call.ofExcept (F.getUnifiedMapFromPtr map)
  let s ← Call.self
  let key := s.memory.slice key s.map.mapMeta.keySize.toNat
  onMap (BpfMap.deleteElem F.currentCpuId key)

/-- Returns the number of elements visited. -/
def mapForEachElem (F : HelperOps) (map : UInt64) (cb : Option BpfCallBackFn) (ctx flags : UInt64) :
    Helper crate UInt32 :=
  match cb with
  | none => fail .EINVAL
  | some cb => do
    Call.ofExcept (F.getUnifiedMapFromPtr map)
    let s ← Call.self
    let r ← onMap (BpfMap.forEachElem F.currentCpuId (fun key value => cb key value ctx) s.memory
      flags)
    Call.update fun s => { s with memory := r.2 }
    return r.1

def mapPushElem (F : HelperOps) (map value flags : UInt64) : Helper crate Unit := do
  Call.ofExcept (F.getUnifiedMapFromPtr map)
  let s ← Call.self
  onMap (BpfMap.pushElem (s.memory.slice value s.map.mapMeta.valueSize.toNat) flags)

/-- `pop` and `peek` fill the program's buffer. -/
def mapTakeElem (F : HelperOps) (map value : UInt64)
    (take : Bytes → Call BpfError (BpfMap crate) Bytes) :
    Helper crate Unit := do
  Call.ofExcept (F.getUnifiedMapFromPtr map)
  let s ← Call.self
  let bytes ← onMap (take (s.memory.slice value s.map.mapMeta.valueSize.toNat))
  storeMemory value bytes

def mapPopElem (F : HelperOps) (map value : UInt64) : Helper crate Unit :=
  mapTakeElem F map value BpfMap.popElem

def mapPeekElem (F : HelperOps) (map value : UInt64) : Helper crate Unit :=
  mapTakeElem F map value BpfMap.peekElem

/-- The low half of the flags is the index, the high half goes to the kernel. -/
def perfEventOutput (F : HelperOps) (ctx map flags data size : UInt64) : Helper crate Unit := do
  Call.ofExcept (F.getUnifiedMapFromPtr map)
  let s ← Call.self
  let data := s.memory.slice data size.toNat
  let index := flags.toUInt32
  let key := if index = BPF_F_CURRENT_CPU.toUInt32 then F.currentCpuId else index
  match ← onMap (BpfMap.lookupElem F.currentCpuId (u32ToNeBytes key)) with
  | none => fail .ENOENT
  | some fd =>
    Call.errorIf (fd.length ≠ 4) BpfError.EINVAL.errno
    Call.ofExcept (F.perfEventOutput ctx (u32FromNeBytes fd) (flags >>> 32).toUInt32 data)

/-- Returns the length of the string with its terminator. -/
def probeReadUserStr (F : HelperOps) (dst : UInt64) (size : UInt32) (src : UInt64) :
    Helper crate Nat := do
  Call.errorIf (size = 0) BpfError.EINVAL.errno
  let str ← Call.ofExcept (F.stringFromUserCstr src)
  let copyLen := min str.length (size.toNat - 1)
  storeMemory dst (str.take copyLen ++ [0])
  return copyLen + 1

end

/-- `BpfRingbufFlags::from_bits(flags).ok_or(EINVAL)`. -/
def knownRingbufFlags (flags : UInt64) : Except BpfError BpfRingbufFlags :=
  if h : flags &&& ~~~3 = 0 then .ok ⟨flags, h⟩ else .error .EINVAL

section
variable {crate : LruCrate Bytes Bytes}

/-- A method on the ring buffer, or `EINVAL` when the map is of another kind. -/
def downcastRing {α : Type} (c : Call BpfError RingBuf α) : Call BpfError (BpfMap crate) α := fun
  | .ringBuf rb => Call.within .ringBuf c rb
  | m => some (.error .EINVAL, m)

/-- `commit` finds its ring through the sample alone. -/
def commitSample (sample : UInt64) (flags : BpfRingbufFlags) (discard : Bool) :
    Call BpfError (BpfMap crate) Unit := fun
  | .ringBuf rb => Call.within .ringBuf (RingBuf.commit ⟨sample, 1⟩ flags discard) rb
  | _ => none

/-- The body of `bpf_ringbuf_output`. -/
def outputRecord (data : Bytes) (flags : UInt64) : Call BpfError RingBuf Unit := do
  let flags ← Call.ofExcept (knownRingbufFlags flags)
  let dataBuf ← Call.mapErr (fun _ : BpfError => .EAGAIN) (RingBuf.reserve (.ofNat data.length))
  let _ ← Call.orPanic (copyFromSlice (List.replicate dataBuf.len.toNat 0) data)
  Call.update (RingBuf.store dataBuf.ptr data)
  RingBuf.commit dataBuf flags false

def bpfRingbufOutput (F : HelperOps) (map data size flags : UInt64) : Helper crate Unit := do
  Call.ofExcept (F.getUnifiedMapFromPtr map)
  let s ← Call.self
  onMap (downcastRing (outputRecord (s.memory.slice data size.toNat) flags))

/-- `bpf_ringbuf_submit` and `bpf_ringbuf_discard`. -/
def bpfRingbufCommit (discard : Bool) (sample flags : UInt64) : Helper crate Unit := do
  let flags ← Call.ofExcept ((knownRingbufFlags flags).mapError BpfError.errno)
  onMap (commitSample sample flags discard)

def setDynPtr (dynPtr : BpfDynPtr) : Helper crate Unit :=
  Call.update fun s => { s with dynPtr := dynPtr }

def bpfDynptrSetNull : Helper crate Unit := setDynPtr ⟨0, 0, 0⟩

def bpfRingbufReserveDynptr (F : HelperOps) (map : UInt64) (size : UInt32) (flags : UInt64) :
    Helper crate Unit :=
  if flags ≠ 0 then do
    bpfDynptrSetNull
    fail .EINVAL
  else do
    Call.ofExcept (F.getUnifiedMapFromPtr map)
    if size > DYNPTR_MAX_SIZE then
      bpfDynptrSetNull
      fail .EINVAL
    else
      -- a map of another kind leaves the dynptr as it was
      match ← onMap (downcastRing (Call.attempt (RingBuf.reserve size.toUInt64))) with
      | .error (_ : BpfError) =>
        bpfDynptrSetNull
        fail .EINVAL
      | .ok dataBuf =>
        setDynPtr ⟨dataBuf.ptr, size ||| (BPF_DYNPTR_TYPE_RINGBUF <<< DYNPTR_TYPE_SHIFT), 0⟩

/-- `bpf_ringbuf_submit_dynptr` and `bpf_ringbuf_discard_dynptr`: a null dynptr is no error. -/
def bpfRingbufCommitDynptr (discard : Bool) (flags : UInt64) : Helper crate Unit := do
  let s ← Call.self
  if s.dynPtr.data = 0 then return ()
  else
    let flags ← Call.ofExcept ((knownRingbufFlags flags).mapError BpfError.errno)
    onMap (commitSample s.dynPtr.data flags discard)
    bpfDynptrSetNull

/-- `Ok(v) => v as _, Err(e) => e as _`: an error goes out as its discriminant. -/
def toI64 (c : Helper crate Nat) (s : HelperState crate) : Option (Int × HelperState crate) :=
  (c.exec s).map fun r =>
    (match r.1 with
      | .ok v => (v : Int)
      | .error e => (e.code : Int), r.2)

/-- The helpers that return an `i64`. -/
inductive HelperCall where
  | rawMapUpdateElem (map key value flags : UInt64)
  | rawMapDeleteElem (map key : UInt64)
  | rawMapForEachElem (map : UInt64) (cb : Option BpfCallBackFn) (ctx flags : UInt64)
  | rawMapPushElem (map value flags : UInt64)
  | rawMapPopElem (map value : UInt64)
  | rawMapPeekElem (map value : UInt64)
  | rawPerfEventOutput (ctx map flags data size : UInt64)
  | rawProbeReadUserStr (dst : UInt64) (size : UInt32) (src : UInt64)
  | rawBpfRingbufOutput (map data size flags : UInt64)
  | rawBpfRingbufSubmit (sample flags : UInt64)
  | rawBpfRingbufDiscard (sample flags : UInt64)
  | rawBpfRingbufReserveDynptr (map : UInt64) (size : UInt32) (flags : UInt64)
  | rawBpfRingbufSubmitDynptr (flags : UInt64)
  | rawBpfRingbufDiscardDynptr (flags : UInt64)

/-- The operation that a helper wraps; its `Ok` value is what the helper returns then. -/
def HelperCall.wrapped (F : HelperOps) : HelperCall → Helper crate Nat
  | .rawMapUpdateElem map key value flags => (mapUpdateElem F map key value flags).mapOk fun _ => 0
  | .rawMapDeleteElem map key => (mapDeleteElem F map key).mapOk fun _ => 0
  | .rawMapForEachElem map cb ctx flags =>
    (mapForEachElem F map cb ctx flags).mapOk UInt32.toNat
  | .rawMapPushElem map value flags => (mapPushElem F map value flags).mapOk fun _ => 0
  | .rawMapPopElem map value => (mapPopElem F map value).mapOk fun _ => 0
  | .rawMapPeekElem map value => (mapPeekElem F map value).mapOk fun _ => 0
  | .rawPerfEventOutput ctx map flags data size =>
    (perfEventOutput F ctx map flags data size).mapOk fun _ => 0
  | .rawProbeReadUserStr dst size src => probeReadUserStr F dst size src
  | .rawBpfRingbufOutput map data size flags =>
    (bpfRingbufOutput F map data size flags).mapOk fun _ => 0
  | .rawBpfRingbufSubmit sample flags => (bpfRingbufCommit false sample flags).mapOk fun _ => 0
  | .rawBpfRingbufDiscard sample flags => (bpfRingbufCommit true sample flags).mapOk fun _ => 0
  | .rawBpfRingbufReserveDynptr map size flags =>
    (bpfRingbufReserveDynptr F map size flags).mapOk fun _ => 0
  | .rawBpfRingbufSubmitDynptr flags => (bpfRingbufCommitDynptr false flags).mapOk fun _ => 0
  | .rawBpfRingbufDiscardDynptr flags => (bpfRingbufCommitDynptr true flags).mapOk fun _ => 0

def HelperCall.raw (F : HelperOps) (call : HelperCall) :
    HelperState crate → Option (Int × HelperState crate) := toI64 (call.wrapped F)

end

end ExtKtrace.Bpf
