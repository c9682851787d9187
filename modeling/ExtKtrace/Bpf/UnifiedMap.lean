import ExtKtrace.Bpf.HashMap
import ExtKtrace.Bpf.LruMap
import ExtKtrace.Bpf.Queue
import ExtKtrace.Bpf.RingBuf

/-!
# The unified map

A map of any kind behind one set of operations. An operation that a kind does not support
is the default of the trait, `EPERM`; a per-CPU kind works on the copy of the current CPU.
-/

namespace ExtKtrace.Bpf
set_option autoImplicit false

/-- One copy of a map for each CPU. -/
structure PerCpuVariants (α : Type) where
  cells : List α

/-- What the kernel offers for per-CPU data: `create` may fail. -/
structure PerCpuVariantsOps where
  numCpus : UInt32
  creates : Bool

def PerCpuVariantsOps.create {α : Type} (T : PerCpuVariantsOps) (value : α) :
    Except BpfError (PerCpuVariants α) :=
  if T.creates then .ok ⟨List.replicate T.numCpus.toNat value⟩ else .error .EINVAL

namespace PerCpuVariants
variable {ε α β : Type}

/-- A method on `get_mut()`, the copy of the current CPU. -/
def onCpu (cpu : UInt32) (c : Call ε α β) : Call ε (PerCpuVariants α) β := fun s =>
  match s.cells[cpu.toNat]? with
  | none => none
  | some cell => Call.within (fun cell => ⟨s.cells.set cpu.toNat cell⟩) c cell

/-- A method on `force_get_mut(cpu)`, the copy of any CPU: nothing is defined for a CPU that there
is not. -/
def forceGetMut (cpu : UInt32) (c : Call ε α β) : Call ε (PerCpuVariants α) β := onCpu cpu c

/-- The copy of the current CPU has the property. -/
def Current (cpu : UInt32) (P : α → Prop) (s : PerCpuVariants α) : Prop :=
  ∃ cell, s.cells[cpu.toNat]? = some cell ∧ P cell

theorem exec_onCpu {cpu : UInt32} {c : Call ε α β} {s s' : PerCpuVariants α} {r : Except ε β} :
    (onCpu cpu c).exec s = some (r, s') ↔ ∃ cell cell', s.cells[cpu.toNat]? = some cell ∧
      c.exec cell = some (r, cell') ∧ s' = ⟨s.cells.set cpu.toNat cell'⟩ := by
  unfold Call.exec onCpu
  cases hcell : s.cells[cpu.toNat]? with
  | none => simp
  | some cell =>
    simp only [Option.some.injEq, exists_and_left, exists_eq_left']
    exact Call.within_eq_some

theorem fails_onCpu {cpu : UInt32} {c : Call ε α β} {s : PerCpuVariants α} :
    (onCpu cpu c).Fails s ↔ s.Current cpu c.Fails := by
  constructor
  · rintro ⟨e, s', h⟩
    obtain ⟨cell, cell', hcell, hexec, -⟩ := exec_onCpu.mp h
    exact ⟨cell, hcell, e, cell', hexec⟩
  · rintro ⟨cell, hcell, e, cell', hexec⟩
    exact ⟨e, _, exec_onCpu.mpr ⟨cell, cell', hcell, hexec, rfl⟩⟩

theorem map_set {ω : Type} (view : α → ω) {s : PerCpuVariants α} {i : Nat} {cell cell' : α}
    (hcell : s.cells[i]? = some cell) :
    (s.cells.set i cell').map view = s.cells.map view ↔ view cell' = view cell := by
  obtain ⟨hlt, hget⟩ := List.getElem?_eq_some_iff.mp hcell
  rw [List.map_set]
  constructor
  · intro h
    have hi := congrArg (fun l => l[i]?) h
    simpa [hlt, hget] using hi
  · intro h
    rw [h, ← hget, ← List.getElem_map view (h := by simpa using hlt), List.set_getElem_self]

end PerCpuVariants

/-- A map behind the trait object. -/
inductive BpfMap (crate : LruCrate Bytes Bytes) where
  | array (m : ArrayMap)
  | perCpuArray (m : PerCpuVariants ArrayMap)
  | perfEventArray (m : PerfEventArrayMap)
  | hash (m : BpfHashMap)
  | perCpuHash (m : PerCpuVariants BpfHashMap)
  | queue (m : QueueMap)
  | stack (m : StackMap)
  | lruHash (m : LruMap crate)
  | lruPerCpuHash (m : PerCpuVariants (LruMap crate))
  | ringBuf (m : RingBuf)

namespace BpfMap
variable {crate : LruCrate Bytes Bytes}

abbrev Method (crate : LruCrate Bytes Bytes) (α : Type) := Call BpfError (BpfMap crate) α

/-- The default of a trait method. -/
def unsupported {α : Type} (m : BpfMap crate) : Option (Except BpfError α × BpfMap crate) :=
  some (.error .EPERM, m)

open PerCpuVariants in
def lookupElem (cpu : UInt32) (key : Bytes) : Method crate (Option Bytes) := fun
  | .array m => Call.within .array (ArrayMap.lookupElem key) m
  | .perCpuArray m => Call.within .perCpuArray (onCpu cpu (ArrayMap.lookupElem key)) m
  | .perfEventArray m => Call.within .perfEventArray (PerfEventArrayMap.lookupElem key) m
  | .hash m => Call.within .hash (BpfHashMap.lookupElem key) m
  | .perCpuHash m => Call.within .perCpuHash (onCpu cpu (BpfHashMap.lookupElem key)) m
  | .queue m => Call.within .queue (SpecialMap.lookupElem key) m
  | .stack m => Call.within .stack (SpecialMap.lookupElem key) m
  | .lruHash m => Call.within .lruHash (LruMap.lookupElem key) m
  | .lruPerCpuHash m => Call.within .lruPerCpuHash (onCpu cpu (LruMap.lookupElem key)) m
  | .ringBuf m => unsupported (.ringBuf m)

open PerCpuVariants in
def updateElem (cpu : UInt32) (key value : Bytes) (flags : UInt64) : Method crate Unit := fun
  | .array m => Call.within .array (ArrayMap.updateElem key value flags) m
  | .perCpuArray m =>
    Call.within .perCpuArray (onCpu cpu (ArrayMap.updateElem key value flags)) m
  | .perfEventArray m =>
    Call.within .perfEventArray (PerfEventArrayMap.updateElem key value flags) m
  | .hash m => Call.within .hash (BpfHashMap.updateElem key value flags) m
  | .perCpuHash m =>
    Call.within .perCpuHash (onCpu cpu (BpfHashMap.updateElem key value flags)) m
  | .queue m => Call.within .queue (SpecialMap.updateElem key value flags) m
  | .stack m => Call.within .stack (SpecialMap.updateElem key value flags) m
  | .lruHash m => Call.within .lruHash (LruMap.updateElem key value flags) m
  | .lruPerCpuHash m =>
    Call.within .lruPerCpuHash (onCpu cpu (LruMap.updateElem key value flags)) m
  | .ringBuf m => unsupported (.ringBuf m)

open PerCpuVariants in
def deleteElem (cpu : UInt32) (key : Bytes) : Method crate Unit := fun
  | .array m => unsupported (.array m)
  | .perCpuArray m => Call.within .perCpuArray (onCpu cpu (throw .EPERM)) m
  | .perfEventArray m => Call.within .perfEventArray (PerfEventArrayMap.deleteElem key) m
  | .hash m => Call.within .hash (BpfHashMap.deleteElem key) m
  | .perCpuHash m => Call.within .perCpuHash (onCpu cpu (BpfHashMap.deleteElem key)) m
  | .queue m => unsupported (.queue m)
  | .stack m => unsupported (.stack m)
  | .lruHash m => Call.within .lruHash (LruMap.deleteElem key) m
  | .lruPerCpuHash m => Call.within .lruPerCpuHash (onCpu cpu (LruMap.deleteElem key)) m
  | .ringBuf m => unsupported (.ringBuf m)

open PerCpuVariants in
def forEachElem {γ : Type} (cpu : UInt32) (cb : Bytes → Bytes → γ → Int32 × γ) (ctx : γ)
    (flags : UInt64) : Method crate (UInt32 × γ) := fun
  | .array m => Call.within .array (ArrayMap.forEachElem cb ctx flags) m
  | .perCpuArray m => Call.within .perCpuArray (onCpu cpu (ArrayMap.forEachElem cb ctx flags)) m
  | .perfEventArray m =>
    Call.within .perfEventArray (PerfEventArrayMap.forEachElem cb ctx flags) m
  | .hash m => Call.within .hash (BpfHashMap.forEachElem cb ctx flags) m
  | .perCpuHash m => Call.within .perCpuHash (onCpu cpu (BpfHashMap.forEachElem cb ctx flags)) m
  | .queue m => unsupported (.queue m)
  | .stack m => unsupported (.stack m)
  | .lruHash m => Call.within .lruHash (LruMap.forEachElem cb ctx flags) m
  | .lruPerCpuHash m => Call.within .lruPerCpuHash (onCpu cpu (LruMap.forEachElem cb ctx flags)) m
  | .ringBuf m => unsupported (.ringBuf m)

open PerCpuVariants in
/-- Returns what the caller's `value` buffer holds afterwards. -/
def lookupAndDeleteElem (cpu : UInt32) (key value : Bytes) : Method crate Bytes := fun
  | .array m => unsupported (.array m)
  | .perCpuArray m => some (.error .EINVAL, .perCpuArray m)
  | .perfEventArray m => unsupported (.perfEventArray m)
  | .hash m => Call.within .hash (BpfHashMap.lookupAndDeleteElem key value) m
  | .perCpuHash m =>
    Call.within .perCpuHash (onCpu cpu (BpfHashMap.lookupAndDeleteElem key value)) m
  | .queue m => Call.within .queue (SpecialMap.lookupAndDeleteElem key value) m
  | .stack m => Call.within .stack (SpecialMap.lookupAndDeleteElem key value) m
  | .lruHash m => Call.within .lruHash (LruMap.lookupAndDeleteElem key value) m
  | .lruPerCpuHash m =>
    Call.within .lruPerCpuHash (onCpu cpu (LruMap.lookupAndDeleteElem key value)) m
  | .ringBuf m => unsupported (.ringBuf m)

open PerCpuVariants in
/-- The CPU comes from the program as it is. -/
def lookupPercpuElem (key : Bytes) (cpu : UInt32) : Method crate (Option Bytes) := fun
  | .perCpuArray m => Call.within .perCpuArray (forceGetMut cpu (ArrayMap.lookupElem key)) m
  | .perCpuHash m => Call.within .perCpuHash (forceGetMut cpu (BpfHashMap.lookupElem key)) m
  | .lruPerCpuHash m => Call.within .lruPerCpuHash (forceGetMut cpu (LruMap.lookupElem key)) m
  | m => unsupported m

open PerCpuVariants in
/-- Returns what the caller's `next_key` buffer holds afterwards. -/
def getNextKey (cpu : UInt32) (key : Option Bytes) (nextKey : Bytes) : Method crate Bytes := fun
  | .array m => Call.within .array (ArrayMap.getNextKey key nextKey) m
  | .perCpuArray m => Call.within .perCpuArray (onCpu cpu (ArrayMap.getNextKey key nextKey)) m
  | .hash m => Call.within .hash (BpfHashMap.getNextKey key nextKey) m
  | .perCpuHash m => Call.within .perCpuHash (onCpu cpu (BpfHashMap.getNextKey key nextKey)) m
  | .lruHash m => Call.within .lruHash (LruMap.getNextKey key nextKey) m
  | .lruPerCpuHash m =>
    Call.within .lruPerCpuHash (onCpu cpu (LruMap.getNextKey key nextKey)) m
  | m => unsupported m

def pushElem (value : Bytes) (flags : UInt64) : Method crate Unit := fun
  | .queue m => Call.within .queue (SpecialMap.pushElem value flags) m
  | .stack m => Call.within .stack (SpecialMap.pushElem value flags) m
  | m => unsupported m

def popElem (value : Bytes) : Method crate Bytes := fun
  | .queue m => Call.within .queue (SpecialMap.popElem value) m
  | .stack m => Call.within .stack (SpecialMap.popElem value) m
  | m => unsupported m

def peekElem (value : Bytes) : Method crate Bytes := fun
  | .queue m => Call.within .queue (SpecialMap.peekElem value) m
  | .stack m => Call.within .stack (SpecialMap.peekElem value) m
  | m => unsupported m

def freeze : Method crate Unit := fun
  | .array m => Call.within .array ArrayMap.freeze m
  | m => unsupported m

end BpfMap

structure UnifiedMap (crate : LruCrate Bytes Bytes) where
  innerMap : BpfMap crate
  mapMeta : BpfMapMeta

/-- The types that `bpf_map_create` makes maps of; it refuses the others. -/
inductive BpfMapType where
  | ARRAY | PERCPU_ARRAY | PERF_EVENT_ARRAY | HASH | PERCPU_HASH | QUEUE | STACK | LRU_HASH
  | LRU_PERCPU_HASH | RINGBUF | other

/-- A map of the type and with the metadata given; a ring buffer needs a waker too. -/
def createInner (crate : LruCrate Bytes Bytes) (F : KernelAuxiliaryOps) (bytes : Nat → UInt8)
    (T : PerCpuVariantsOps) (mapMeta : BpfMapMeta) (pollWaker : Bool) :
    BpfMapType → Except BpfError (BpfMap crate)
  | .ARRAY => (ArrayMap.new mapMeta).map .array
  | .PERCPU_ARRAY => do
    let arrayMap ← ArrayMap.new mapMeta
    return .perCpuArray (← T.create arrayMap)
  | .PERF_EVENT_ARRAY => (PerfEventArrayMap.new mapMeta T.numCpus).map .perfEventArray
  | .HASH => (BpfHashMap.new mapMeta).map .hash
  | .PERCPU_HASH => do
    let hashMap ← BpfHashMap.new mapMeta
    return .perCpuHash (← T.create hashMap)
  | .QUEUE => (QueueMap.new mapMeta).map .queue
  | .STACK => (StackMap.new mapMeta).map .stack
  | .LRU_HASH => (LruMap.new crate mapMeta).map .lruHash
  | .LRU_PERCPU_HASH => do
    let lruMap ← LruMap.new crate mapMeta
    return .lruPerCpuHash (← T.create lruMap)
  | .RINGBUF => if pollWaker then (RingBuf.new F bytes mapMeta).map .ringBuf else .error .EINVAL
  | .other => .error .EPERM

def bpfMapCreate (crate : LruCrate Bytes Bytes) (F : KernelAuxiliaryOps) (bytes : Nat → UInt8)
    (T : PerCpuVariantsOps) (mapType : BpfMapType) (mapMeta : BpfMapMeta) (pollWaker : Bool) :
    Except BpfError (UnifiedMap crate) :=
  (createInner crate F bytes T mapMeta pollWaker mapType).map fun map => ⟨map, mapMeta⟩

end ExtKtrace.Bpf
