import ExtKtrace.Bpf.MapContents
import ExtKtrace.Bpf.MapRefusals
import ExtKtrace.Bpf.LruMapRecency
import ExtKtrace.Bpf.RingBufQueue

/-!
# The map system calls

Copies from and to user space can fail on either side of the map operation.
-/

namespace ExtKtrace.Bpf
set_option autoImplicit false

open LruMapRecency (listCrate listCrate_keepsRecency)
open RingBuf (roomyKernel)

/-- `ax_errno::LinuxError`, which the kernel may answer with any member of; the
discriminants are the Linux errno numbers. -/
structure LinuxError where
  code : Nat
  code_pos : 0 < code

def BpfError.errno : BpfError → LinuxError
  | .EPERM => ⟨1, by decide⟩
  | .ENOENT => ⟨2, by decide⟩
  | .EAGAIN => ⟨11, by decide⟩
  | .ENOMEM => ⟨12, by decide⟩
  | .EEXIST => ⟨17, by decide⟩
  | .EINVAL => ⟨22, by decide⟩

/-- What the kernel answers during one system call: whether the descriptor leads to the map,
the `n`-th copy from user space (which returns what the buffer holds afterwards), the copy
to user space, and the CPU. -/
structure SyscallOps where
  getUnifiedMapFromFd : UInt32 → Except LinuxError Unit
  copyFromUser : (n : Nat) → (src : UInt64) → (size : Nat) → (dst : Bytes) →
    Except LinuxError { out : Bytes // out.length = dst.length }
  copyToUser : (dest : UInt64) → (size : Nat) → (src : Bytes) → Except LinuxError Unit
  currentCpuId : UInt32

structure BpfMapUpdateArg where
  mapFd : UInt32
  key : UInt64
  value : UInt64
  flags : UInt64

section
variable {crate : LruCrate Bytes Bytes}

/-- `unified_map.map_mut()`, and a method on the map behind it. -/
def mapMut {α : Type} (c : Call BpfError (BpfMap crate) α) :
    Call LinuxError (UnifiedMap crate) α := fun s =>
  (c.exec s.innerMap).map fun r => (r.1.mapError BpfError.errno, { s with innerMap := r.2 })

/-- A buffer of zeros, filled from user space. -/
def readUser (F : SyscallOps) (n : Nat) (src : UInt64) (size : UInt32) :
    Except LinuxError Bytes :=
  (F.copyFromUser n src size.toNat (List.replicate size.toNat 0)).map Subtype.val

def bpfMapUpdateElem (F : SyscallOps) (arg : BpfMapUpdateArg) :
    Call LinuxError (UnifiedMap crate) Unit := do
  Call.ofExcept (F.getUnifiedMapFromFd arg.mapFd)
  let unifiedMap ← Call.self
  let key ← Call.ofExcept (readUser F 0 arg.key unifiedMap.mapMeta.keySize)
  let value ← Call.ofExcept (readUser F 1 arg.value unifiedMap.mapMeta.valueSize)
  mapMut (BpfMap.updateElem F.currentCpuId key value arg.flags)

def bpfMapFreeze (F : SyscallOps) (mapFd : UInt32) : Call LinuxError (UnifiedMap crate) Unit := do
  Call.ofExcept (F.getUnifiedMapFromFd mapFd)
  mapMut BpfMap.freeze

def bpfMapDeleteElem (F : SyscallOps) (arg : BpfMapUpdateArg) :
    Call LinuxError (UnifiedMap crate) Unit := do
  Call.ofExcept (F.getUnifiedMapFromFd arg.mapFd)
  let unifiedMap ← Call.self
  let key ← Call.ofExcept (readUser F 0 arg.key unifiedMap.mapMeta.keySize)
  mapMut (BpfMap.deleteElem F.currentCpuId key)

/-- The element is gone before its value is copied out. -/
def bpfMapLookupAndDeleteElem (F : SyscallOps) (arg : BpfMapUpdateArg) :
    Call LinuxError (UnifiedMap crate) Unit := do
  Call.ofExcept (F.getUnifiedMapFromFd arg.mapFd)
  let unifiedMap ← Call.self
  let value := List.replicate unifiedMap.mapMeta.valueSize.toNat 0
  let key ← Call.ofExcept (readUser F 0 arg.key unifiedMap.mapMeta.keySize)
  let value ← mapMut (BpfMap.lookupAndDeleteElem F.currentCpuId key value)
  Call.ofExcept (F.copyToUser arg.value unifiedMap.mapMeta.valueSize.toNat value)

/-- The system calls that change a map. -/
inductive MapSyscall where
  | updateElem (arg : BpfMapUpdateArg)
  | deleteElem (arg : BpfMapUpdateArg)
  | lookupAndDeleteElem (arg : BpfMapUpdateArg)

def MapSyscall.run (F : SyscallOps) : MapSyscall → Call LinuxError (UnifiedMap crate) Unit
  | .updateElem arg => bpfMapUpdateElem F arg
  | .deleteElem arg => bpfMapDeleteElem F arg
  | .lookupAndDeleteElem arg => bpfMapLookupAndDeleteElem F arg

def UnifiedMap.contents (m : UnifiedMap crate) : List Store := m.innerMap.contents

theorem mapMut_eq_some {α : Type} {c : Call BpfError (BpfMap crate) α} {m m' : UnifiedMap crate}
    {r : Except LinuxError α} : (mapMut c).exec m = some (r, m') ↔
      ∃ r' map, c.exec m.innerMap = some (r', map) ∧ r = r'.mapError BpfError.errno ∧
        m' = { m with innerMap := map } := by
  unfold Call.exec mapMut
  constructor
  · intro h
    obtain ⟨⟨r', map⟩, hexec, heq⟩ := Option.map_eq_some_iff.mp h
    cases heq
    exact ⟨r', map, hexec, rfl, rfl⟩
  · rintro ⟨r', map, hexec, rfl, rfl⟩
    exact Option.map_eq_some_iff.mpr ⟨(r', map), hexec, rfl⟩

theorem mapMut_atomic {α : Type} {c : Call BpfError (BpfMap crate) α} {m : UnifiedMap crate}
    (h : c.AtomicOn BpfMap.contents m.innerMap) : (mapMut c).AtomicOn UnifiedMap.contents m := by
  intro e m' he
  obtain ⟨r, map, hexec, hr, rfl⟩ := mapMut_eq_some.mp he
  cases r with
  | ok a => cases hr
  | error e' => exact h e' map hexec

theorem bpfMapUpdateElem_atomic (F : SyscallOps) (arg : BpfMapUpdateArg) (m : UnifiedMap crate) :
    (bpfMapUpdateElem F arg).AtomicOn UnifiedMap.contents m := by
  unfold bpfMapUpdateElem
  refine Call.atomicOn_ofExcept_bind.mpr fun _ _ => Call.atomicOn_self_bind.mpr ?_
  refine Call.atomicOn_ofExcept_bind.mpr fun key _ => ?_
  refine Call.atomicOn_ofExcept_bind.mpr fun value _ => ?_
  exact mapMut_atomic (BpfMap.updateElem_atomic _ key value _ _)

theorem bpfMapDeleteElem_atomic (F : SyscallOps) (arg : BpfMapUpdateArg) (m : UnifiedMap crate) :
    (bpfMapDeleteElem F arg).AtomicOn UnifiedMap.contents m := by
  unfold bpfMapDeleteElem
  refine Call.atomicOn_ofExcept_bind.mpr fun _ _ => Call.atomicOn_self_bind.mpr ?_
  refine Call.atomicOn_ofExcept_bind.mpr fun key _ => ?_
  exact mapMut_atomic (BpfMap.deleteElem_atomic _ key _)

/-- The call finds an element to take out and then cannot deliver it. -/
def Undelivered (F : SyscallOps) (arg : BpfMapUpdateArg) (m : UnifiedMap crate) : Prop :=
  F.getUnifiedMapFromFd arg.mapFd = .ok () ∧
    ∃ key, readUser F 0 arg.key m.mapMeta.keySize = .ok key ∧
      ∃ value, m.innerMap.takes F.currentCpuId key
          (List.replicate m.mapMeta.valueSize.toNat 0) = some value ∧
        ∃ e, F.copyToUser arg.value m.mapMeta.valueSize.toNat value = .error e

/-- The last two steps: take the element out, then copy it to user space. -/
theorem takeOut_atomic_iff (contract : crate.KeepsRecency) (cpu : UInt32) (key value : Bytes)
    (deliver : Bytes → Except LinuxError Unit) (m : UnifiedMap crate) :
    (mapMut (BpfMap.lookupAndDeleteElem cpu key value) >>= fun value =>
      Call.ofExcept (deliver value)).AtomicOn UnifiedMap.contents m ↔
    ¬ ∃ out, m.innerMap.takes cpu key value = some out ∧ ∃ e, deliver out = .error e := by
  have htakes := m.innerMap.lookupAndDeleteElem_takesOut contract cpu key value
  constructor
  · rintro hatomic ⟨out, hout, e, hdeliver⟩
    obtain ⟨map, hexec⟩ := (htakes.ok_iff out).mpr hout
    have hmut : (mapMut (BpfMap.lookupAndDeleteElem cpu key value)).exec m =
        some (.ok out, { m with innerMap := map }) :=
      mapMut_eq_some.mpr ⟨_, map, hexec, rfl, rfl⟩
    refine htakes.loses out map hexec (hatomic e { m with innerMap := map } ?_)
    rw [Call.exec_bind_ok hmut, Call.exec_ofExcept, hdeliver]
  · intro hdelivers e m' he
    rw [Call.exec_bind] at he
    obtain ⟨⟨r, m₁⟩, hmut, he⟩ := Option.bind_eq_some_iff.mp he
    obtain ⟨r', map, hexec, rfl, rfl⟩ := mapMut_eq_some.mp hmut
    cases r' with
    | error e' =>
      cases he
      exact htakes.atomic e' map hexec
    | ok out =>
      have hout := (htakes.ok_iff out).mp ⟨map, hexec⟩
      simp only [Call.mapError_ok, Call.exec_ofExcept, Option.some.injEq, Prod.mk.injEq] at he
      exact absurd ⟨out, hout, e, he.1⟩ hdelivers

theorem bpfMapLookupAndDeleteElem_atomic_iff (contract : crate.KeepsRecency) (F : SyscallOps)
    (arg : BpfMapUpdateArg) (m : UnifiedMap crate) :
    (bpfMapLookupAndDeleteElem F arg).AtomicOn UnifiedMap.contents m ↔ ¬ Undelivered F arg m := by
  unfold bpfMapLookupAndDeleteElem
  rw [Call.atomicOn_ofExcept_bind]
  simp only [Call.atomicOn_self_bind, Call.atomicOn_ofExcept_bind, takeOut_atomic_iff contract]
  unfold Undelivered
  constructor
  · rintro h ⟨hfd, key, hkey, hlost⟩
    exact h () hfd key hkey hlost
  · intro h _ hfd key hkey hlost
    exact h ⟨hfd, key, hkey, hlost⟩

/-- The one way a failed call changes a map. -/
def MapSyscall.LosesElement (F : SyscallOps) (m : UnifiedMap crate) : MapSyscall → Prop
  | .lookupAndDeleteElem arg => Undelivered F arg m
  | _ => False

/-- A map system call that returns an error leaves the keys and values as they were, unless a
`lookup_and_delete` found its element and could not copy it to user space. -/
theorem map_syscalls_atomic_iff (contract : crate.KeepsRecency) (F : SyscallOps)
    (call : MapSyscall) (m : UnifiedMap crate) :
    (∀ e m', (call.run F).exec m = some (.error e, m') → m'.contents = m.contents) ↔
      ¬ call.LosesElement F m := by
  cases call with
  | updateElem arg =>
    exact iff_of_true (bpfMapUpdateElem_atomic F arg m) id
  | deleteElem arg =>
    exact iff_of_true (bpfMapDeleteElem_atomic F arg m) id
  | lookupAndDeleteElem arg => exact bpfMapLookupAndDeleteElem_atomic_iff contract F arg m

/-- A process that may have its memory read, and written if `writable`; the `n`-th read of a
call finds bytes `n`. -/
def process (writable : Bool) : SyscallOps where
  getUnifiedMapFromFd _ := .ok ()
  copyFromUser n _ _ dst := .ok ⟨List.replicate dst.length (.ofNat n), List.length_replicate⟩
  copyToUser _ _ _ := if writable then .ok () else .error ⟨14, by decide⟩
  currentCpuId := 0

def someArg : BpfMapUpdateArg := ⟨3, 0x1000, 0x2000, 0⟩

/-- A queue of one value, which the caller takes out and has no room for. -/
theorem lookup_and_delete_loses_value : ∃ m₀ m m' : UnifiedMap (listCrate Bytes Bytes), ∃ e,
    bpfMapCreate (listCrate Bytes Bytes) roomyKernel (fun _ => 0) ⟨1, true⟩ .QUEUE ⟨0, 4, 1, 0⟩
      false = .ok m₀ ∧
    ((MapSyscall.updateElem someArg).run (process false)).exec m₀ = some (.ok (), m) ∧
    ((MapSyscall.lookupAndDeleteElem someArg).run (process false)).exec m = some (.error e, m') ∧
    m'.contents ≠ m.contents := by
  refine ⟨_, _, _, _, rfl, rfl, rfl, ?_⟩
  simp [UnifiedMap.contents, BpfMap.contents, QueueMap.store]

theorem map_syscalls_atomic_iff_delivered : ∃ m₀ m : UnifiedMap (listCrate Bytes Bytes),
    bpfMapCreate (listCrate Bytes Bytes) roomyKernel (fun _ => 0) ⟨1, true⟩ .QUEUE ⟨0, 4, 1, 0⟩
      false = .ok m₀ ∧
    ((MapSyscall.updateElem someArg).run (process true)).exec m₀ = some (.ok (), m) ∧
    ¬ (MapSyscall.lookupAndDeleteElem someArg).LosesElement (process true) m ∧
    ((MapSyscall.lookupAndDeleteElem someArg).run (process true)).AtomicOn
      UnifiedMap.contents m := by
  have hkept : ∀ m : UnifiedMap (listCrate Bytes Bytes),
      ¬ (MapSyscall.lookupAndDeleteElem someArg).LosesElement (process true) m := by
    rintro m ⟨-, key, -, value, -, e, he⟩
    cases he
  exact ⟨_, _, rfl, rfl, hkept _,
    (map_syscalls_atomic_iff (listCrate_keepsRecency Bytes Bytes) _ _ _).mpr (hkept _)⟩

/-- Each call of a sequence returns an error and leaves the contents that were frozen. -/
def AllRefused (frozen : List Store) : List (SyscallOps × MapSyscall) → UnifiedMap crate → Prop
  | [], _ => True
  | (F, call) :: rest, m => ∃ e m', (call.run F).exec m = some (.error e, m') ∧
      m'.contents = frozen ∧ AllRefused frozen rest m'

/-- An update that reaches the map and passes the checks of its `update_elem`. -/
def MapSyscall.Writes (F : SyscallOps) (m : UnifiedMap crate) : MapSyscall → Prop
  | .updateElem arg => F.getUnifiedMapFromFd arg.mapFd = .ok () ∧
      ∃ key, readUser F 0 arg.key m.mapMeta.keySize = .ok key ∧
        ∃ value, readUser F 1 arg.value m.mapMeta.valueSize = .ok value ∧
          ¬ m.innerMap.RefusesUpdate F.currentCpuId key value arg.flags
  | _ => False

/-- Only an array map can be frozen, and the frozen map is the map as it was. -/
theorem bpfMapFreeze_ok {F : SyscallOps} {mapFd : UInt32} {m m' : UnifiedMap crate}
    (h : (bpfMapFreeze F mapFd).exec m = some (.ok (), m')) :
    m' = m ∧ ∃ a, m.innerMap = .array a := by
  unfold bpfMapFreeze at h
  rw [Call.exec_bind, Call.exec_ofExcept] at h
  cases hfd : F.getUnifiedMapFromFd mapFd with
  | error e =>
    rw [hfd] at h
    cases h
  | ok u =>
    rw [hfd] at h
    obtain ⟨r, map, hexec, hr, rfl⟩ := mapMut_eq_some.mp h
    cases hmap : m.innerMap with
    | array a =>
      rw [hmap] at hexec
      cases hexec
      exact ⟨by rw [← hmap], a, rfl⟩
    | _ =>
      rw [hmap] at hexec
      cases hexec
      cases hr

theorem mapMut_fails {α : Type} {c : Call BpfError (BpfMap crate) α} {m : UnifiedMap crate} :
    (mapMut c).Fails m ↔ c.Fails m.innerMap := by
  constructor
  · rintro ⟨e, m', h⟩
    obtain ⟨r, map, hexec, hr, -⟩ := mapMut_eq_some.mp h
    cases r with
    | ok a => cases hr
    | error e' => exact ⟨e', map, hexec⟩
  · rintro ⟨e, map, hexec⟩
    exact ⟨_, _, mapMut_eq_some.mpr ⟨_, map, hexec, rfl, rfl⟩⟩

theorem mapMut_unchanged {α : Type} {c : Call BpfError (BpfMap crate) α} {m : UnifiedMap crate}
    (h : c.AtomicOn id m.innerMap) : (mapMut c).AtomicOn id m := by
  intro e m' he
  obtain ⟨r, map, hexec, hr, rfl⟩ := mapMut_eq_some.mp he
  cases r with
  | ok a => cases hr
  | error e' =>
    have hmap : map = m.innerMap := h e' map hexec
    rw [hmap]

section Array
variable {F : SyscallOps} {m : UnifiedMap crate} {a : ArrayMap}

/-- `lookup_and_delete_elem` is not supported, whatever the kernel answers. -/
theorem exec_lookupAndDelete_array (hmap : m.innerMap = .array a) (arg : BpfMapUpdateArg) :
    ∃ e, (bpfMapLookupAndDeleteElem F arg).exec m = some (.error e, m) := by
  unfold bpfMapLookupAndDeleteElem
  rw [Call.exec_bind, Call.exec_ofExcept]
  cases F.getUnifiedMapFromFd arg.mapFd with
  | error e => exact ⟨e, rfl⟩
  | ok u =>
    simp only [Option.bind_some]
    rw [Call.exec_bind_ok (Call.exec_self m), Call.exec_bind, Call.exec_ofExcept]
    cases readUser F 0 arg.key m.mapMeta.keySize with
    | error e => exact ⟨e, rfl⟩
    | ok key =>
      refine ⟨BpfError.EPERM.errno, Call.exec_bind_error (mapMut_eq_some.mpr ?_)⟩
      exact ⟨_, m.innerMap, by rw [hmap]; rfl, rfl, rfl⟩

/-- On an array map a call fails exactly when it writes nothing. -/
theorem fails_iff_not_writes (hmap : m.innerMap = .array a) (call : MapSyscall) :
    (call.run F).Fails m ↔ ¬ call.Writes F m := by
  cases call with
  | updateElem arg =>
    unfold MapSyscall.run bpfMapUpdateElem MapSyscall.Writes
    simp only [Call.fails_ofExcept_bind, Call.fails_self_bind, mapMut_fails,
      BpfMap.fails_updateElem]
    cases F.getUnifiedMapFromFd arg.mapFd with
    | error e => simp
    | ok u =>
      cases readUser F 0 arg.key m.mapMeta.keySize with
      | error e => simp
      | ok key => cases readUser F 1 arg.value m.mapMeta.valueSize <;> simp
  | deleteElem arg =>
    unfold MapSyscall.run bpfMapDeleteElem MapSyscall.Writes
    simp only [Call.fails_ofExcept_bind, Call.fails_self_bind, mapMut_fails,
      BpfMap.fails_deleteElem, hmap, BpfMap.RefusesDelete]
    cases F.getUnifiedMapFromFd arg.mapFd with
    | error e => simp
    | ok u => cases readUser F 0 arg.key m.mapMeta.keySize <;> simp
  | lookupAndDeleteElem arg =>
    obtain ⟨e, hexec⟩ := exec_lookupAndDelete_array hmap arg (F := F)
    exact iff_of_true ⟨e, m, hexec⟩ id

/-- A call that fails on an array map leaves it as it was. -/
theorem array_unchanged (hmap : m.innerMap = .array a) (call : MapSyscall) :
    (call.run F).AtomicOn id m := by
  cases call with
  | updateElem arg =>
    unfold MapSyscall.run bpfMapUpdateElem
    refine Call.atomicOn_ofExcept_bind.mpr fun _ _ => Call.atomicOn_self_bind.mpr ?_
    refine Call.atomicOn_ofExcept_bind.mpr fun key _ => ?_
    refine Call.atomicOn_ofExcept_bind.mpr fun value _ => mapMut_unchanged ?_
    rw [hmap]
    intro e map he
    obtain ⟨a', hexec, rfl⟩ := Call.within_eq_some.mp he
    rw [ArrayMap.updateElem_error hexec]
  | deleteElem arg =>
    unfold MapSyscall.run bpfMapDeleteElem
    refine Call.atomicOn_ofExcept_bind.mpr fun _ _ => Call.atomicOn_self_bind.mpr ?_
    refine Call.atomicOn_ofExcept_bind.mpr fun key _ => mapMut_unchanged ?_
    rw [hmap]
    intro e map he
    cases he
    rfl
  | lookupAndDeleteElem arg =>
    intro e m' he
    obtain ⟨e', hexec⟩ := exec_lookupAndDelete_array hmap arg (F := F)
    rw [MapSyscall.run, hexec] at he
    cases he
    rfl

end Array

/-- A frozen map stays frozen as long as no later update passes the checks that it would pass
on a map that was never frozen. -/
theorem frozen_map_iff (F₀ : SyscallOps) (mapFd : UInt32) (m m' : UnifiedMap crate)
    (hfreeze : (bpfMapFreeze F₀ mapFd).exec m = some (.ok (), m'))
    (calls : List (SyscallOps × MapSyscall)) :
    AllRefused m'.contents calls m' ↔ ∀ c ∈ calls, ¬ c.2.Writes c.1 m' := by
  obtain ⟨hm, a, hmap⟩ := bpfMapFreeze_ok hfreeze
  rw [hm]
  clear hm hfreeze
  induction calls with
  | nil => simp [AllRefused]
  | cons c rest ih =>
    obtain ⟨F, call⟩ := c
    rw [List.forall_mem_cons, ← ih, ← fails_iff_not_writes hmap]
    constructor
    · rintro ⟨e, m₁, hexec, -, hrest⟩
      obtain rfl : m₁ = m := array_unchanged hmap call e m₁ hexec
      exact ⟨⟨e, m₁, hexec⟩, hrest⟩
    · rintro ⟨⟨e, m₁, hexec⟩, hrest⟩
      obtain rfl : m₁ = m := array_unchanged hmap call e m₁ hexec
      exact ⟨e, m₁, hexec, rfl, hrest⟩

/-- An array map of one element. -/
def oneCell : UnifiedMap (listCrate Bytes Bytes) where
  innerMap := .array ⟨.new 4 1, 4, 1⟩
  mapMeta := ⟨4, 4, 1, 0⟩

theorem frozen_map_written : ∃ m' : UnifiedMap (listCrate Bytes Bytes),
    bpfMapCreate (listCrate Bytes Bytes) roomyKernel (fun _ => 0) ⟨1, true⟩ .ARRAY ⟨4, 4, 1, 0⟩
      false = .ok oneCell ∧
    (bpfMapFreeze (process true) 3).exec oneCell = some (.ok (), oneCell) ∧
    ((MapSyscall.updateElem someArg).run (process true)).exec oneCell = some (.ok (), m') ∧
    m'.contents ≠ oneCell.contents := by
  refine ⟨_, rfl, rfl, rfl, ?_⟩
  intro h
  exact absurd (Store.cells.inj (List.singleton_inj.mp h)) (by decide)

theorem frozen_map_iff_deleted :
    (bpfMapFreeze (process true) 3).exec oneCell = some (.ok (), oneCell) ∧
    AllRefused oneCell.contents [(process true, .deleteElem someArg)] oneCell := by
  have hfreeze : (bpfMapFreeze (process true) 3).exec oneCell = some (.ok (), oneCell) := rfl
  refine ⟨hfreeze, (frozen_map_iff (process true) 3 oneCell oneCell hfreeze
    [(process true, .deleteElem someArg)]).mpr ?_⟩
  intro c hc
  rw [List.mem_singleton.mp hc]
  exact id

end

end ExtKtrace.Bpf
