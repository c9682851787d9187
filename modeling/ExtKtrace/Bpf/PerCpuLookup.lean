import ExtKtrace.Bpf.Helpers

/-!
# Lookups in the copy of another CPU

The helper passes the CPU number of the program on as it is. Where there is such a CPU, the answer
is what a lookup on that CPU finds; where there is none, nothing refuses the call.
-/

namespace ExtKtrace.Bpf
set_option autoImplicit false

open LruMapRecency (listCrate listCrate_keepsRecency)
open RingBuf (roomyKernel)

section Helper
variable {crate : LruCrate Bytes Bytes}

/-- The pointer that is returned, as the value it points to; `none` for null. -/
def mapLookupPercpuElem (key : Bytes) (cpu : UInt32) : Helper crate (Option Bytes) := do
  match ← onMap (Call.attempt (BpfMap.lookupPercpuElem key cpu)) with
  | .ok (some value) => return some value
  | .ok none => return none
  | .error (_ : BpfError) => return none

def rawMapLookupPercpuElem (F : HelperOps) (map key : UInt64) (cpu : UInt32)
    (s : HelperState crate) : Option (Option Bytes × HelperState crate) :=
  let res : Helper crate (Option Bytes) := do
    Call.ofExcept (F.getUnifiedMapFromPtr map)
    let s ← Call.self
    mapLookupPercpuElem (s.memory.slice key s.map.mapMeta.keySize.toNat) cpu
  (res.exec s).map fun r =>
    (match r.1 with
      | .ok value => value
      | .error _ => none, r.2)

/-- What a pointer can tell of a lookup. -/
def handedOut : Except BpfError (Option Bytes) → Option Bytes
  | .ok value => value
  | .error _ => none

def HelperState.withInner (s : HelperState crate) (m : BpfMap crate) : HelperState crate :=
  { s with map := { s.map with innerMap := m } }

theorem rawMapLookupPercpuElem_eq {F : HelperOps} {map : UInt64}
    (hmap : F.getUnifiedMapFromPtr map = .ok ()) (key : UInt64) (cpu : UInt32)
    (s : HelperState crate) :
    rawMapLookupPercpuElem F map key cpu s =
      ((BpfMap.lookupPercpuElem (s.memory.slice key s.map.mapMeta.keySize.toNat) cpu).exec
        s.map.innerMap).map fun r => (handedOut r.1, s.withInner r.2) := by
  unfold rawMapLookupPercpuElem
  dsimp only
  rw [hmap, Call.exec_bind_ok (Call.exec_ofExcept _ s), Call.exec_bind_ok (Call.exec_self s)]
  generalize s.memory.slice key s.map.mapMeta.keySize.toNat = key
  unfold mapLookupPercpuElem
  rw [Call.exec_bind, exec_onMap, Call.exec_attempt]
  cases (BpfMap.lookupPercpuElem key cpu).exec s.map.innerMap with
  | none => rfl
  | some r =>
    obtain ⟨found, m⟩ := r
    rcases found with e | _ | value <;> rfl

end Helper

namespace PerCpuLookup
variable {crate : LruCrate Bytes Bytes} {γ : Type}

inductive Op (γ : Type) where
  | lookup (key : Bytes)
  | update (key value : Bytes) (flags : UInt64)
  | delete (key : Bytes)
  | forEach (cb : Bytes → Bytes → γ → Int32 × γ) (ctx : γ) (flags : UInt64)
  | lookupAndDelete (key value : Bytes)
  | nextKey (key : Option Bytes) (buf : Bytes)
  | lookupPercpu (key : Bytes) (cpu : UInt32)

inductive Answer (γ : Type) where
  | found (value : Option Bytes)
  | done
  | visited (used : UInt32) (ctx : γ)
  | filled (buf : Bytes)

/-- An operation that a program on CPU `here` calls. -/
def Op.call (here : UInt32) : Op γ → BpfMap.Method crate (Answer γ)
  | .lookup key => (BpfMap.lookupElem here key).mapOk .found
  | .update key value flags => (BpfMap.updateElem here key value flags).mapOk fun _ => .done
  | .delete key => (BpfMap.deleteElem here key).mapOk fun _ => .done
  | .forEach cb ctx flags =>
    (BpfMap.forEachElem here cb ctx flags).mapOk fun r => .visited r.1 r.2
  | .lookupAndDelete key value => (BpfMap.lookupAndDeleteElem here key value).mapOk .filled
  | .nextKey key buf => (BpfMap.getNextKey here key buf).mapOk .filled
  | .lookupPercpu key cpu => (BpfMap.lookupPercpuElem key cpu).mapOk .found

def step (m : BpfMap crate) (input : UInt32 × Op γ) :
    Option (Except BpfError (Answer γ) × BpfMap crate) := (input.2.call input.1).exec m

/-- The keys and values on one CPU. -/
def valuesOn (cpu : UInt32) (m : BpfMap crate) : Option Store := m.contents[cpu.toNat]?

/-- A lookup on another of the `n` CPUs finds what that CPU finds; there is no other CPU. -/
def Agrees (n : UInt32) (m : BpfMap crate) (key : Bytes) (cpu : UInt32) : Prop :=
  if cpu < n then (BpfMap.lookupPercpuElem key cpu).exec m = (BpfMap.lookupElem cpu key).exec m
  else ∃ e, (BpfMap.lookupPercpuElem key cpu).exec m = some (.error e, m)

/-- The same for the helper, whose answer is a value or null. -/
def HelperAgrees (n : UInt32) (m : BpfMap crate) (key : Bytes) (cpu : UInt32) : Prop :=
  ∀ (F : HelperOps) (map keyPtr : UInt64) (s : HelperState crate),
    F.getUnifiedMapFromPtr map = .ok () → s.map.innerMap = m →
    s.memory.slice keyPtr s.map.mapMeta.keySize.toNat = key →
    rawMapLookupPercpuElem F map keyPtr cpu s =
      if cpu < n then
        ((BpfMap.lookupElem cpu key).exec m).map fun r => (handedOut r.1, s.withInner r.2)
      else some (none, s)

structure Law (n : UInt32) (m : BpfMap crate) (input : UInt32 × Op γ) : Prop where
  aside : ∀ r m', step m input = some (r, m') →
    ∀ cpu, cpu ≠ input.1 → valuesOn cpu m' = valuesOn cpu m
  agrees : ∀ key cpu, input.2 = .lookupPercpu key cpu → Agrees n m key cpu
  helper : ∀ key cpu, input.2 = .lookupPercpu key cpu → HelperAgrees n m key cpu

/-- The CPU asked for is one of the `n`. -/
def InRange (n : UInt32) (_ : BpfMap crate) (input : UInt32 × Op γ) : Prop :=
  ∀ key cpu, input.2 = .lookupPercpu key cpu → cpu < n

/-- A per-CPU map with `n` copies. -/
inductive PerCpu (n : UInt32) : BpfMap crate → Prop
  | array (s) (h : s.cells.length = n.toNat) : PerCpu n (.perCpuArray s)
  | hash (s) (h : s.cells.length = n.toNat) : PerCpu n (.perCpuHash s)
  | lru (s) (h : s.cells.length = n.toNat) : PerCpu n (.lruPerCpuHash s)

/-- At most the copy of one CPU is another one. -/
inductive OneCopy (cpu : UInt32) : BpfMap crate → BpfMap crate → Prop
  | same (m) : OneCopy cpu m m
  | array (s cell) : OneCopy cpu (.perCpuArray s) (.perCpuArray ⟨s.cells.set cpu.toNat cell⟩)
  | hash (s cell) : OneCopy cpu (.perCpuHash s) (.perCpuHash ⟨s.cells.set cpu.toNat cell⟩)
  | lru (s cell) : OneCopy cpu (.lruPerCpuHash s) (.lruPerCpuHash ⟨s.cells.set cpu.toNat cell⟩)

section
variable {n cpu here : UInt32} {m m' : BpfMap crate}

theorem OneCopy.perCpu (h : OneCopy cpu m m') (hm : PerCpu n m) : PerCpu n m' := by
  cases h with
  | same => exact hm
  | array s cell =>
    cases hm with
    | array _ hlen => exact .array _ (List.length_set.trans hlen)
  | hash s cell =>
    cases hm with
    | hash _ hlen => exact .hash _ (List.length_set.trans hlen)
  | lru s cell =>
    cases hm with
    | lru _ hlen => exact .lru _ (List.length_set.trans hlen)

theorem OneCopy.valuesOn (h : OneCopy cpu m m') {other : UInt32} (hne : other ≠ cpu) :
    valuesOn other m' = valuesOn other m := by
  have hindex : cpu.toNat ≠ other.toNat := fun heq => hne (UInt32.toNat_inj.mp heq.symm)
  cases h with
  | same => rfl
  | array s cell | hash s cell | lru s cell =>
    simp only [PerCpuLookup.valuesOn, BpfMap.contents, List.getElem?_map,
      List.getElem?_set_ne hindex]

theorem oneCopy_of_within {α β : Type} {wrap : PerCpuVariants α → BpfMap crate}
    {c : Call BpfError α β} {s : PerCpuVariants α} {r : Except BpfError β}
    (hwrap : ∀ cell, OneCopy cpu (wrap s) (wrap ⟨s.cells.set cpu.toNat cell⟩))
    (h : Call.within wrap (PerCpuVariants.onCpu cpu c) s = some (r, m')) :
    OneCopy cpu (wrap s) m' := by
  obtain ⟨s', hexec, rfl⟩ := Call.within_eq_some.mp h
  obtain ⟨cell, cell', -, -, rfl⟩ := PerCpuVariants.exec_onCpu.mp hexec
  exact hwrap cell'

theorem exec_of_mapOk {α β : Type} {f : α → β} {c : BpfMap.Method crate α}
    {r : Except BpfError β} (h : (c.mapOk f).exec m = some (r, m')) :
    ∃ r', c.exec m = some (r', m') := by
  obtain ⟨⟨r', _⟩, hexec, heq⟩ := Option.map_eq_some_iff.mp h
  cases heq
  exact ⟨r', hexec⟩

/-- The CPU whose copy an operation works on. -/
def Op.target (here : UInt32) : Op γ → UInt32
  | .lookupPercpu _ cpu => cpu
  | _ => here

theorem step_oneCopy (hm : PerCpu n m) {op : Op γ} {r : Except BpfError (Answer γ)}
    (h : step m (here, op) = some (r, m')) : OneCopy (op.target here) m m' := by
  cases op <;> dsimp only [step, Op.call] at h <;> obtain ⟨r', h⟩ := exec_of_mapOk h
  case lookupAndDelete key value =>
    cases hm with
    | array s =>
      -- a per-CPU array refuses this one itself
      cases h
      exact .same _
    | hash s => exact oneCopy_of_within (.hash s) h
    | lru s => exact oneCopy_of_within (.lru s) h
  all_goals
    cases hm with
    | array s => exact oneCopy_of_within (.array s) h
    | hash s => exact oneCopy_of_within (.hash s) h
    | lru s => exact oneCopy_of_within (.lru s) h

theorem lookupElem_keeps_array (key : Bytes) : (ArrayMap.lookupElem key).Keeps ArrayMap.store := by
  intro s r s' h
  rw [ArrayMap.exec_lookupElem] at h
  split at h
  · cases h
    rfl
  · obtain ⟨value, -, heq⟩ := Option.map_eq_some_iff.mp h
    cases heq
    rfl

theorem lookupElem_keeps_hash (key : Bytes) :
    (BpfHashMap.lookupElem key).Keeps BpfHashMap.store := by
  intro s r s' h
  rw [BpfHashMap.exec_lookupElem] at h
  cases h
  rfl

theorem lookupElem_keeps_lru (contract : crate.KeepsRecency) (key : Bytes) :
    (LruMap.lookupElem key).Keeps (LruMap.store : LruMap crate → Store) := by
  intro s r s' h
  rw [LruMap.exec_lookupElem] at h
  split at h
  · cases h
    rfl
  · cases h
    apply congrArg Store.table
    funext k
    rw [contract.get_value, contract.get_value, contract.iter_get, RecencyList.lookup_touch]

theorem onCpu_keeps {α β ω : Type} {view : α → ω} {c : Call BpfError α β} (h : c.Keeps view) :
    (PerCpuVariants.onCpu cpu c).Keeps fun s => s.cells.map view := by
  intro s r s' hexec
  obtain ⟨cell, cell', hcell, hcall, rfl⟩ := PerCpuVariants.exec_onCpu.mp hexec
  exact (PerCpuVariants.map_set view hcell).mpr (h cell r cell' hcall)

theorem lookupPercpuElem_contents (contract : crate.KeepsRecency) (hm : PerCpu n m) {key : Bytes}
    {r : Except BpfError (Option Bytes)}
    (h : (BpfMap.lookupPercpuElem key cpu).exec m = some (r, m')) : m'.contents = m.contents := by
  cases hm with
  | array s =>
    obtain ⟨s', hexec, rfl⟩ := Call.within_eq_some.mp h
    exact onCpu_keeps (lookupElem_keeps_array key) s r s' hexec
  | hash s =>
    obtain ⟨s', hexec, rfl⟩ := Call.within_eq_some.mp h
    exact onCpu_keeps (lookupElem_keeps_hash key) s r s' hexec
  | lru s =>
    obtain ⟨s', hexec, rfl⟩ := Call.within_eq_some.mp h
    exact onCpu_keeps (lookupElem_keeps_lru contract key) s r s' hexec

theorem step_aside (contract : crate.KeepsRecency) (hm : PerCpu n m) {op : Op γ}
    {r : Except BpfError (Answer γ)} (h : step m (here, op) = some (r, m')) {other : UInt32}
    (hne : other ≠ here) : valuesOn other m' = valuesOn other m := by
  have hone := step_oneCopy hm h
  cases op with
  | lookupPercpu key cpu =>
    obtain ⟨r', hexec⟩ := exec_of_mapOk h
    exact congrArg (·[other.toNat]?) (lookupPercpuElem_contents contract hm hexec)
  | _ => exact hone.valuesOn hne

/-- `force_get_mut` of a CPU is `get_mut` on it. -/
theorem exec_lookupPercpuElem (hm : PerCpu n m) (key : Bytes) (cpu : UInt32) :
    (BpfMap.lookupPercpuElem key cpu).exec m = (BpfMap.lookupElem cpu key).exec m := by
  cases hm <;> rfl

theorem forceGetMut_of_le {α β : Type} {s : PerCpuVariants α} (hlen : s.cells.length = n.toNat)
    (hout : n ≤ cpu) (c : Call BpfError α β) : (PerCpuVariants.forceGetMut cpu c).exec s = none := by
  have hnone : s.cells[cpu.toNat]? = none := by
    apply List.getElem?_eq_none
    rw [hlen]
    exact UInt32.le_iff_toNat_le.mp hout
  simp only [PerCpuVariants.forceGetMut, PerCpuVariants.onCpu, Call.exec, hnone]

/-- The call for a CPU that there is not goes through to `force_get_mut`. -/
theorem exec_lookupPercpuElem_of_le (hm : PerCpu n m) (key : Bytes) (hout : n ≤ cpu) :
    (BpfMap.lookupPercpuElem key cpu).exec m = none := by
  cases hm with
  | array s hlen =>
    exact congrArg (Option.map _) (forceGetMut_of_le hlen hout (ArrayMap.lookupElem key))
  | hash s hlen =>
    exact congrArg (Option.map _) (forceGetMut_of_le hlen hout (BpfHashMap.lookupElem key))
  | lru s hlen =>
    exact congrArg (Option.map _) (forceGetMut_of_le hlen hout (LruMap.lookupElem key))

theorem agrees_iff (hm : PerCpu n m) (key : Bytes) (cpu : UInt32) :
    Agrees n m key cpu ↔ cpu < n := by
  unfold Agrees
  split
  · rename_i hin
    exact iff_of_true (exec_lookupPercpuElem hm key cpu) hin
  · rename_i hout
    apply iff_of_false _ hout
    rintro ⟨e, h⟩
    rw [exec_lookupPercpuElem_of_le hm key (UInt32.not_lt.mp hout)] at h
    cases h

theorem helperAgrees_of_lt (hm : PerCpu n m) (key : Bytes) (hin : cpu < n) :
    HelperAgrees n m key cpu := by
  intro F map keyPtr s hmap hinner hkey
  rw [rawMapLookupPercpuElem_eq hmap, hinner, hkey, exec_lookupPercpuElem hm, if_pos hin]

theorem law_iff (contract : crate.KeepsRecency) (hm : PerCpu n m) (input : UInt32 × Op γ) :
    Law n m input ↔ InRange n m input := by
  constructor
  · intro h key cpu hop
    exact (agrees_iff hm key cpu).mp (h.agrees key cpu hop)
  · intro h
    refine ⟨?_, ?_, ?_⟩
    · intro r m' hstep other hne
      exact step_aside contract hm hstep hne
    · intro key cpu hop
      exact (agrees_iff hm key cpu).mpr (h key cpu hop)
    · intro key cpu hop
      exact helperAgrees_of_lt hm key (h key cpu hop)

end

def perCpuTypes : List BpfMapType := [.PERCPU_ARRAY, .PERCPU_HASH, .LRU_PERCPU_HASH]

theorem create_length {α : Type} {T : PerCpuVariantsOps} {value : α} {s : PerCpuVariants α}
    (h : T.create value = .ok s) : s.cells.length = T.numCpus.toNat := by
  unfold PerCpuVariantsOps.create at h
  split at h
  · cases h
    exact List.length_replicate
  · cases h

theorem exists_copies {α : Type} {new : Except BpfError α} {T : PerCpuVariantsOps}
    {wrap : PerCpuVariants α → BpfMap crate} {mapMeta : BpfMapMeta} {map : UnifiedMap crate}
    (h : (do let inner ← new; return wrap (← T.create inner) : Except BpfError (BpfMap crate)).map
      (fun inner => (⟨inner, mapMeta⟩ : UnifiedMap crate)) = .ok map) :
    ∃ s, map.innerMap = wrap s ∧ s.cells.length = T.numCpus.toNat := by
  cases new with
  | error e => cases h
  | ok inner =>
    cases hcreate : T.create inner with
    | error e =>
      simp only [bind, Except.bind, hcreate] at h
      cases h
    | ok s =>
      simp only [bind, Except.bind, hcreate] at h
      cases h
      exact ⟨s, rfl, create_length hcreate⟩

theorem perCpu_of_create {F : KernelAuxiliaryOps} {bytes : Nat → UInt8} {T : PerCpuVariantsOps}
    {mapType : BpfMapType} {mapMeta : BpfMapMeta} {pollWaker : Bool} {map : UnifiedMap crate}
    (hkind : mapType ∈ perCpuTypes)
    (h : bpfMapCreate crate F bytes T mapType mapMeta pollWaker = .ok map) :
    PerCpu T.numCpus map.innerMap := by
  simp only [perCpuTypes, List.mem_cons, List.not_mem_nil, or_false] at hkind
  rcases hkind with rfl | rfl | rfl
  · obtain ⟨s, hs, hlen⟩ := exists_copies h
    rw [hs]
    exact .array s hlen
  · obtain ⟨s, hs, hlen⟩ := exists_copies h
    rw [hs]
    exact .hash s hlen
  · obtain ⟨s, hs, hlen⟩ := exists_copies h
    rw [hs]
    exact .lru s hlen

/-- Along every run of a per-CPU map on any CPUs: a lookup on another CPU finds what that CPU finds,
no operation changes the values of another CPU and a CPU that there is not is refused, exactly
when every lookup that the run comes to asks for a CPU that there is. -/
theorem percpu_lookup_agrees_iff (contract : crate.KeepsRecency) {F : KernelAuxiliaryOps}
    {bytes : Nat → UInt8} {T : PerCpuVariantsOps} {mapType : BpfMapType} {mapMeta : BpfMapMeta}
    {pollWaker : Bool} {map : UnifiedMap crate} (hkind : mapType ∈ perCpuTypes)
    (hnew : bpfMapCreate crate F bytes T mapType mapMeta pollWaker = .ok map)
    (ops : List (UInt32 × Op γ)) :
    Machine.Along step (Law T.numCpus) map.innerMap ops ↔
      Machine.Along step (InRange T.numCpus) map.innerMap ops := by
  have hkeeps (m : BpfMap crate) (input : UInt32 × Op γ) (r : _) (m' : BpfMap crate)
      (hm : PerCpu T.numCpus m) (hstep : step m input = some (r, m')) : PerCpu T.numCpus m' :=
    (step_oneCopy hm hstep).perCpu hm
  exact Machine.along_congr hkeeps (fun m input hm => law_iff contract hm input) ops
    (perCpu_of_create hkind hnew)

def twoCpus : PerCpuVariantsOps := ⟨2, true⟩

/-- What CPU 1 stores, a program on CPU 0 looks up. -/
theorem lookup_on_other_cpu : ∃ map,
    bpfMapCreate (listCrate Bytes Bytes) roomyKernel (fun _ => 0) twoCpus .LRU_PERCPU_HASH
      ⟨1, 1, 2, 0⟩ false = .ok map ∧
    Machine.Along step (Law twoCpus.numCpus) map.innerMap
      ([(1, .update [1] [7] 0), (0, .lookupPercpu [1] 1)] : List (UInt32 × Op Unit)) := by
  obtain ⟨map, hnew⟩ : ∃ map, bpfMapCreate (listCrate Bytes Bytes) roomyKernel (fun _ => 0) twoCpus
    .LRU_PERCPU_HASH ⟨1, 1, 2, 0⟩ false = .ok map := ⟨_, rfl⟩
  refine ⟨map, hnew, ?_⟩
  apply (percpu_lookup_agrees_iff (listCrate_keepsRecency _ _) (by simp [perCpuTypes]) hnew _).mpr
  refine ⟨?_, fun _ _ _ => ⟨?_, fun _ _ _ => trivial⟩⟩
  · intro key cpu hop
    cases hop
  · intro key cpu hop
    cases hop
    exact (by decide : (1 : UInt32) < 2)

/-- There is no CPU 2, and a program asks for it. -/
theorem lookup_on_missing_cpu : ∃ map,
    bpfMapCreate (listCrate Bytes Bytes) roomyKernel (fun _ => 0) twoCpus .PERCPU_ARRAY
      ⟨4, 1, 1, 0⟩ false = .ok map ∧
    (BpfMap.lookupPercpuElem [0, 0, 0, 0] 2).exec map.innerMap = none ∧
    ¬ Machine.Along step (Law twoCpus.numCpus) map.innerMap
      ([(0, .lookupPercpu [0, 0, 0, 0] 2)] : List (UInt32 × Op Unit)) := by
  refine ⟨_, rfl, rfl, ?_⟩
  rintro ⟨hlaw, -⟩
  obtain ⟨e, h⟩ := hlaw.agrees [0, 0, 0, 0] 2 rfl
  cases h

end PerCpuLookup

end ExtKtrace.Bpf
