import ExtKtrace.Bpf.UnifiedMap

/-!
# What a map holds

The keys and values of a map apart from the order in which an LRU map lists them, and what
the map operations do to them.
-/

namespace ExtKtrace.Bpf
set_option autoImplicit false

/-- What one copy of a map holds. -/
inductive Store where
  | cells (data : Bytes)
  | table (get : Bytes → Option Bytes)
  | values (data : List Bytes)

def ArrayMap.store (m : ArrayMap) : Store := .cells m.data.data

def PerfEventArrayMap.store (m : PerfEventArrayMap) : Store := .cells m.fds.data

def BpfHashMap.store (m : BpfHashMap) : Store := .table fun key => m.data[key]?

def QueueMap.store (m : QueueMap) : Store := .values m.data

def StackMap.store (m : StackMap) : Store := .values m.inner.data

def LruMap.store {crate : LruCrate Bytes Bytes} (m : LruMap crate) : Store :=
  .table fun key => (crate.get key m.data).1

namespace BpfMap
variable {crate : LruCrate Bytes Bytes}

/-- One store for each copy; the records of a ring buffer are no elements. -/
def contents : BpfMap crate → List Store
  | .array m => [m.store]
  | .perCpuArray m => m.cells.map ArrayMap.store
  | .perfEventArray m => [m.store]
  | .hash m => [m.store]
  | .perCpuHash m => m.cells.map BpfHashMap.store
  | .queue m => [m.store]
  | .stack m => [m.store]
  | .lruHash m => [m.store]
  | .lruPerCpuHash m => m.cells.map LruMap.store
  | .ringBuf _ => []

end BpfMap

theorem ArrayMap.updateElem_error {m m' : ArrayMap} {key value : Bytes} {flags : UInt64}
    {e : BpfError} (h : (updateElem key value flags).exec m = some (.error e, m')) : m' = m := by
  rw [exec_updateElem] at h
  split_ifs at h
  all_goals first
    | exact absurd h Call.map_ok_ne_error
    | cases h; rfl

theorem ArrayMap.updateElem_atomic (m : ArrayMap) (key value : Bytes) (flags : UInt64) :
    (updateElem key value flags).AtomicOn store m :=
  .of_same fun _ _ h => updateElem_error h

theorem PerfEventArrayMap.updateElem_atomic (m : PerfEventArrayMap) (key value : Bytes)
    (flags : UInt64) : (updateElem key value flags).AtomicOn store m := by
  refine .of_same fun e m' h => ?_
  rw [exec_updateElem] at h
  split_ifs at h
  all_goals first
    | exact absurd h Call.map_ok_ne_error
    | cases h; rfl

theorem PerfEventArrayMap.deleteElem_atomic (m : PerfEventArrayMap) (key : Bytes) :
    (deleteElem key).AtomicOn store m := by
  refine .of_same fun e m' h => ?_
  rw [exec_deleteElem] at h
  split_ifs at h
  all_goals first
    | exact absurd h Call.map_ok_ne_error
    | cases h; rfl

theorem BpfHashMap.updateElem_atomic (m : BpfHashMap) (key value : Bytes) (flags : UInt64) :
    (updateElem key value flags).AtomicOn store m := by
  refine .of_same fun e m' h => ?_
  rw [exec_updateElem] at h
  split_ifs at h <;> cases h <;> rfl

theorem BpfHashMap.deleteElem_atomic (m : BpfHashMap) (key : Bytes) :
    (deleteElem key).AtomicOn store m := by
  refine .of_same fun e m' h => ?_
  rw [exec_deleteElem] at h
  split_ifs at h <;> cases h
  rfl

theorem QueueMap.updateElem_atomic (m : QueueMap) (key value : Bytes) (flags : UInt64) :
    (SpecialMap.updateElem key value flags).AtomicOn store m := by
  refine .of_same fun e m' h => ?_
  rw [exec_updateElem] at h
  split_ifs at h
  all_goals first
    | exact absurd h Call.map_ok_ne_error
    | cases h; rfl

theorem StackMap.updateElem_atomic (m : StackMap) (key value : Bytes) (flags : UInt64) :
    (SpecialMap.updateElem key value flags).AtomicOn store m := by
  refine .of_same fun e m' h => ?_
  rw [exec_updateElem] at h
  split_ifs at h <;> cases h <;> rfl

section Lru
variable {crate : LruCrate Bytes Bytes}

theorem LruMap.updateElem_atomic (m : LruMap crate) (key value : Bytes) (flags : UInt64) :
    (updateElem key value flags).AtomicOn store m := by
  refine .of_same fun e m' h => ?_
  rw [exec_updateElem] at h
  split_ifs at h <;> cases h <;> rfl

theorem LruMap.deleteElem_atomic (m : LruMap crate) (key : Bytes) :
    (deleteElem key).AtomicOn store m := by
  refine .of_same fun e m' h => ?_
  rw [exec_deleteElem] at h
  split_ifs at h <;> cases h
  rfl

end Lru

/-- What `lookup_and_delete_elem` hands out: the stored value, when the caller's buffer has
room for exactly that. -/
def BpfHashMap.takes (m : BpfHashMap) (key value : Bytes) : Option Bytes :=
  if key.length ≠ m.keySize.toNat ∨ value.length ≠ m.valueSize.toNat then none
  else m.data[key]?.bind (copyFromSlice value)

def QueueMap.takes (m : QueueMap) (key value : Bytes) : Option Bytes :=
  if key ≠ [] ∨ value.length ≠ m.valueSize.toNat then none
  else m.data.head?.bind (copyFromSlice value)

def StackMap.takes (m : StackMap) (key value : Bytes) : Option Bytes :=
  if key ≠ [] ∨ value.length ≠ m.inner.valueSize.toNat then none
  else m.inner.data.getLast?.bind (copyFromSlice value)

/-- Here a shorter value would leave the rest of the buffer as it was. -/
def LruMap.takes {crate : LruCrate Bytes Bytes} (m : LruMap crate) (key value : Bytes) :
    Option Bytes :=
  if key.length ≠ m.keySize.toNat ∨ value.length ≠ m.valueSize.toNat then none
  else (crate.get key m.data).1.bind fun v =>
    if v.length ≤ value.length then some (v ++ value.drop v.length) else none

/-- A method that hands out `takes` and loses an element by it, or hands out nothing and keeps
every element. -/
structure TakesOut {σ ω : Type} (view : σ → ω) (c : Call BpfError σ Bytes) (takes : Option Bytes)
    (m : σ) : Prop where
  atomic : c.AtomicOn view m
  ok_iff : ∀ out, (∃ m', c.exec m = some (.ok out, m')) ↔ takes = some out
  loses : ∀ out m', c.exec m = some (.ok out, m') → view m' ≠ view m

/-- The shape that `lookup_and_delete_elem` has in every map: checks, then the element, then
the copy into the caller's buffer, which may panic. -/
theorem TakesOut.of_exec {σ ω : Type} {view : σ → ω} {c : Call BpfError σ Bytes} {m s t : σ}
    {refused : Prop} [Decidable refused] {found : Option Bytes} {copy : Bytes → Option Bytes}
    (hexec : c.exec m = if refused then some (.error .EINVAL, m) else
      match found with
      | none => some (.error .ENOENT, s)
      | some v => (copy v).map fun out => (.ok out, t))
    (hnone : found = none → view s = view m) (hsome : found.isSome → view t ≠ view m) :
    TakesOut view c (if refused then none else found.bind copy) m := by
  by_cases hrefused : refused
  · rw [if_pos hrefused] at hexec ⊢
    refine ⟨?_, ?_, ?_⟩ <;> simp [Call.AtomicOn, hexec]
  rw [if_neg hrefused] at hexec ⊢
  cases found with
  | none =>
    refine ⟨?_, ?_, ?_⟩
    · intro e m' h
      rw [hexec] at h
      cases h
      exact hnone rfl
    · simp [hexec]
    · simp [hexec]
  | some v =>
    refine ⟨?_, ?_, ?_⟩
    · intro e m' h
      rw [hexec] at h
      exact absurd h Call.map_ok_ne_error
    · intro out
      rw [hexec, Option.bind_some]
      cases hcopy : copy v <;> simp [hcopy]
    · intro out m' h
      rw [hexec] at h
      cases hcopy : copy v with
      | none => simp [hcopy] at h
      | some x =>
        simp only [hcopy, Option.map_some, Option.some.injEq, Prod.mk.injEq] at h
        rw [← h.2]
        exact hsome rfl

theorem BpfHashMap.takesOut (m : BpfHashMap) (key value : Bytes) :
    TakesOut store (lookupAndDeleteElem key value) (m.takes key value) m := by
  refine .of_exec (exec_lookupAndDeleteElem m key value) (fun _ => rfl) ?_
  intro hfound heq
  have hget := congrFun (Store.table.inj heq) key
  simp only [Std.TreeMap.getElem?_erase_self] at hget
  rw [← hget] at hfound
  cases hfound

theorem QueueMap.takesOut (m : QueueMap) (key value : Bytes) :
    TakesOut store (SpecialMap.lookupAndDeleteElem key value) (m.takes key value) m := by
  refine .of_exec (exec_lookupAndDeleteElem m key value) ?_ ?_
  · intro hnone
    have hnil : m.data = [] := List.head?_eq_none_iff.mp hnone
    simp [store, hnil]
  · intro hfound heq
    have hdata := Store.values.inj heq
    obtain ⟨maxEntries, valueSize, data⟩ := m
    cases data with
    | nil => cases hfound
    | cons v rest => exact absurd (congrArg List.length hdata) (by simp)

theorem StackMap.takesOut (m : StackMap) (key value : Bytes) :
    TakesOut store (SpecialMap.lookupAndDeleteElem key value) (m.takes key value) m := by
  refine .of_exec (exec_lookupAndDeleteElem m key value) ?_ ?_
  · intro hnone
    have hnil : m.inner.data = [] := List.getLast?_eq_none_iff.mp hnone
    simp [store, setData, hnil]
  · intro hfound heq
    have hlen := congrArg List.length (Store.values.inj heq)
    have hne : m.inner.data ≠ [] := by
      intro hnil
      rw [hnil] at hfound
      cases hfound
    have hpos := List.length_pos_iff.mpr hne
    simp only [setData, List.length_dropLast] at hlen
    omega

theorem LruMap.takesOut {crate : LruCrate Bytes Bytes} (contract : crate.KeepsRecency)
    (m : LruMap crate) (key value : Bytes) :
    TakesOut store (lookupAndDeleteElem key value) (m.takes key value) m := by
  refine .of_exec (s := { m with data := (crate.get key m.data).2 })
    (t := { m with data := crate.pop key (crate.get key m.data).2 }) ?_ ?_ ?_
  · rw [exec_lookupAndDeleteElem]
    congr 1
    cases (crate.get key m.data).1 with
    | none => rfl
    | some v =>
      simp only [copyFromSlice, List.length_take]
      split
      · rename_i hle
        rw [if_pos (Nat.min_eq_left hle)]
        rfl
      · rfl
  · intro hnone
    rw [contract.get_value] at hnone
    have hkey := RecencyList.lookup_eq_none.mp hnone
    simp only [store, contract.get_value, contract.iter_get, RecencyList.touch_of_not_mem hkey]
  · intro hfound heq
    have hget := congrFun (Store.table.inj heq) key
    simp only [contract.get_value, contract.iter_pop, contract.iter_get,
      RecencyList.remove_touch] at hget
    have hkey : key ∉ RecencyList.keys (RecencyList.remove key (crate.iter m.data)) :=
      fun hmem => (RecencyList.mem_keys_remove.mp hmem).2 rfl
    have hgone := RecencyList.lookup_eq_none.mpr hkey
    rw [contract.get_value, ← hget, hgone] at hfound
    cases hfound

theorem atomicOn_onCpu {ω α β : Type} {view : α → ω} {c : Call BpfError α β} (cpu : UInt32)
    (h : ∀ cell, c.AtomicOn view cell) (s : PerCpuVariants α) :
    (PerCpuVariants.onCpu cpu c).AtomicOn (fun s => s.cells.map view) s := by
  intro e s' he
  obtain ⟨cell, cell', hcell, hexec, rfl⟩ := PerCpuVariants.exec_onCpu.mp he
  exact (PerCpuVariants.map_set view hcell).mpr (h cell e cell' hexec)

theorem TakesOut.onCpu {ω α : Type} {view : α → ω} {c : Call BpfError α Bytes}
    {takes : α → Option Bytes} (cpu : UInt32) (h : ∀ cell, TakesOut view c (takes cell) cell)
    (s : PerCpuVariants α) :
    TakesOut (fun s => s.cells.map view) (PerCpuVariants.onCpu cpu c)
      (s.cells[cpu.toNat]?.bind takes) s where
  atomic := atomicOn_onCpu cpu (fun cell => (h cell).atomic) s
  ok_iff out := by
    constructor
    · rintro ⟨s', hs'⟩
      obtain ⟨cell, cell', hcell, hexec, -⟩ := PerCpuVariants.exec_onCpu.mp hs'
      rw [hcell]
      exact ((h cell).ok_iff out).mp ⟨cell', hexec⟩
    · intro htakes
      obtain ⟨cell, hcell, htakes⟩ := Option.bind_eq_some_iff.mp htakes
      obtain ⟨cell', hexec⟩ := ((h cell).ok_iff out).mpr htakes
      exact ⟨_, PerCpuVariants.exec_onCpu.mpr ⟨cell, cell', hcell, hexec, rfl⟩⟩
  loses out s' hs' := by
    obtain ⟨cell, cell', hcell, hexec, rfl⟩ := PerCpuVariants.exec_onCpu.mp hs'
    intro heq
    exact (h cell).loses out cell' hexec ((PerCpuVariants.map_set view hcell).mp heq)

namespace BpfMap
variable {crate : LruCrate Bytes Bytes}

/-- What a kind does with its map is what the unified map does. -/
theorem atomicOn_of_within {ω τ β : Type} {view : τ → ω} {wrap : τ → BpfMap crate}
    {c : Call BpfError τ β} {d : Method crate β} {t : τ}
    (hd : d.exec (wrap t) = Call.within wrap c t)
    (hview : ∀ t', (wrap t').contents = (wrap t).contents ↔ view t' = view t)
    (h : c.AtomicOn view t) : d.AtomicOn contents (wrap t) := by
  intro e m' he
  rw [hd] at he
  obtain ⟨t', hexec, rfl⟩ := Call.within_eq_some.mp he
  exact (hview t').mpr (h e t' hexec)

theorem atomicOn_unsupported {β : Type} {d : Method crate β} {m : BpfMap crate} {e : BpfError}
    (hd : d.exec m = some (.error e, m)) : d.AtomicOn contents m := by
  intro e' m' he
  rw [hd] at he
  cases he
  rfl

theorem takesOut_of_within {ω τ : Type} {view : τ → ω} {wrap : τ → BpfMap crate}
    {c : Call BpfError τ Bytes} {takes : Option Bytes} {d : Method crate Bytes} {t : τ}
    (hd : d.exec (wrap t) = Call.within wrap c t)
    (hview : ∀ t', (wrap t').contents = (wrap t).contents ↔ view t' = view t)
    (h : TakesOut view c takes t) : TakesOut contents d takes (wrap t) where
  atomic := atomicOn_of_within hd hview h.atomic
  ok_iff out := by
    rw [← h.ok_iff out, hd]
    constructor
    · rintro ⟨m', hm'⟩
      obtain ⟨t', hexec, -⟩ := Call.within_eq_some.mp hm'
      exact ⟨t', hexec⟩
    · rintro ⟨t', hexec⟩
      exact ⟨wrap t', Call.within_eq_some.mpr ⟨t', hexec, rfl⟩⟩
  loses out m' hm' := by
    rw [hd] at hm'
    obtain ⟨t', hexec, rfl⟩ := Call.within_eq_some.mp hm'
    exact fun heq => h.loses out t' hexec ((hview t').mp heq)

theorem takesOut_unsupported {d : Method crate Bytes} {m : BpfMap crate} {e : BpfError}
    (hd : d.exec m = some (.error e, m)) : TakesOut contents d none m where
  atomic := atomicOn_unsupported hd
  ok_iff out := by simp [hd]
  loses out m' hm' := by simp [hd] at hm'

theorem updateElem_atomic (cpu : UInt32) (key value : Bytes) (flags : UInt64) (m : BpfMap crate) :
    (updateElem cpu key value flags).AtomicOn contents m := by
  cases m with
  | array m =>
    exact atomicOn_of_within rfl (fun _ => List.singleton_inj) (m.updateElem_atomic key value flags)
  | perCpuArray m =>
    exact atomicOn_of_within rfl (fun _ => Iff.rfl)
      (atomicOn_onCpu cpu (fun cell => cell.updateElem_atomic key value flags) m)
  | perfEventArray m =>
    exact atomicOn_of_within rfl (fun _ => List.singleton_inj) (m.updateElem_atomic key value flags)
  | hash m =>
    exact atomicOn_of_within rfl (fun _ => List.singleton_inj) (m.updateElem_atomic key value flags)
  | perCpuHash m =>
    exact atomicOn_of_within rfl (fun _ => Iff.rfl)
      (atomicOn_onCpu cpu (fun cell => cell.updateElem_atomic key value flags) m)
  | queue m =>
    exact atomicOn_of_within rfl (fun _ => List.singleton_inj) (m.updateElem_atomic key value flags)
  | stack m =>
    exact atomicOn_of_within rfl (fun _ => List.singleton_inj) (m.updateElem_atomic key value flags)
  | lruHash m =>
    exact atomicOn_of_within rfl (fun _ => List.singleton_inj) (m.updateElem_atomic key value flags)
  | lruPerCpuHash m =>
    exact atomicOn_of_within rfl (fun _ => Iff.rfl)
      (atomicOn_onCpu cpu (fun cell => cell.updateElem_atomic key value flags) m)
  | ringBuf m => exact atomicOn_unsupported rfl

theorem deleteElem_atomic (cpu : UInt32) (key : Bytes) (m : BpfMap crate) :
    (deleteElem cpu key).AtomicOn contents m := by
  cases m with
  | perCpuArray m =>
    refine atomicOn_of_within rfl (fun _ => Iff.rfl) (atomicOn_onCpu cpu (fun cell => ?_) m)
    exact .of_same fun e cell' h => by cases h; rfl
  | perfEventArray m =>
    exact atomicOn_of_within rfl (fun _ => List.singleton_inj) (m.deleteElem_atomic key)
  | hash m => exact atomicOn_of_within rfl (fun _ => List.singleton_inj) (m.deleteElem_atomic key)
  | perCpuHash m =>
    exact atomicOn_of_within rfl (fun _ => Iff.rfl)
      (atomicOn_onCpu cpu (fun cell => cell.deleteElem_atomic key) m)
  | lruHash m => exact atomicOn_of_within rfl (fun _ => List.singleton_inj) (m.deleteElem_atomic key)
  | lruPerCpuHash m =>
    exact atomicOn_of_within rfl (fun _ => Iff.rfl)
      (atomicOn_onCpu cpu (fun cell => cell.deleteElem_atomic key) m)
  | array m => exact atomicOn_unsupported rfl
  | queue m => exact atomicOn_unsupported rfl
  | stack m => exact atomicOn_unsupported rfl
  | ringBuf m => exact atomicOn_unsupported rfl

/-- The bytes that `lookup_and_delete_elem` hands out, if it finds the element. -/
def takes (cpu : UInt32) (key value : Bytes) : BpfMap crate → Option Bytes
  | .hash m => m.takes key value
  | .perCpuHash m => m.cells[cpu.toNat]?.bind fun cell => cell.takes key value
  | .queue m => m.takes key value
  | .stack m => m.takes key value
  | .lruHash m => m.takes key value
  | .lruPerCpuHash m => m.cells[cpu.toNat]?.bind fun cell => cell.takes key value
  | .array _ | .perCpuArray _ | .perfEventArray _ | .ringBuf _ => none

theorem lookupAndDeleteElem_takesOut (contract : crate.KeepsRecency) (cpu : UInt32)
    (key value : Bytes) (m : BpfMap crate) :
    TakesOut contents (lookupAndDeleteElem cpu key value) (m.takes cpu key value) m := by
  cases m with
  | hash m => exact takesOut_of_within rfl (fun _ => List.singleton_inj) (m.takesOut key value)
  | perCpuHash m =>
    exact takesOut_of_within rfl (fun _ => Iff.rfl)
      (.onCpu cpu (fun cell => cell.takesOut key value) m)
  | queue m => exact takesOut_of_within rfl (fun _ => List.singleton_inj) (m.takesOut key value)
  | stack m => exact takesOut_of_within rfl (fun _ => List.singleton_inj) (m.takesOut key value)
  | lruHash m =>
    exact takesOut_of_within rfl (fun _ => List.singleton_inj) (m.takesOut contract key value)
  | lruPerCpuHash m =>
    exact takesOut_of_within rfl (fun _ => Iff.rfl)
      (.onCpu cpu (fun cell => cell.takesOut contract key value) m)
  | array m => exact takesOut_unsupported rfl
  | perCpuArray m => exact takesOut_unsupported rfl
  | perfEventArray m => exact takesOut_unsupported rfl
  | ringBuf m => exact takesOut_unsupported rfl

end BpfMap

end ExtKtrace.Bpf
