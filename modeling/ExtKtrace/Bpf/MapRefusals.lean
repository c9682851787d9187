import ExtKtrace.Bpf.UnifiedMap

/-!
# When a map operation fails

For each operation the arguments and maps on which it returns an error, over the fields of
the map alone. A per-CPU map refuses what the copy of the current CPU refuses.
-/

namespace ExtKtrace.Bpf
set_option autoImplicit false

open Call

namespace ArrayMap

def RefusesLookup (m : ArrayMap) (key : Bytes) : Prop :=
  key.length ≠ 4 ∨ m.maxEntries ≤ u32FromNeBytes key

/-- Only `BPF_ANY` and `BPF_EXISTS` go: the keys are fixed, and there is no lock. -/
def RefusesUpdate (m : ArrayMap) (key value : Bytes) (flags : UInt64) : Prop :=
  key.length ≠ 4 ∨ value.length ≠ m.valueSize.toNat ∨ 8 ≤ flags.toNat ∨
    flags.toNat.testBit 2 ∨ flags.toNat.testBit 0 ∨ m.maxEntries ≤ u32FromNeBytes key

theorem fails_lookupElem (m : ArrayMap) (key : Bytes) :
    (lookupElem key).Fails m ↔ m.RefusesLookup key := by
  unfold Fails
  rw [exec_lookupElem, failed_ite]
  simp [RefusesLookup]

theorem fails_updateElem (m : ArrayMap) (key value : Bytes) (flags : UInt64) :
    (updateElem key value flags).Fails m ↔ m.RefusesUpdate key value flags := by
  unfold Fails RefusesUpdate
  rw [exec_updateElem]
  simp only [failed_check, failed_map_ok, or_false, or_assoc]

theorem fails_forEachElem {γ : Type} (m : ArrayMap) (cb : Bytes → Bytes → γ → Int32 × γ) (ctx : γ)
    (flags : UInt64) : (forEachElem cb ctx flags).Fails m ↔ flags ≠ 0 := by
  unfold Fails
  rw [exec_forEachElem]
  simp [failed_ite]

end ArrayMap

namespace PerfEventArrayMap

def RefusesKey (m : PerfEventArrayMap) (key : Bytes) : Prop :=
  key.length ≠ 4 ∨ m.numCpus ≤ u32FromNeBytes key

def RefusesUpdate (m : PerfEventArrayMap) (key value : Bytes) (flags : UInt64) : Prop :=
  key.length ≠ 4 ∨ value.length ≠ 4 ∨ flags ≠ 0 ∨ m.numCpus ≤ u32FromNeBytes key

theorem fails_lookupElem (m : PerfEventArrayMap) (key : Bytes) :
    (lookupElem key).Fails m ↔ m.RefusesKey key := by
  unfold Fails
  rw [exec_lookupElem, failed_ite]
  simp [RefusesKey]

theorem fails_updateElem (m : PerfEventArrayMap) (key value : Bytes) (flags : UInt64) :
    (updateElem key value flags).Fails m ↔ m.RefusesUpdate key value flags := by
  unfold Fails RefusesUpdate
  rw [exec_updateElem]
  simp only [failed_check, failed_map_ok, or_false, or_assoc]

theorem fails_deleteElem (m : PerfEventArrayMap) (key : Bytes) :
    (deleteElem key).Fails m ↔ m.RefusesKey key := by
  unfold Fails
  rw [exec_deleteElem, failed_ite]
  simp [RefusesKey]

theorem fails_forEachElem {γ : Type} (m : PerfEventArrayMap)
    (cb : Bytes → Bytes → γ → Int32 × γ) (ctx : γ) (flags : UInt64) :
    (forEachElem cb ctx flags).Fails m ↔ flags ≠ 0 := by
  unfold Fails
  rw [exec_forEachElem]
  simp [failed_ite]

end PerfEventArrayMap

/-- What `update_elem` of the hash and the LRU map refuses before it looks at the room. -/
def RefusesFlags (flags : UInt64) (present : Bool) : Prop :=
  BadUpdateFlags flags ∨ (flags.toNat.testBit 0 ∧ present) ∨ (flags.toNat.testBit 1 ∧ ¬ present)

namespace BpfHashMap

def RefusesUpdate (m : BpfHashMap) (key value : Bytes) (flags : UInt64) : Prop :=
  key.length ≠ m.keySize.toNat ∨ value.length ≠ m.valueSize.toNat ∨
    RefusesFlags flags (m.data.contains key) ∨
    (¬ m.data.contains key ∧ m.maxEntries.toNat ≤ m.data.size)

theorem fails_lookupElem (m : BpfHashMap) (key : Bytes) :
    (lookupElem key).Fails m ↔ key.length ≠ m.keySize.toNat := by
  unfold Fails
  rw [exec_lookupElem]
  split <;> simp [*]

theorem fails_updateElem (m : BpfHashMap) (key value : Bytes) (flags : UInt64) :
    (updateElem key value flags).Fails m ↔ m.RefusesUpdate key value flags := by
  unfold Fails RefusesUpdate RefusesFlags
  rw [exec_updateElem]
  simp only [apply_ite some, failed_check, failed_ok, or_false, or_assoc, Bool.and_eq_true,
    decide_eq_true_eq, ge_iff_le, Bool.not_eq_true', Bool.not_eq_true]

theorem fails_deleteElem (m : BpfHashMap) (key : Bytes) :
    (deleteElem key).Fails m ↔ key.length ≠ m.keySize.toNat := by
  unfold Fails
  rw [exec_deleteElem]
  simp [apply_ite some, failed_ite]

theorem fails_forEachElem {γ : Type} (m : BpfHashMap) (cb : Bytes → Bytes → γ → Int32 × γ)
    (ctx : γ) (flags : UInt64) : (forEachElem cb ctx flags).Fails m ↔ flags ≠ 0 := by
  unfold Fails forEachElem
  rw [exec_forEachOf]
  split <;> simp [*]

end BpfHashMap

namespace LruMap
variable {crate : LruCrate Bytes Bytes}

def RefusesUpdate (m : LruMap crate) (key value : Bytes) (flags : UInt64) : Prop :=
  key.length ≠ m.keySize.toNat ∨ value.length ≠ m.valueSize.toNat ∨
    RefusesFlags flags (crate.contains key m.data)

theorem fails_lookupElem (m : LruMap crate) (key : Bytes) :
    (lookupElem key).Fails m ↔ key.length ≠ m.keySize.toNat := by
  unfold Fails
  rw [exec_lookupElem]
  simp [apply_ite some, failed_ite]

theorem fails_updateElem (m : LruMap crate) (key value : Bytes) (flags : UInt64) :
    (updateElem key value flags).Fails m ↔ m.RefusesUpdate key value flags := by
  unfold Fails RefusesUpdate RefusesFlags
  rw [exec_updateElem]
  simp only [apply_ite some, failed_check, failed_ok, or_false, or_assoc]

theorem fails_deleteElem (m : LruMap crate) (key : Bytes) :
    (deleteElem key).Fails m ↔ key.length ≠ m.keySize.toNat := by
  unfold Fails
  rw [exec_deleteElem]
  simp [apply_ite some, failed_ite]

theorem fails_forEachElem {γ : Type} (m : LruMap crate) (cb : Bytes → Bytes → γ → Int32 × γ)
    (ctx : γ) (flags : UInt64) : (forEachElem cb ctx flags).Fails m ↔ flags ≠ 0 := by
  unfold Fails forEachElem
  rw [exec_forEachOf]
  split <;> simp [*]

end LruMap

theorem SpecialMap.fails_lookupElem {σ : Type} [SpecialMap σ] (m : σ) (key : Bytes) :
    (lookupElem key).Fails m ↔ key ≠ [] := by
  unfold Fails
  rw [exec_lookupElem]
  split <;> simp [*]

/-- The checks of `pop` and `peek`, and then the element. -/
theorem failed_take {σ : Type} {value : Bytes} {m m₁ m₂ : σ} {refused : Prop} [Decidable refused]
    {found : Option Bytes} :
    Failed (if refused then some ((.error BpfError.EINVAL : Except BpfError Bytes), m) else
      match found with
      | none => some (.error .ENOENT, m₁)
      | some v => (copyFromSlice value v).map fun out => (.ok out, m₂)) ↔
    refused ∨ found = none := by
  rw [failed_ite]
  by_cases hrefused : refused
  · simp [hrefused]
  · cases found <;> simp [hrefused]

namespace QueueMap

def RefusesUpdate (m : QueueMap) (key value : Bytes) (flags : UInt64) : Prop :=
  key ≠ [] ∨ value.length ≠ m.valueSize.toNat ∨ flags ≠ 0

/-- `pop` and `peek` need a buffer of the value size and an element. -/
def RefusesTake (m : QueueMap) (value : Bytes) : Prop :=
  value.length ≠ m.valueSize.toNat ∨ m.data = []

theorem fails_updateElem (m : QueueMap) (key value : Bytes) (flags : UInt64) :
    (SpecialMap.updateElem key value flags).Fails m ↔ m.RefusesUpdate key value flags := by
  unfold Fails RefusesUpdate
  rw [exec_updateElem]
  simp only [failed_check, failed_map_ok, or_false, or_assoc]

theorem fails_popElem (m : QueueMap) (value : Bytes) :
    (SpecialMap.popElem value).Fails m ↔ m.RefusesTake value := by
  unfold Fails RefusesTake SpecialMap.popElem
  rw [exec_lookupAndDeleteElem]
  refine failed_take.trans ?_
  rw [List.head?_eq_none_iff]
  simp

theorem fails_peekElem (m : QueueMap) (value : Bytes) :
    (SpecialMap.peekElem value).Fails m ↔ m.RefusesTake value := by
  unfold Fails RefusesTake
  rw [SpecialMap.exec_peekElem]
  exact failed_take.trans (or_congr Iff.rfl List.head?_eq_none_iff)

end QueueMap

namespace StackMap

/-- A full stack pushes only under `BPF_EXISTS`. -/
def RefusesUpdate (m : StackMap) (key value : Bytes) (flags : UInt64) : Prop :=
  key ≠ [] ∨ value.length ≠ m.inner.valueSize.toNat ∨ BadUpdateFlags flags ∨
    (m.inner.data.length = m.inner.maxEntries.toNat ∧ ¬ flags.toNat.testBit 1)

theorem fails_updateElem (m : StackMap) (key value : Bytes) (flags : UInt64) :
    (SpecialMap.updateElem key value flags).Fails m ↔ m.RefusesUpdate key value flags := by
  unfold Fails RefusesUpdate
  rw [exec_updateElem]
  simp only [apply_ite some]
  -- only a full stack reads the flag, so fullness is a case split and not a check
  rw [failed_check, failed_check, failed_ite, failed_check]
  simp only [failed_ok, and_false, or_false, or_assoc]

theorem fails_popElem (m : StackMap) (value : Bytes) :
    (SpecialMap.popElem value).Fails m ↔ m.inner.RefusesTake value := by
  unfold Fails QueueMap.RefusesTake SpecialMap.popElem
  rw [exec_lookupAndDeleteElem]
  refine failed_take.trans ?_
  rw [List.getLast?_eq_none_iff]
  simp

theorem fails_peekElem (m : StackMap) (value : Bytes) :
    (SpecialMap.peekElem value).Fails m ↔ m.inner.RefusesTake value := by
  unfold Fails QueueMap.RefusesTake
  rw [SpecialMap.exec_peekElem]
  exact failed_take.trans (or_congr Iff.rfl List.getLast?_eq_none_iff)

end StackMap

theorem PerCpuVariants.Current.congr {α : Type} {P Q : α → Prop} (h : ∀ cell, P cell ↔ Q cell)
    {cpu : UInt32} {s : PerCpuVariants α} : s.Current cpu P ↔ s.Current cpu Q :=
  exists_congr fun cell => and_congr_right fun _ => h cell

theorem failed_within_onCpu {τ α β : Type} {wrap : PerCpuVariants α → τ} {c : Call BpfError α β}
    {P : α → Prop} (h : ∀ cell, c.Fails cell ↔ P cell) {cpu : UInt32} {s : PerCpuVariants α} :
    Failed (within wrap (PerCpuVariants.onCpu cpu c) s) ↔ s.Current cpu P :=
  (failed_within _ _ _).trans (PerCpuVariants.fails_onCpu.trans (PerCpuVariants.Current.congr h))

namespace BpfMap
variable {crate : LruCrate Bytes Bytes}

def RefusesLookup (cpu : UInt32) (key : Bytes) : BpfMap crate → Prop
  | .array m => m.RefusesLookup key
  | .perCpuArray m => m.Current cpu fun cell => cell.RefusesLookup key
  | .perfEventArray m => m.RefusesKey key
  | .hash m => key.length ≠ m.keySize.toNat
  | .perCpuHash m => m.Current cpu fun cell => key.length ≠ cell.keySize.toNat
  | .queue _ => key ≠ []
  | .stack _ => key ≠ []
  | .lruHash m => key.length ≠ m.keySize.toNat
  | .lruPerCpuHash m => m.Current cpu fun cell => key.length ≠ cell.keySize.toNat
  | .ringBuf _ => True

def RefusesUpdate (cpu : UInt32) (key value : Bytes) (flags : UInt64) : BpfMap crate → Prop
  | .array m => m.RefusesUpdate key value flags
  | .perCpuArray m => m.Current cpu fun cell => cell.RefusesUpdate key value flags
  | .perfEventArray m => m.RefusesUpdate key value flags
  | .hash m => m.RefusesUpdate key value flags
  | .perCpuHash m => m.Current cpu fun cell => cell.RefusesUpdate key value flags
  | .queue m => m.RefusesUpdate key value flags
  | .stack m => m.RefusesUpdate key value flags
  | .lruHash m => m.RefusesUpdate key value flags
  | .lruPerCpuHash m => m.Current cpu fun cell => cell.RefusesUpdate key value flags
  | .ringBuf _ => True

def RefusesDelete (cpu : UInt32) (key : Bytes) : BpfMap crate → Prop
  | .perCpuArray m => m.Current cpu fun _ => True
  | .perfEventArray m => m.RefusesKey key
  | .hash m => key.length ≠ m.keySize.toNat
  | .perCpuHash m => m.Current cpu fun cell => key.length ≠ cell.keySize.toNat
  | .lruHash m => key.length ≠ m.keySize.toNat
  | .lruPerCpuHash m => m.Current cpu fun cell => key.length ≠ cell.keySize.toNat
  | .array _ | .queue _ | .stack _ | .ringBuf _ => True

def RefusesForEach (cpu : UInt32) (flags : UInt64) : BpfMap crate → Prop
  | .array _ | .perfEventArray _ | .hash _ | .lruHash _ => flags ≠ 0
  | .perCpuArray m => m.Current cpu fun _ => flags ≠ 0
  | .perCpuHash m => m.Current cpu fun _ => flags ≠ 0
  | .lruPerCpuHash m => m.Current cpu fun _ => flags ≠ 0
  | .queue _ | .stack _ | .ringBuf _ => True

def RefusesPush (value : Bytes) (flags : UInt64) : BpfMap crate → Prop
  | .queue m => m.RefusesUpdate [] value flags
  | .stack m => m.RefusesUpdate [] value flags
  | _ => True

def RefusesTake (value : Bytes) : BpfMap crate → Prop
  | .queue m => m.RefusesTake value
  | .stack m => m.inner.RefusesTake value
  | _ => True

theorem fails_lookupElem (cpu : UInt32) (key : Bytes) (m : BpfMap crate) :
    (lookupElem cpu key).Fails m ↔ m.RefusesLookup cpu key := by
  cases m with
  | array m => exact (failed_within _ _ _).trans (m.fails_lookupElem key)
  | perCpuArray m => exact failed_within_onCpu fun cell => cell.fails_lookupElem key
  | perfEventArray m => exact (failed_within _ _ _).trans (m.fails_lookupElem key)
  | hash m => exact (failed_within _ _ _).trans (m.fails_lookupElem key)
  | perCpuHash m => exact failed_within_onCpu fun cell => cell.fails_lookupElem key
  | queue m => exact (failed_within _ _ _).trans (SpecialMap.fails_lookupElem m key)
  | stack m => exact (failed_within _ _ _).trans (SpecialMap.fails_lookupElem m key)
  | lruHash m => exact (failed_within _ _ _).trans (m.fails_lookupElem key)
  | lruPerCpuHash m => exact failed_within_onCpu fun cell => cell.fails_lookupElem key
  | ringBuf m => exact failed_error _ _

theorem fails_updateElem (cpu : UInt32) (key value : Bytes) (flags : UInt64) (m : BpfMap crate) :
    (updateElem cpu key value flags).Fails m ↔ m.RefusesUpdate cpu key value flags := by
  cases m with
  | array m => exact (failed_within _ _ _).trans (m.fails_updateElem key value flags)
  | perCpuArray m => exact failed_within_onCpu fun cell => cell.fails_updateElem key value flags
  | perfEventArray m => exact (failed_within _ _ _).trans (m.fails_updateElem key value flags)
  | hash m => exact (failed_within _ _ _).trans (m.fails_updateElem key value flags)
  | perCpuHash m => exact failed_within_onCpu fun cell => cell.fails_updateElem key value flags
  | queue m => exact (failed_within _ _ _).trans (m.fails_updateElem key value flags)
  | stack m => exact (failed_within _ _ _).trans (m.fails_updateElem key value flags)
  | lruHash m => exact (failed_within _ _ _).trans (m.fails_updateElem key value flags)
  | lruPerCpuHash m => exact failed_within_onCpu fun cell => cell.fails_updateElem key value flags
  | ringBuf m => exact failed_error _ _

theorem fails_deleteElem (cpu : UInt32) (key : Bytes) (m : BpfMap crate) :
    (deleteElem cpu key).Fails m ↔ m.RefusesDelete cpu key := by
  cases m with
  | perCpuArray m => exact failed_within_onCpu fun cell => failed_error _ _
  | perfEventArray m => exact (failed_within _ _ _).trans (m.fails_deleteElem key)
  | hash m => exact (failed_within _ _ _).trans (m.fails_deleteElem key)
  | perCpuHash m => exact failed_within_onCpu fun cell => cell.fails_deleteElem key
  | lruHash m => exact (failed_within _ _ _).trans (m.fails_deleteElem key)
  | lruPerCpuHash m => exact failed_within_onCpu fun cell => cell.fails_deleteElem key
  | array m => exact failed_error _ _
  | queue m => exact failed_error _ _
  | stack m => exact failed_error _ _
  | ringBuf m => exact failed_error _ _

theorem fails_forEachElem {γ : Type} (cpu : UInt32) (cb : Bytes → Bytes → γ → Int32 × γ) (ctx : γ)
    (flags : UInt64) (m : BpfMap crate) :
    (forEachElem cpu cb ctx flags).Fails m ↔ m.RefusesForEach cpu flags := by
  cases m with
  | array m => exact (failed_within _ _ _).trans (m.fails_forEachElem cb ctx flags)
  | perCpuArray m => exact failed_within_onCpu fun cell => cell.fails_forEachElem cb ctx flags
  | perfEventArray m => exact (failed_within _ _ _).trans (m.fails_forEachElem cb ctx flags)
  | hash m => exact (failed_within _ _ _).trans (m.fails_forEachElem cb ctx flags)
  | perCpuHash m => exact failed_within_onCpu fun cell => cell.fails_forEachElem cb ctx flags
  | lruHash m => exact (failed_within _ _ _).trans (m.fails_forEachElem cb ctx flags)
  | lruPerCpuHash m => exact failed_within_onCpu fun cell => cell.fails_forEachElem cb ctx flags
  | queue m => exact failed_error _ _
  | stack m => exact failed_error _ _
  | ringBuf m => exact failed_error _ _

theorem fails_pushElem (value : Bytes) (flags : UInt64) (m : BpfMap crate) :
    (pushElem value flags).Fails m ↔ m.RefusesPush value flags := by
  cases m with
  | queue m => exact (failed_within _ _ _).trans (m.fails_updateElem [] value flags)
  | stack m => exact (failed_within _ _ _).trans (m.fails_updateElem [] value flags)
  | _ => exact failed_error _ _

theorem fails_popElem (value : Bytes) (m : BpfMap crate) :
    (popElem value).Fails m ↔ m.RefusesTake value := by
  cases m with
  | queue m => exact (failed_within _ _ _).trans (m.fails_popElem value)
  | stack m => exact (failed_within _ _ _).trans (m.fails_popElem value)
  | _ => exact failed_error _ _

theorem fails_peekElem (value : Bytes) (m : BpfMap crate) :
    (peekElem value).Fails m ↔ m.RefusesTake value := by
  cases m with
  | queue m => exact (failed_within _ _ _).trans (m.fails_peekElem value)
  | stack m => exact (failed_within _ _ _).trans (m.fails_peekElem value)
  | _ => exact failed_error _ _

end BpfMap

end ExtKtrace.Bpf
