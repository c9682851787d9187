import ExtKtrace.Lib.Call
import ExtKtrace.Lib.Machine
import ExtKtrace.Bpf.Map

/-! # The hash map -/

namespace ExtKtrace.Bpf
set_option autoImplicit false

structure BpfHashMap where
  maxEntries : UInt32
  keySize : UInt32
  valueSize : UInt32
  data : BTreeMap Bytes Bytes

namespace BpfHashMap

def new (mapMeta : BpfMapMeta) : Except BpfError BpfHashMap :=
  if mapMeta.keySize = 0 ∨ mapMeta.valueSize = 0 ∨ mapMeta.maxEntries = 0 then .error .EINVAL
  else .ok {
    maxEntries := mapMeta.maxEntries
    keySize := mapMeta.keySize
    valueSize := mapMeta.valueSize
    data := ∅ }

abbrev Method (α : Type) := Call BpfError BpfHashMap α

def validateKey (key : Bytes) : Method Unit := validateLen keySize key

def validateValue (value : Bytes) : Method Unit := validateLen valueSize value

def lookupElem (key : Bytes) : Method (Option Bytes) := do
  validateKey key
  return (← Call.self).data[key]?

def updateElem (key value : Bytes) (flags : UInt64) : Method Unit := do
  let present ← checkedUpdate keySize valueSize (fun m => m.data.contains) key value flags
  if !present && (← Call.self).data.size ≥ (← Call.self).maxEntries.toNat then throw .ENOMEM
  Call.update fun m => { m with data := m.data.insert key value }

def deleteElem (key : Bytes) : Method Unit := do
  validateKey key
  Call.update fun m => { m with data := m.data.erase key }

def forEachElem {γ : Type} (cb : Bytes → Bytes → γ → Int32 × γ) (ctx : γ) (flags : UInt64) :
    Method (UInt32 × γ) := forEachOf (fun m => m.data.toList) cb ctx flags

def getNextKey (key : Option Bytes) (nextKey : Bytes) : Method Bytes :=
  nextKeyOf keySize (fun m => m.data.toList) (fun m => m.data.contains) key nextKey

/-- Returns what the caller's `value` buffer holds afterwards. -/
def lookupAndDeleteElem (key value : Bytes) : Method Bytes := do
  validateKey key
  validateValue value
  match (← Call.self).data[key]? with
  | none => throw .ENOENT
  | some v =>
    let value ← Call.orPanic (copyFromSlice value v)
    Call.update fun m => { m with data := m.data.erase key }
    return value

theorem exec_lookupElem (m : BpfHashMap) (key : Bytes) :
    (lookupElem key).exec m = some (
      if key.length ≠ m.keySize.toNat then .error .EINVAL else .ok m.data[key]?, m) := by
  unfold lookupElem validateKey
  rw [exec_validateLen_bind]
  split <;> rfl

theorem exec_deleteElem (m : BpfHashMap) (key : Bytes) :
    (deleteElem key).exec m = some (
      if key.length ≠ m.keySize.toNat then (.error .EINVAL, m)
      else (.ok (), { m with data := m.data.erase key })) := by
  unfold deleteElem validateKey
  rw [exec_validateLen_bind]
  split <;> rfl

theorem exec_updateElem (m : BpfHashMap) (key value : Bytes) (flags : UInt64) :
    (updateElem key value flags).exec m = some (
      if key.length ≠ m.keySize.toNat ∨ value.length ≠ m.valueSize.toNat then (.error .EINVAL, m)
      else if BadUpdateFlags flags then (.error .EINVAL, m)
      else if flags.toNat.testBit 0 ∧ m.data.contains key then (.error .EEXIST, m)
      else if flags.toNat.testBit 1 ∧ ¬ m.data.contains key then (.error .ENOENT, m)
      else if !m.data.contains key && decide (m.data.size ≥ m.maxEntries.toNat) then
        (.error .ENOMEM, m)
      else (.ok (), { m with data := m.data.insert key value })) := by
  unfold updateElem
  rw [Call.exec_bind, exec_checkedUpdate]
  split_ifs with hlen hbad hno hex hfull
  · rfl
  · rfl
  · rfl
  · rfl
  · simp only [Option.bind_some, Call.exec_bind_ok (Call.exec_self m)]
    rw [if_pos hfull]
    rfl
  · simp only [Option.bind_some, Call.exec_bind_ok (Call.exec_self m)]
    rw [if_neg hfull]
    rfl

theorem exec_lookupAndDeleteElem (m : BpfHashMap) (key value : Bytes) :
    (lookupAndDeleteElem key value).exec m =
      if key.length ≠ m.keySize.toNat ∨ value.length ≠ m.valueSize.toNat then
        some (.error .EINVAL, m)
      else
        match m.data[key]? with
        | none => some (.error .ENOENT, m)
        | some v =>
          (copyFromSlice value v).map fun out =>
            (.ok out, { m with data := m.data.erase key }) := by
  unfold lookupAndDeleteElem validateKey validateValue
  rw [exec_validateLen_bind, exec_validateLen_bind, Call.exec_bind_ok (Call.exec_self m), ite_or]
  cases m.data[key]? with
  | none => rfl
  | some v =>
    simp only
    rw [Call.exec_bind, Call.exec_orPanic]
    cases copyFromSlice value v <;> rfl

end BpfHashMap

end ExtKtrace.Bpf
