import ExtKtrace.Lib.RecencyList
import ExtKtrace.Bpf.Map

/-!
# The LRU map

The `lru` crate is a parameter: the operations that the map calls, and what the crate
promises about them in terms of the list `iter` walks, most recently used first.
-/

namespace ExtKtrace.Bpf
set_option autoImplicit false

/-- `lru::LruCache`, at the operations used here. -/
structure LruCrate (κ ν : Type) where
  Cache : Type
  new : Nat → Cache
  cap : Cache → Nat
  get : κ → Cache → Option ν × Cache
  contains : κ → Cache → Bool
  put : κ → ν → Cache → Cache
  pop : κ → Cache → Cache
  iter : Cache → List (κ × ν)

structure LruCrate.KeepsRecency {κ ν : Type} [DecidableEq κ] (crate : LruCrate κ ν) : Prop where
  cap_new : ∀ n, crate.cap (crate.new n) = n
  cap_get : ∀ k c, crate.cap (crate.get k c).2 = crate.cap c
  cap_put : ∀ k v c, crate.cap (crate.put k v c) = crate.cap c
  cap_pop : ∀ k c, crate.cap (crate.pop k c) = crate.cap c
  iter_new : ∀ n, crate.iter (crate.new n) = []
  get_value : ∀ k c, (crate.get k c).1 = (crate.iter c).lookup k
  iter_get : ∀ k c, crate.iter (crate.get k c).2 = RecencyList.touch k (crate.iter c)
  contains_iff : ∀ k c, crate.contains k c = ((crate.iter c).lookup k).isSome
  iter_put : ∀ k v c, crate.iter (crate.put k v c) =
    RecencyList.put (crate.cap c) k v (crate.iter c)
  iter_pop : ∀ k c, crate.iter (crate.pop k c) = RecencyList.remove k (crate.iter c)

structure LruMap (crate : LruCrate Bytes Bytes) where
  keySize : UInt32
  valueSize : UInt32
  data : crate.Cache

namespace LruMap
variable {crate : LruCrate Bytes Bytes}

def new (crate : LruCrate Bytes Bytes) (mapMeta : BpfMapMeta) : Except BpfError (LruMap crate) :=
  if mapMeta.valueSize = 0 ∨ mapMeta.maxEntries = 0 ∨ mapMeta.keySize = 0 then .error .EINVAL
  else .ok {
    keySize := mapMeta.keySize
    valueSize := mapMeta.valueSize
    data := crate.new mapMeta.maxEntries.toNat }

abbrev Method (crate : LruCrate Bytes Bytes) (α : Type) := Call BpfError (LruMap crate) α

def validateKey (key : Bytes) : Method crate Unit := validateLen keySize key

def validateValue (value : Bytes) : Method crate Unit := validateLen valueSize value

/-- `self.data.get(key)`, which may reorder the cache. -/
def getData (key : Bytes) : Method crate (Option Bytes) := do
  let found := (crate.get key (← Call.self).data).1
  Call.update fun m => { m with data := (crate.get key m.data).2 }
  return found

def lookupElem (key : Bytes) : Method crate (Option Bytes) := do
  validateKey key
  getData key

def updateElem (key value : Bytes) (flags : UInt64) : Method crate Unit := do
  let _ ← checkedUpdate keySize valueSize (fun m key => crate.contains key m.data) key value flags
  Call.update fun m => { m with data := crate.put key value m.data }

def deleteElem (key : Bytes) : Method crate Unit := do
  validateKey key
  Call.update fun m => { m with data := crate.pop key m.data }

def forEachElem {γ : Type} (cb : Bytes → Bytes → γ → Int32 × γ) (ctx : γ) (flags : UInt64) :
    Method crate (UInt32 × γ) := forEachOf (fun m => crate.iter m.data) cb ctx flags

/-- Returns what the caller's `value` buffer holds afterwards; the copy goes to its front. -/
def lookupAndDeleteElem (key value : Bytes) : Method crate Bytes := do
  validateKey key
  validateValue value
  match ← getData key with
  | none => throw .ENOENT
  | some v =>
    let front ← Call.orPanic (if v.length ≤ value.length then copyFromSlice (value.take v.length) v
      else none)
    Call.update fun m => { m with data := crate.pop key m.data }
    return front ++ value.drop v.length

def getNextKey (key : Option Bytes) (nextKey : Bytes) : Method crate Bytes :=
  nextKeyOf keySize (fun m => crate.iter m.data) (fun m key => crate.contains key m.data) key nextKey

theorem exec_getData (key : Bytes) (m : LruMap crate) :
    (getData key).exec m =
      some (.ok (crate.get key m.data).1, { m with data := (crate.get key m.data).2 }) := rfl

theorem exec_lookupElem (m : LruMap crate) (key : Bytes) :
    (lookupElem key).exec m = some (
      if key.length ≠ m.keySize.toNat then (.error .EINVAL, m)
      else (.ok (crate.get key m.data).1, { m with data := (crate.get key m.data).2 })) := by
  unfold lookupElem validateKey
  rw [exec_validateLen_bind]
  split <;> rfl

theorem exec_updateElem (m : LruMap crate) (key value : Bytes) (flags : UInt64) :
    (updateElem key value flags).exec m = some (
      if key.length ≠ m.keySize.toNat ∨ value.length ≠ m.valueSize.toNat then (.error .EINVAL, m)
      else if BadUpdateFlags flags then (.error .EINVAL, m)
      else if flags.toNat.testBit 0 ∧ crate.contains key m.data then (.error .EEXIST, m)
      else if flags.toNat.testBit 1 ∧ ¬ crate.contains key m.data then (.error .ENOENT, m)
      else (.ok (), { m with data := crate.put key value m.data })) := by
  unfold updateElem
  rw [Call.exec_bind, exec_checkedUpdate]
  split_ifs <;> rfl

theorem exec_deleteElem (m : LruMap crate) (key : Bytes) :
    (deleteElem key).exec m = some (
      if key.length ≠ m.keySize.toNat then (.error .EINVAL, m)
      else (.ok (), { m with data := crate.pop key m.data })) := by
  unfold deleteElem validateKey
  rw [exec_validateLen_bind]
  split <;> rfl

theorem exec_lookupAndDeleteElem (m : LruMap crate) (key value : Bytes) :
    (lookupAndDeleteElem key value).exec m =
      if key.length ≠ m.keySize.toNat ∨ value.length ≠ m.valueSize.toNat then
        some (.error .EINVAL, m)
      else
        match (crate.get key m.data).1 with
        | none => some (.error .ENOENT, { m with data := (crate.get key m.data).2 })
        | some v =>
          (if v.length ≤ value.length then copyFromSlice (value.take v.length) v else none).map
            fun front => (.ok (front ++ value.drop v.length),
              { m with data := crate.pop key (crate.get key m.data).2 }) := by
  unfold lookupAndDeleteElem validateKey validateValue
  rw [exec_validateLen_bind, exec_validateLen_bind, ite_or]
  rw [Call.exec_bind_ok (exec_getData key m)]
  cases (crate.get key m.data).1 with
  | none => rfl
  | some v =>
    simp only
    rw [Call.exec_bind, Call.exec_orPanic]
    cases (if v.length ≤ value.length then copyFromSlice (value.take v.length) v else none) <;> rfl

end LruMap

end ExtKtrace.Bpf
