import ExtKtrace.Bpf.Array

/-!
# The queue and the stack map

Both keep their values in one vector. What they do with it is a `SpecialMap`; the map
operations are written once over that.
-/

namespace ExtKtrace.Bpf
set_option autoImplicit false

class SpecialMap (σ : Type) where
  push : Bytes → BpfMapUpdateElemFlags → Call BpfError σ Unit
  pop : Call BpfError σ (Option Bytes)
  peek : σ → Option Bytes
  valueSize : σ → Nat

structure QueueMap where
  maxEntries : UInt32
  valueSize : UInt32
  data : List Bytes

/-- The stack is a queue map used from its other end. -/
structure StackMap where
  inner : QueueMap

namespace QueueMap

def new (mapMeta : BpfMapMeta) : Except BpfError QueueMap :=
  if mapMeta.valueSize = 0 ∨ mapMeta.maxEntries = 0 ∨ mapMeta.keySize ≠ 0 then .error .EINVAL
  else .ok {
    maxEntries := mapMeta.maxEntries
    valueSize := mapMeta.valueSize
    data := [] }

/-- `Vec::remove(0)`, which panics on an empty vector. -/
def removeFirst : List Bytes → Option (Bytes × List Bytes)
  | [] => none
  | v :: rest => some (v, rest)

def push (value : Bytes) (flags : BpfMapUpdateElemFlags) : Call BpfError QueueMap Unit := do
  Call.errorIf (flags.bits ≠ 0) .EINVAL
  let m ← Call.self
  if m.data.length = m.maxEntries.toNat then
    let removed ← Call.orPanic (removeFirst m.data)
    Call.update fun m => { m with data := removed.2 ++ [value] }
  else Call.update fun m => { m with data := m.data ++ [value] }

def pop : Call BpfError QueueMap (Option Bytes) := do
  let m ← Call.self
  match m.data with
  | [] => return none
  | v :: rest =>
    Call.update fun m => { m with data := rest }
    return some v

instance : SpecialMap QueueMap where
  push := push
  pop := pop
  peek m := m.data.head?
  valueSize m := m.valueSize.toNat

end QueueMap

namespace StackMap

def new (mapMeta : BpfMapMeta) : Except BpfError StackMap := (QueueMap.new mapMeta).map .mk

def setData (data : List Bytes) (m : StackMap) : StackMap := ⟨{ m.inner with data := data }⟩

def push (value : Bytes) (flags : BpfMapUpdateElemFlags) : Call BpfError StackMap Unit := do
  let m ← Call.self
  if m.inner.data.length = m.inner.maxEntries.toNat then
    Call.errorIf (¬ flags.contains BpfMapUpdateElemFlags.BPF_EXISTS) .ENOMEM
    Call.update (setData (m.inner.data.dropLast ++ [value]))
  else Call.update (setData (m.inner.data ++ [value]))

def pop : Call BpfError StackMap (Option Bytes) := do
  let m ← Call.self
  Call.update (setData m.inner.data.dropLast)
  return m.inner.data.getLast?

instance : SpecialMap StackMap where
  push := push
  pop := pop
  peek m := m.inner.data.getLast?
  valueSize m := m.inner.valueSize.toNat

end StackMap

namespace SpecialMap
variable {σ : Type} [SpecialMap σ]

/-- Equal to `peek`. -/
def lookupElem (key : Bytes) : Call BpfError σ (Option Bytes) := do
  Call.errorIf (key ≠ []) .EINVAL
  return peek (← Call.self)

/-- Equal to `push`. -/
def updateElem (key value : Bytes) (flags : UInt64) : Call BpfError σ Unit := do
  let m ← Call.self
  Call.errorIf (key ≠ [] ∨ value.length ≠ valueSize m) .EINVAL
  let flag ← Call.ofExcept (validateUpdateFlags flags)
  push value flag

/-- Equal to `pop`; returns what the caller's `value` buffer holds afterwards. -/
def lookupAndDeleteElem (key value : Bytes) : Call BpfError σ Bytes := do
  let m ← Call.self
  Call.errorIf (key ≠ [] ∨ value.length ≠ valueSize m) .EINVAL
  match ← pop with
  | some v => Call.orPanic (copyFromSlice value v)
  | none => throw .ENOENT

def pushElem (value : Bytes) (flags : UInt64) : Call BpfError σ Unit := updateElem [] value flags

def popElem (value : Bytes) : Call BpfError σ Bytes := lookupAndDeleteElem [] value

def peekElem (value : Bytes) : Call BpfError σ Bytes := do
  let m ← Call.self
  Call.errorIf (value.length ≠ valueSize m) .EINVAL
  match peek m with
  | some v => Call.orPanic (copyFromSlice value v)
  | none => throw .ENOENT

theorem exec_lookupElem (m : σ) (key : Bytes) :
    (lookupElem key).exec m = some (if key ≠ [] then .error .EINVAL else .ok (peek m), m) := by
  unfold lookupElem
  rw [Call.exec_errorIf_bind]
  split <;> rfl

theorem exec_peekElem (m : σ) (value : Bytes) :
    (peekElem value).exec m =
      if value.length ≠ valueSize m then some (.error .EINVAL, m)
      else
        match peek m with
        | none => some (.error .ENOENT, m)
        | some v => (copyFromSlice value v).map fun out => (.ok out, m) := by
  unfold peekElem
  rw [Call.exec_bind_ok (Call.exec_self m), Call.exec_errorIf_bind]
  cases peek m <;> rfl

/-- The checks in front of a push. -/
theorem exec_updateElem (m : σ) (key value : Bytes) (flags : UInt64) :
    (updateElem key value flags).exec m =
      if key ≠ [] ∨ value.length ≠ valueSize m then some (.error .EINVAL, m)
      else
        match validateUpdateFlags flags with
        | .error e => some (.error e, m)
        | .ok flag => (push value flag).exec m := by
  unfold updateElem
  rw [Call.exec_bind_ok (Call.exec_self m), Call.exec_errorIf_bind, Call.exec_bind,
    Call.exec_ofExcept]
  cases validateUpdateFlags flags <;> rfl

theorem exec_lookupAndDeleteElem (m : σ) (key value : Bytes) :
    (lookupAndDeleteElem key value).exec m =
      if key ≠ [] ∨ value.length ≠ valueSize m then some (.error .EINVAL, m)
      else (pop >>= fun
        | some v => Call.orPanic (copyFromSlice value v)
        | none => throw .ENOENT).exec m := by
  unfold lookupAndDeleteElem
  rw [Call.exec_bind_ok (Call.exec_self m), Call.exec_errorIf_bind]

end SpecialMap

namespace QueueMap

theorem exec_pop (m : QueueMap) :
    pop.exec m = some (.ok m.data.head?, { m with data := m.data.tail }) := by
  unfold pop
  rw [Call.exec_bind_ok (Call.exec_self m)]
  obtain ⟨maxEntries, valueSize, data⟩ := m
  cases data <;> rfl

theorem exec_updateElem (m : QueueMap) (key value : Bytes) (flags : UInt64) :
    (SpecialMap.updateElem key value flags).exec m =
      if key ≠ [] ∨ value.length ≠ m.valueSize.toNat then some (.error .EINVAL, m)
      else if flags ≠ 0 then some (.error .EINVAL, m)
      else (if m.data.length = m.maxEntries.toNat then (removeFirst m.data).map Prod.snd
        else some m.data).map fun data => (.ok (), { m with data := data ++ [value] }) := by
  rw [SpecialMap.exec_updateElem]
  congr 1
  by_cases hbad : BadUpdateFlags flags
  · have hne : flags ≠ 0 := by
      rintro rfl
      exact absurd hbad (by decide)
    rw [validateUpdateFlags_of_bad hbad, if_pos hne]
  obtain ⟨flag, hflag, hbits⟩ := validateUpdateFlags_of_good hbad
  rw [hflag]
  show (push value flag).exec m = _
  unfold push
  rw [Call.exec_errorIf_bind, hbits]
  congr 1
  rw [Call.exec_bind_ok (Call.exec_self m)]
  split
  · rw [Call.exec_bind, Call.exec_orPanic]
    cases removeFirst m.data <;> rfl
  · rfl

theorem exec_lookupAndDeleteElem (m : QueueMap) (key value : Bytes) :
    (SpecialMap.lookupAndDeleteElem key value).exec m =
      if key ≠ [] ∨ value.length ≠ m.valueSize.toNat then some (.error .EINVAL, m)
      else
        match m.data.head? with
        | none => some (.error .ENOENT, { m with data := m.data.tail })
        | some v => (copyFromSlice value v).map fun out =>
          (.ok out, { m with data := m.data.tail }) := by
  rw [SpecialMap.exec_lookupAndDeleteElem]
  congr 1
  show (pop >>= _).exec m = _
  rw [Call.exec_bind_ok (exec_pop m)]
  cases m.data.head? <;> rfl

end QueueMap

namespace StackMap

theorem exec_pop (m : StackMap) :
    pop.exec m = some (.ok m.inner.data.getLast?, setData m.inner.data.dropLast m) := rfl

theorem exec_updateElem (m : StackMap) (key value : Bytes) (flags : UInt64) :
    (SpecialMap.updateElem key value flags).exec m = some (
      if key ≠ [] ∨ value.length ≠ m.inner.valueSize.toNat then (.error .EINVAL, m)
      else if BadUpdateFlags flags then (.error .EINVAL, m)
      else if m.inner.data.length = m.inner.maxEntries.toNat then
        if ¬ flags.toNat.testBit 1 then (.error .ENOMEM, m)
        else (.ok (), setData (m.inner.data.dropLast ++ [value]) m)
      else (.ok (), setData (m.inner.data ++ [value]) m)) := by
  rw [SpecialMap.exec_updateElem, apply_ite some]
  congr 1
  by_cases hbad : BadUpdateFlags flags
  · rw [validateUpdateFlags_of_bad hbad, if_pos hbad]
  obtain ⟨flag, hflag, hbits⟩ := validateUpdateFlags_of_good hbad
  obtain ⟨-, hexists, -⟩ := flag.contains_eq_testBit
  rw [hbits] at hexists
  rw [hflag, if_neg hbad]
  show (push value flag).exec m = _
  unfold push
  rw [Call.exec_bind_ok (Call.exec_self m)]
  split
  · rw [Call.exec_errorIf_bind, hexists, apply_ite some]
    rfl
  · rfl

theorem exec_lookupAndDeleteElem (m : StackMap) (key value : Bytes) :
    (SpecialMap.lookupAndDeleteElem key value).exec m =
      if key ≠ [] ∨ value.length ≠ m.inner.valueSize.toNat then some (.error .EINVAL, m)
      else
        match m.inner.data.getLast? with
        | none => some (.error .ENOENT, setData m.inner.data.dropLast m)
        | some v => (copyFromSlice value v).map fun out =>
          (.ok out, setData m.inner.data.dropLast m) := by
  rw [SpecialMap.exec_lookupAndDeleteElem]
  congr 1
  show (pop >>= _).exec m = _
  rw [Call.exec_bind_ok (exec_pop m)]
  cases m.inner.data.getLast? <;> rfl

end StackMap

end ExtKtrace.Bpf
