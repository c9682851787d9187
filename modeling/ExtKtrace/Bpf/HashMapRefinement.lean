import ExtKtrace.Lib.BoundedMap
import ExtKtrace.Bpf.HashMap

/-!
# The hash map is a bounded partial map

The abstract map takes keys and values of the right length only, so a wrong length is
refused before it gets there. Flags are read as the numbers they are.
-/

namespace ExtKtrace.Bpf.HashMapRefinement
set_option autoImplicit false

/-- Byte strings of one length. -/
abbrev Sized (n : UInt32) := {bytes : Bytes // bytes.length = n.toNat}

variable {keySize valueSize maxEntries : UInt32}

abbrev Abstract (keySize valueSize maxEntries : UInt32) :=
  BoundedMap (Sized keySize) (Sized valueSize) maxEntries.toNat

/-- The calls, with the slices and flag words exactly as the caller passes them. -/
inductive Op where
  | update (key value : Bytes) (flags : UInt64)
  | delete (key : Bytes)
  | lookup (key : Bytes)
  | lookupAndDelete (key value : Bytes)
  deriving Repr, DecidableEq

/-- What a call returns; `taken` carries the caller's buffer. -/
inductive Answer where
  | done (r : Except BpfError Unit)
  | found (r : Except BpfError (Option Bytes))
  | taken (r : Except BpfError Bytes)

def Answer.IsErr : Answer → Prop
  | .done (.error _) | .found (.error _) | .taken (.error _) => True
  | _ => False

def step (m : BpfHashMap) : Op → Option (Answer × BpfHashMap)
  | .update key value flags =>
    ((BpfHashMap.updateElem key value flags).exec m).map (Prod.map .done id)
  | .delete key => ((BpfHashMap.deleteElem key).exec m).map (Prod.map .done id)
  | .lookup key => ((BpfHashMap.lookupElem key).exec m).map (Prod.map .found id)
  | .lookupAndDelete key value =>
    ((BpfHashMap.lookupAndDeleteElem key value).exec m).map (Prod.map .taken id)

namespace Spec

def update (m : Abstract keySize valueSize maxEntries) (key value : Bytes) (flags : UInt64) :
    Except BpfError Unit × Abstract keySize valueSize maxEntries :=
  if h : key.length = keySize.toNat ∧ value.length = valueSize.toNat then
    if BadUpdateFlags flags then (.error .EINVAL, m)
    else if flags.toNat.testBit 0 ∧ (m.get ⟨key, h.1⟩).isSome then (.error .EEXIST, m)
    else if flags.toNat.testBit 1 ∧ (m.get ⟨key, h.1⟩).isNone then (.error .ENOENT, m)
    else
      match m.insert? ⟨key, h.1⟩ ⟨value, h.2⟩ with
      | none => (.error .ENOMEM, m)
      | some m' => (.ok (), m')
  else (.error .EINVAL, m)

def delete (m : Abstract keySize valueSize maxEntries) (key : Bytes) :
    Except BpfError Unit × Abstract keySize valueSize maxEntries :=
  if h : key.length = keySize.toNat then (.ok (), m.erase ⟨key, h⟩) else (.error .EINVAL, m)

def lookup (m : Abstract keySize valueSize maxEntries) (key : Bytes) :
    Except BpfError (Option Bytes) :=
  if h : key.length = keySize.toNat then .ok ((m.get ⟨key, h⟩).map Subtype.val)
  else .error .EINVAL

def lookupAndDelete (m : Abstract keySize valueSize maxEntries) (key value : Bytes) :
    Except BpfError Bytes × Abstract keySize valueSize maxEntries :=
  if h : key.length = keySize.toNat ∧ value.length = valueSize.toNat then
    match m.get ⟨key, h.1⟩ with
    | none => (.error .ENOENT, m)
    | some v => (.ok v.1, m.erase ⟨key, h.1⟩)
  else (.error .EINVAL, m)

def step (m : Abstract keySize valueSize maxEntries) :
    Op → Answer × Abstract keySize valueSize maxEntries
  | .update key value flags => Prod.map .done id (update m key value flags)
  | .delete key => Prod.map .done id (delete m key)
  | .lookup key => (.found (lookup m key), m)
  | .lookupAndDelete key value => Prod.map .taken id (lookupAndDelete m key value)

end Spec

/-- The tree holds exactly the abstract entries. -/
structure Represents (m : BpfHashMap) (b : Abstract keySize valueSize maxEntries) : Prop where
  key_size : m.keySize = keySize
  value_size : m.valueSize = valueSize
  max_entries : m.maxEntries = maxEntries
  get : ∀ k : Sized keySize, m.data[k.1]? = (b.get k).map Subtype.val
  keys : ∀ key, key ∈ m.data → key.length = keySize.toNat
  size : m.data.size = b.dom.card

namespace Represents
variable {m : BpfHashMap} {b b' : Abstract keySize valueSize maxEntries}

theorem contains_iff (h : Represents m b) (k : Sized keySize) :
    m.data.contains k.1 = (b.get k).isSome := by
  rw [Std.TreeMap.contains_eq_isSome_getElem?, h.get, Option.isSome_map]

/-- Presence in the tree is membership in the abstract domain. -/
theorem contains_dom (h : Represents m b) (k : Sized keySize) :
    m.data.contains k.1 ↔ k ∈ b.dom := by
  rw [h.contains_iff, b.mem_dom]

theorem insert (h : Represents m b) {k : Sized keySize} {v : Sized valueSize}
    (hb : b.insert? k v = some b') :
    Represents { m with data := m.data.insert k.1 v.1 } b' where
  key_size := h.key_size
  value_size := h.value_size
  max_entries := h.max_entries
  get k' := by
    rw [BoundedMap.insert?_get hb, Std.TreeMap.getElem?_insert, Function.update_apply]
    by_cases hk : k' = k
    · subst hk
      simp
    · have hne : k.1 ≠ k'.1 := fun he => hk (Subtype.ext he.symm)
      simp [hk, hne, h.get]
  keys key hkey := by
    rcases Std.TreeMap.mem_insert.mp hkey with heq | hold
    · rw [← Std.LawfulEqCmp.eq_of_compare heq]
      exact k.2
    · exact h.keys key hold
  size := by
    rw [BoundedMap.insert?_dom hb, Std.TreeMap.size_insert]
    by_cases hk : k ∈ b.dom
    · rw [if_pos ((h.contains_dom k).mpr hk), Finset.insert_eq_of_mem hk, h.size]
    · rw [if_neg (fun hc => hk ((h.contains_dom k).mp hc)), Finset.card_insert_of_notMem hk, h.size]

theorem erase (h : Represents m b) (k : Sized keySize) :
    Represents { m with data := m.data.erase k.1 } (b.erase k) where
  key_size := h.key_size
  value_size := h.value_size
  max_entries := h.max_entries
  get k' := by
    rw [BoundedMap.erase_get, Std.TreeMap.getElem?_erase, Function.update_apply]
    by_cases hk : k' = k
    · subst hk
      simp
    · have hne : k.1 ≠ k'.1 := fun he => hk (Subtype.ext he.symm)
      simp [hk, hne, h.get]
  keys key hkey := h.keys key (Std.TreeMap.mem_of_mem_erase hkey)
  size := by
    rw [BoundedMap.erase_dom, Std.TreeMap.size_erase]
    by_cases hk : k ∈ b.dom
    · rw [if_pos ((h.contains_dom k).mpr hk), Finset.card_erase_of_mem hk, h.size]
    · rw [if_neg (fun hc => hk ((h.contains_dom k).mp hc)), Finset.erase_eq_of_notMem hk, h.size]

/-- The capacity check of the code is the capacity check of the abstract insertion. -/
theorem full_iff (h : Represents m b) (k : Sized keySize) (v : Sized valueSize) :
    (!m.data.contains k.1 && decide (m.data.size ≥ m.maxEntries.toNat)) = true ↔
      b.insert? k v = none := by
  rw [BoundedMap.insert?_eq_none, h.contains_iff, h.size, h.max_entries]
  simp

end Represents

theorem Represents.sizes {m : BpfHashMap} {b : Abstract keySize valueSize maxEntries}
    (h : Represents m b) (key value : Bytes) :
    (key.length ≠ m.keySize.toNat ∨ value.length ≠ m.valueSize.toNat) ↔
      ¬ (key.length = keySize.toNat ∧ value.length = valueSize.toNat) := by
  rw [h.key_size, h.value_size]
  exact not_and_or.symm

theorem update_refines {m : BpfHashMap} {b : Abstract keySize valueSize maxEntries}
    (h : Represents m b) (key value : Bytes) (flags : UInt64) :
    ∃ m', (BpfHashMap.updateElem key value flags).exec m =
        some ((Spec.update b key value flags).1, m') ∧
      Represents m' (Spec.update b key value flags).2 := by
  rw [BpfHashMap.exec_updateElem]
  unfold Spec.update
  by_cases hlen : key.length = keySize.toNat ∧ value.length = valueSize.toNat
  swap
  · rw [if_pos ((h.sizes key value).mpr hlen), dif_neg hlen]
    exact ⟨m, rfl, h⟩
  have hpresent := h.contains_iff ⟨key, hlen.1⟩
  have hfull := h.full_iff ⟨key, hlen.1⟩ ⟨value, hlen.2⟩
  simp only at hpresent hfull
  rw [if_neg (fun hn => (h.sizes key value).mp hn hlen), dif_pos hlen]
  by_cases hbad : BadUpdateFlags flags
  · rw [if_pos hbad, if_pos hbad]
    exact ⟨m, rfl, h⟩
  rw [if_neg hbad, if_neg hbad, hpresent]
  by_cases hno : flags.toNat.testBit 0 ∧ (b.get ⟨key, hlen.1⟩).isSome
  · rw [if_pos hno, if_pos hno]
    exact ⟨m, rfl, h⟩
  rw [if_neg hno, if_neg hno]
  by_cases hex : flags.toNat.testBit 1 ∧ (b.get ⟨key, hlen.1⟩).isNone
  · rw [if_pos (by simpa using hex), if_pos hex]
    exact ⟨m, rfl, h⟩
  rw [if_neg (by simpa using hex), if_neg hex, ← hpresent]
  cases hins : b.insert? ⟨key, hlen.1⟩ ⟨value, hlen.2⟩ with
  | none =>
    rw [if_pos (hfull.mpr hins)]
    exact ⟨m, rfl, h⟩
  | some b' =>
    rw [if_neg (fun hc => by simp [hfull.mp hc] at hins)]
    exact ⟨_, rfl, h.insert hins⟩

theorem delete_refines {m : BpfHashMap} {b : Abstract keySize valueSize maxEntries}
    (h : Represents m b) (key : Bytes) :
    ∃ m', (BpfHashMap.deleteElem key).exec m = some ((Spec.delete b key).1, m') ∧
      Represents m' (Spec.delete b key).2 := by
  rw [BpfHashMap.exec_deleteElem]
  unfold Spec.delete
  by_cases hlen : key.length = keySize.toNat
  · rw [if_neg (by rw [h.key_size]; exact not_not_intro hlen), dif_pos hlen]
    exact ⟨_, rfl, h.erase ⟨key, hlen⟩⟩
  · rw [if_pos (by rw [h.key_size]; exact hlen), dif_neg hlen]
    exact ⟨m, rfl, h⟩

theorem lookup_refines {m : BpfHashMap} {b : Abstract keySize valueSize maxEntries}
    (h : Represents m b) (key : Bytes) :
    (BpfHashMap.lookupElem key).exec m = some (Spec.lookup b key, m) := by
  rw [BpfHashMap.exec_lookupElem, h.key_size]
  unfold Spec.lookup
  by_cases hlen : key.length = keySize.toNat
  · rw [if_neg (not_not_intro hlen), dif_pos hlen, ← h.get]
  · rw [if_pos hlen, dif_neg hlen]

/-- The stored value has the length of the caller's buffer, so the copy cannot panic. -/
theorem lookupAndDelete_refines {m : BpfHashMap} {b : Abstract keySize valueSize maxEntries}
    (h : Represents m b) (key value : Bytes) :
    ∃ m', (BpfHashMap.lookupAndDeleteElem key value).exec m =
        some ((Spec.lookupAndDelete b key value).1, m') ∧
      Represents m' (Spec.lookupAndDelete b key value).2 := by
  rw [BpfHashMap.exec_lookupAndDeleteElem]
  unfold Spec.lookupAndDelete
  by_cases hlen : key.length = keySize.toNat ∧ value.length = valueSize.toNat
  swap
  · rw [if_pos ((h.sizes key value).mpr hlen), dif_neg hlen]
    exact ⟨m, rfl, h⟩
  rw [if_neg (fun hn => (h.sizes key value).mp hn hlen), dif_pos hlen]
  have hget := h.get ⟨key, hlen.1⟩
  cases hb : b.get ⟨key, hlen.1⟩ with
  | none =>
    simp only [hb, Option.map_none] at hget
    rw [hget]
    exact ⟨m, rfl, h⟩
  | some v =>
    simp only [hb, Option.map_some] at hget
    have hcopy : copyFromSlice value v.1 = some v.1 :=
      copyFromSlice_eq_some.mpr ⟨hlen.2.trans v.2.symm, rfl⟩
    simp only [hget, hcopy, Option.map_some]
    exact ⟨_, rfl, h.erase ⟨key, hlen.1⟩⟩

theorem step_refines :
    Machine.Refines (@Represents keySize valueSize maxEntries) step Spec.step := by
  intro m b op h
  cases op with
  | update key value flags =>
    obtain ⟨m', hexec, hm'⟩ := update_refines h key value flags
    exact ⟨m', by simp [step, Spec.step, hexec], hm'⟩
  | delete key =>
    obtain ⟨m', hexec, hm'⟩ := delete_refines h key
    exact ⟨m', by simp [step, Spec.step, hexec], hm'⟩
  | lookup key => exact ⟨m, by simp [step, Spec.step, lookup_refines h key], h⟩
  | lookupAndDelete key value =>
    obtain ⟨m', hexec, hm'⟩ := lookupAndDelete_refines h key value
    exact ⟨m', by simp [step, Spec.step, hexec], hm'⟩

/-- A refused call leaves the map as it was, whatever the map. -/
theorem step_error_unchanged {m m' : BpfHashMap} {op : Op} {a : Answer}
    (h : step m op = some (a, m')) (ha : a.IsErr) : m' = m := by
  cases op with
  | update key value flags =>
    rw [step, BpfHashMap.exec_updateElem, Option.map_some] at h
    split_ifs at h <;> cases h <;> first | rfl | cases ha
  | delete key =>
    rw [step, BpfHashMap.exec_deleteElem, Option.map_some] at h
    split_ifs at h <;> cases h <;> first | rfl | cases ha
  | lookup key =>
    rw [step, BpfHashMap.exec_lookupElem, Option.map_some] at h
    cases h
    rfl
  | lookupAndDelete key value =>
    rw [step, BpfHashMap.exec_lookupAndDeleteElem] at h
    split_ifs at h
    · cases h
      rfl
    · split at h
      · cases h
        rfl
      · rename_i v _
        cases hcopy : copyFromSlice value v with
        | none => simp [hcopy] at h
        | some out =>
          simp only [hcopy, Option.map_some] at h
          cases h
          cases ha

theorem new_represents_empty {mapMeta : BpfMapMeta} {m : BpfHashMap}
    (h : BpfHashMap.new mapMeta = .ok m) :
    @Represents mapMeta.keySize mapMeta.valueSize mapMeta.maxEntries m (BoundedMap.empty _ _ _) := by
  unfold BpfHashMap.new at h
  split at h
  · cases h
  · cases h
    exact {
      key_size := rfl
      value_size := rfl
      max_entries := rfl
      get := fun _ => Std.TreeMap.getElem?_emptyc
      keys := fun _ hkey => absurd hkey Std.TreeMap.not_mem_emptyc
      size := rfl }

/-- Every history of calls on a new map answers as the bounded partial map does, without a
panic; the map stays within its capacity, and a call that fails next would change nothing. -/
theorem hashMap_refines_boundedMap (mapMeta : BpfMapMeta) (m₀ : BpfHashMap)
    (hnew : BpfHashMap.new mapMeta = .ok m₀) (ops : List Op) :
    let spec := Machine.specRun Spec.step
      (BoundedMap.empty (Sized mapMeta.keySize) (Sized mapMeta.valueSize)
        mapMeta.maxEntries.toNat) ops
    ∃ m, Machine.run step m₀ ops = some (spec.1, m) ∧ Represents m spec.2 ∧
      m.data.size ≤ mapMeta.maxEntries.toNat ∧
      ∀ op, ∃ a m', step m op = some (a, m') ∧ (a.IsErr → m' = m) := by
  intro spec
  obtain ⟨m, hrun, hm⟩ := step_refines.run ops (new_represents_empty hnew)
  refine ⟨m, hrun, hm, ?_, fun op => ?_⟩
  · rw [hm.size]
    exact spec.2.card_le
  · obtain ⟨m', hstep, -⟩ := step_refines m _ op hm
    exact ⟨_, m', hstep, step_error_unchanged hstep⟩

/-- The history of the crate's own test: `NOEXIST` twice, `EXISTS` on an absent key, then a
third key in a map of two. -/
theorem hashMap_refines_boundedMap_flags : ∃ m₀ m,
    BpfHashMap.new ⟨1, 4, 2, 0⟩ = .ok m₀ ∧
    Machine.run step m₀
      [.update [49] [97, 97, 97, 49] 1, .update [49] [97, 97, 97, 50] 1,
        .update [50] [98, 98, 98, 50] 2, .update [50] [98, 98, 98, 50] 0,
        .update [51] [99, 99, 99, 51] 0] =
      some ([.done (.ok ()), .done (.error .EEXIST), .done (.error .ENOENT), .done (.ok ()),
        .done (.error .ENOMEM)], m) ∧ m.data.size ≤ 2 := by
  obtain ⟨m, hrun, -, hsize, -⟩ := hashMap_refines_boundedMap ⟨1, 4, 2, 0⟩ _ rfl
    [.update [49] [97, 97, 97, 49] 1, .update [49] [97, 97, 97, 50] 1,
      .update [50] [98, 98, 98, 50] 2, .update [50] [98, 98, 98, 50] 0,
      .update [51] [99, 99, 99, 51] 0]
  exact ⟨_, m, rfl, hrun.trans rfl, hsize⟩

end ExtKtrace.Bpf.HashMapRefinement
