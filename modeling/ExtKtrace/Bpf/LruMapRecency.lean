import ExtKtrace.Bpf.LruMap

/-!
# What the LRU map evicts

A history is the list of calls with their answers, newest first. The time of a key's last
touch is read off the history alone; the invariant says that the cache order agrees with it.
-/

namespace ExtKtrace.Bpf.LruMapRecency
set_option autoImplicit false

open RecencyList (keys)

variable {crate : LruCrate Bytes Bytes} {γ : Type}

/-- The calls; `γ` is what the callback's context points at. -/
inductive Op (γ : Type) where
  | update (key value : Bytes) (flags : UInt64)
  | lookup (key : Bytes)
  | delete (key : Bytes)
  | lookupAndDelete (key value : Bytes)
  | nextKey (key : Option Bytes) (nextKey : Bytes)
  | forEach (cb : Bytes → Bytes → γ → Int32 × γ) (ctx : γ) (flags : UInt64)

inductive Answer (γ : Type) where
  | done (r : Except BpfError Unit)
  | found (r : Except BpfError (Option Bytes))
  | filled (r : Except BpfError Bytes)
  | visited (r : Except BpfError (UInt32 × γ))

def Answer.IsErr : Answer γ → Prop
  | .done (.error _) | .found (.error _) | .filled (.error _) | .visited (.error _) => True
  | _ => False

def Op.ReadOnly : Op γ → Prop
  | .nextKey _ _ | .forEach _ _ _ => True
  | _ => False

def step (m : LruMap crate) : Op γ → Option (Answer γ × LruMap crate)
  | .update key value flags =>
    ((LruMap.updateElem key value flags).exec m).map (Prod.map .done id)
  | .lookup key => ((LruMap.lookupElem key).exec m).map (Prod.map .found id)
  | .delete key => ((LruMap.deleteElem key).exec m).map (Prod.map .done id)
  | .lookupAndDelete key value =>
    ((LruMap.lookupAndDeleteElem key value).exec m).map (Prod.map .filled id)
  | .nextKey key nextKey => ((LruMap.getNextKey key nextKey).exec m).map (Prod.map .filled id)
  | .forEach cb ctx flags =>
    ((LruMap.forEachElem cb ctx flags).exec m).map (Prod.map .visited id)

/-- A touch is a successful update or a lookup that finds its key. -/
def touched : Op γ × Answer γ → Option Bytes
  | (.update key _ _, .done (.ok _)) => some key
  | (.lookup key, .found (.ok (some _))) => some key
  | _ => none

/-- When a key was last touched: calls are numbered from one, and zero means never. -/
def lastTouch : List (Op γ × Answer γ) → Bytes → Nat
  | [], _ => 0
  | e :: log, key => if touched e = some key then log.length + 1 else lastTouch log key

/-- The calls made since the map was created, newest first, and the map they lead to. -/
inductive History (m₀ : LruMap crate) : List (Op γ × Answer γ) → LruMap crate → Prop where
  | start : History m₀ [] m₀
  | call {log : List (Op γ × Answer γ)} {m m' : LruMap crate} {op : Op γ} {a : Answer γ} :
      History m₀ log m → step m op = some (a, m') → History m₀ ((op, a) :: log) m'

theorem lastTouch_le (log : List (Op γ × Answer γ)) (key : Bytes) :
    lastTouch log key ≤ log.length := by
  induction log with
  | nil => simp [lastTouch]
  | cons e log ih =>
    simp only [lastTouch, List.length_cons]
    split <;> omega

theorem lastTouch_of_touched {e : Op γ × Answer γ} {log : List (Op γ × Answer γ)} {key : Bytes}
    (h : touched e = some key) :
    lastTouch (e :: log) = Function.update (lastTouch log) key (log.length + 1) := by
  funext k
  rw [lastTouch, h, Function.update_apply]
  simp [eq_comm]

theorem lastTouch_of_not_touched {e : Op γ × Answer γ} {log : List (Op γ × Answer γ)}
    (h : touched e = none) : lastTouch (e :: log) = lastTouch log := by
  funext k
  simp [lastTouch, h]

def entries (m : LruMap crate) : List (Bytes × Bytes) := crate.iter m.data

/-- The cache lists exactly the live keys, latest touch first. -/
structure Inv (mapMeta : BpfMapMeta) (log : List (Op γ × Answer γ)) (m : LruMap crate) : Prop where
  key_size : m.keySize = mapMeta.keySize
  value_size : m.valueSize = mapMeta.valueSize
  cap : crate.cap m.data = mapMeta.maxEntries.toNat
  size : (entries m).length ≤ mapMeta.maxEntries.toNat
  lengths : ∀ e ∈ entries m,
    e.1.length = mapMeta.keySize.toNat ∧ e.2.length = mapMeta.valueSize.toNat
  ordered : RecencyList.Ordered (lastTouch log) (entries m)
  touched_before : ∀ k ∈ keys (entries m), 0 < lastTouch log k

/-- Everything a call can do to the map: nothing visible, bring a key to the front, store an
entry, or take one out. -/
inductive Effect (m : LruMap crate) : Op γ → Answer γ → LruMap crate → Prop where
  | same {op : Op γ} {a : Answer γ} {m' : LruMap crate} :
      crate.iter m'.data = crate.iter m.data → touched (op, a) = none → Effect m op a m'
  | front {op : Op γ} {a : Answer γ} {m' : LruMap crate} {key : Bytes} :
      crate.iter m'.data = RecencyList.touch key (crate.iter m.data) →
      key ∈ keys (crate.iter m.data) → touched (op, a) = some key → ¬ a.IsErr → ¬ op.ReadOnly →
      Effect m op a m'
  | stored {key value : Bytes} {flags : UInt64} {m' : LruMap crate} :
      crate.iter m'.data = RecencyList.put (crate.cap m.data) key value (crate.iter m.data) →
      key.length = m.keySize.toNat → value.length = m.valueSize.toNat →
      Effect m (.update key value flags) (.done (.ok ())) m'
  | removed {op : Op γ} {a : Answer γ} {m' : LruMap crate} {key : Bytes} :
      crate.iter m'.data = RecencyList.remove key (crate.iter m.data) →
      (op = .delete key ∨ ∃ value, op = .lookupAndDelete key value) →
      ¬ a.IsErr → touched (op, a) = none → Effect m op a m'

theorem readOnly_unchanged {m m' : LruMap crate} {op : Op γ} {a : Answer γ}
    (h : step m op = some (a, m')) (hop : op.ReadOnly)
    (hkeys : ∀ e ∈ entries m, e.1.length = m.keySize.toNat) : m' = m := by
  cases op with
  | nextKey key nextKey =>
    obtain ⟨r, hr⟩ := exec_nextKeyOf LruMap.keySize (fun m => crate.iter m.data)
      (fun m key => crate.contains key m.data) key nextKey m hkeys
    rw [step, LruMap.getNextKey, hr] at h
    cases h
    rfl
  | forEach cb ctx flags =>
    rw [step, LruMap.forEachElem, exec_forEachOf] at h
    cases h
    rfl
  | _ => exact False.elim hop

variable (contract : crate.KeepsRecency)
include contract

theorem update_effect {m m' : LruMap crate} {key value : Bytes} {flags : UInt64} {a : Answer γ}
    (h : step m (.update key value flags) = some (a, m')) :
    Effect m (.update key value flags) a m' := by
  rw [step, LruMap.exec_updateElem, Option.map_some] at h
  split_ifs at h with hlen
  · cases h
    exact .same rfl rfl
  · cases h
    exact .same rfl rfl
  · cases h
    exact .same rfl rfl
  · cases h
    exact .same rfl rfl
  · cases h
    obtain ⟨hkey, hvalue⟩ := not_or.mp hlen
    exact .stored (contract.iter_put key value m.data) (not_not.mp hkey) (not_not.mp hvalue)

theorem lookup_effect {m m' : LruMap crate} {key : Bytes} {a : Answer γ}
    (h : step m (.lookup key) = some (a, m')) : Effect m (.lookup key) a m' := by
  rw [step, LruMap.exec_lookupElem, Option.map_some] at h
  split_ifs at h
  · cases h
    exact .same rfl rfl
  have hiter := contract.iter_get key m.data
  have hvalue := contract.get_value key m.data
  cases hget : (crate.get key m.data).1 with
  | none =>
    rw [hget] at h hvalue
    cases h
    refine .same (hiter.trans ?_) rfl
    exact RecencyList.touch_of_not_mem (RecencyList.lookup_eq_none.mp hvalue.symm)
  | some v =>
    rw [hget] at h hvalue
    cases h
    have hmem : key ∈ keys (crate.iter m.data) :=
      RecencyList.lookup_isSome.mp (by rw [← hvalue]; rfl)
    exact .front hiter hmem rfl (fun hf => hf) (fun hf => hf)

theorem delete_effect {m m' : LruMap crate} {key : Bytes} {a : Answer γ}
    (h : step m (.delete key) = some (a, m')) : Effect m (.delete key) a m' := by
  rw [step, LruMap.exec_deleteElem, Option.map_some] at h
  split_ifs at h
  · cases h
    exact .same rfl rfl
  · cases h
    exact .removed (contract.iter_pop key m.data) (Or.inl rfl) (fun hf => hf) rfl

/-- A hit first brings the key to the front and then takes it out: only the second shows. -/
theorem lookupAndDelete_effect {m m' : LruMap crate} {key value : Bytes} {a : Answer γ}
    (h : step m (.lookupAndDelete key value) = some (a, m')) :
    Effect m (.lookupAndDelete key value) a m' := by
  rw [step, LruMap.exec_lookupAndDeleteElem] at h
  split_ifs at h
  · cases h
    exact .same rfl rfl
  have hiter := contract.iter_get key m.data
  have hvalue := contract.get_value key m.data
  cases hget : (crate.get key m.data).1 with
  | none =>
    rw [hget] at h hvalue
    cases h
    refine .same (hiter.trans ?_) rfl
    exact RecencyList.touch_of_not_mem (RecencyList.lookup_eq_none.mp hvalue.symm)
  | some v =>
    rw [hget] at h
    obtain ⟨r, hr, heq⟩ := Option.map_eq_some_iff.mp h
    obtain ⟨front, -, rfl⟩ := Option.map_eq_some_iff.mp hr
    cases heq
    refine .removed ?_ (Or.inr ⟨value, rfl⟩) (fun hf => hf) rfl
    exact (contract.iter_pop key _).trans (by rw [hiter, RecencyList.remove_touch])

theorem step_effect {m m' : LruMap crate} {op : Op γ} {a : Answer γ}
    (hkeys : ∀ e ∈ entries m, e.1.length = m.keySize.toNat) (h : step m op = some (a, m')) :
    Effect m op a m' := by
  cases op with
  | update key value flags => exact update_effect contract h
  | lookup key => exact lookup_effect contract h
  | delete key => exact delete_effect contract h
  | lookupAndDelete key value => exact lookupAndDelete_effect contract h
  | nextKey key nextKey =>
    have hm := readOnly_unchanged h trivial hkeys
    exact .same (by rw [hm]) rfl
  | forEach cb ctx flags =>
    have hm := readOnly_unchanged h trivial hkeys
    exact .same (by rw [hm]) rfl

theorem step_frame {m m' : LruMap crate} {op : Op γ} {a : Answer γ}
    (hkeys : ∀ e ∈ entries m, e.1.length = m.keySize.toNat) (h : step m op = some (a, m')) :
    m'.keySize = m.keySize ∧ m'.valueSize = m.valueSize ∧
      crate.cap m'.data = crate.cap m.data := by
  cases op with
  | update key value flags =>
    rw [step, LruMap.exec_updateElem, Option.map_some] at h
    split_ifs at h <;> cases h <;> exact ⟨rfl, rfl, by simp [contract.cap_put]⟩
  | lookup key =>
    rw [step, LruMap.exec_lookupElem, Option.map_some] at h
    split_ifs at h <;> cases h <;> exact ⟨rfl, rfl, by simp [contract.cap_get]⟩
  | delete key =>
    rw [step, LruMap.exec_deleteElem, Option.map_some] at h
    split_ifs at h <;> cases h <;> exact ⟨rfl, rfl, by simp [contract.cap_pop]⟩
  | lookupAndDelete key value =>
    rw [step, LruMap.exec_lookupAndDeleteElem] at h
    split_ifs at h
    · cases h
      exact ⟨rfl, rfl, rfl⟩
    cases hget : (crate.get key m.data).1 with
    | none =>
      rw [hget] at h
      cases h
      exact ⟨rfl, rfl, contract.cap_get key m.data⟩
    | some v =>
      rw [hget] at h
      obtain ⟨r, hr, heq⟩ := Option.map_eq_some_iff.mp h
      obtain ⟨front, -, rfl⟩ := Option.map_eq_some_iff.mp hr
      cases heq
      exact ⟨rfl, rfl, (contract.cap_pop _ _).trans (contract.cap_get key m.data)⟩
  | nextKey key nextKey =>
    rw [readOnly_unchanged h trivial hkeys]
    exact ⟨rfl, rfl, rfl⟩
  | forEach cb ctx flags =>
    rw [readOnly_unchanged h trivial hkeys]
    exact ⟨rfl, rfl, rfl⟩

omit contract in
theorem Inv.key_lengths {mapMeta : BpfMapMeta} {log : List (Op γ × Answer γ)} {m : LruMap crate}
    (h : Inv mapMeta log m) : ∀ e ∈ entries m, e.1.length = m.keySize.toNat := by
  intro e he
  rw [h.key_size]
  exact (h.lengths e he).1

omit contract in
theorem new_inv {mapMeta : BpfMapMeta} {m : LruMap crate} (contract : crate.KeepsRecency)
    (h : LruMap.new crate mapMeta = .ok m) : Inv mapMeta ([] : List (Op γ × Answer γ)) m := by
  unfold LruMap.new at h
  split at h
  · cases h
  · cases h
    have hempty : crate.iter (crate.new mapMeta.maxEntries.toNat) = [] := contract.iter_new _
    exact {
      key_size := rfl
      value_size := rfl
      cap := contract.cap_new _
      size := by simp [entries, hempty]
      lengths := by simp [entries, hempty]
      ordered := by simp [entries, hempty, RecencyList.Ordered, keys]
      touched_before := by simp [entries, hempty, keys] }

omit contract in
/-- One step of the recency order: whatever the effect, the entries stay sorted by last touch. -/
theorem Effect.keeps_order {mapMeta : BpfMapMeta} {log : List (Op γ × Answer γ)}
    {m m' : LruMap crate} {op : Op γ} {a : Answer γ} (hm : Inv mapMeta log m)
    (heff : Effect m op a m') :
    RecencyList.Ordered (lastTouch ((op, a) :: log)) (entries m') ∧
      ∀ k ∈ keys (entries m'), 0 < lastTouch ((op, a) :: log) k := by
  have hnow : ∀ k ∈ keys (entries m), lastTouch log k < log.length + 1 :=
    fun k _ => Nat.lt_succ_of_le (lastTouch_le log k)
  have hpos : ∀ key k, (k = key ∨ k ∈ keys (entries m)) →
      0 < Function.update (lastTouch log) key (log.length + 1) k := by
    intro key k hk
    rw [Function.update_apply]
    split
    · exact Nat.succ_pos _
    · rename_i hne
      exact hm.touched_before k (hk.resolve_left hne)
  cases heff with
  | same hiter htouch =>
    rw [lastTouch_of_not_touched htouch]
    unfold entries
    rw [hiter]
    exact ⟨hm.ordered, hm.touched_before⟩
  | @front _ _ _ key hiter hmem htouch _ _ =>
    rw [lastTouch_of_touched htouch]
    obtain ⟨v, -, hfront⟩ := RecencyList.touch_of_mem hmem
    constructor
    · unfold entries
      rw [hiter, hfront]
      exact hm.ordered.front_now v hnow
    · intro k hk
      unfold entries at hk
      rw [hiter, RecencyList.mem_keys_touch] at hk
      exact hpos key k (Or.inr hk)
  | @stored key value flags _ hiter _ _ =>
    rw [lastTouch_of_touched (show touched (Op.update key value flags, _) = some key from rfl)]
    constructor
    · unfold entries
      rw [hiter]
      by_cases hmem : key ∈ keys (crate.iter m.data)
      · rw [RecencyList.put_of_mem hmem]
        exact hm.ordered.front_now value hnow
      · rw [RecencyList.put_of_not_mem hmem]
        exact (hm.ordered.cons_now value hmem hnow).take _
    · intro k hk
      unfold entries at hk
      rw [hiter] at hk
      obtain ⟨e, he, rfl⟩ := List.mem_map.mp hk
      refine hpos key e.1 ?_
      rcases RecencyList.mem_of_mem_put he with rfl | he
      · exact Or.inl rfl
      · exact Or.inr (List.mem_map.mpr ⟨e, he, rfl⟩)
  | removed hiter _ _ htouch =>
    rw [lastTouch_of_not_touched htouch]
    unfold entries
    rw [hiter]
    exact ⟨hm.ordered.remove _,
      fun k hk => hm.touched_before k (RecencyList.mem_keys_remove.mp hk).1⟩

theorem Inv.step {mapMeta : BpfMapMeta} {log : List (Op γ × Answer γ)} {m m' : LruMap crate}
    {op : Op γ} {a : Answer γ} (hm : Inv mapMeta log m)
    (h : LruMapRecency.step m op = some (a, m')) : Inv mapMeta ((op, a) :: log) m' := by
  have heff := step_effect contract hm.key_lengths h
  obtain ⟨hkey, hvalue, hcap⟩ := step_frame contract hm.key_lengths h
  obtain ⟨hordered, hpos⟩ := heff.keeps_order hm
  refine ⟨hkey.trans hm.key_size, hvalue.trans hm.value_size, hcap.trans hm.cap, ?_, ?_,
    hordered, hpos⟩
  · have hsize : (crate.iter m.data).length ≤ mapMeta.maxEntries.toNat := hm.size
    unfold entries
    cases heff with
    | same hiter _ => rw [hiter]; exact hsize
    | front hiter _ _ _ _ => rw [hiter]; exact (RecencyList.length_touch_le _ _).trans hsize
    | stored hiter _ _ => rw [hiter, hm.cap]; exact RecencyList.length_put_le hsize
    | removed hiter _ _ _ => rw [hiter]; exact (RecencyList.length_remove_le _ _).trans hsize
  · intro e he
    unfold entries at he
    cases heff with
    | same hiter _ => exact hm.lengths e (by rw [entries, ← hiter]; exact he)
    | front hiter _ _ _ _ => exact hm.lengths e (RecencyList.mem_of_mem_touch (hiter ▸ he))
    | stored hiter hk hv =>
      rcases RecencyList.mem_of_mem_put (hiter ▸ he) with rfl | he
      · exact ⟨by rw [← hm.key_size]; exact hk, by rw [← hm.value_size]; exact hv⟩
      · exact hm.lengths e he
    | removed hiter _ _ _ => exact hm.lengths e (List.mem_of_mem_filter (hiter ▸ he))

theorem History.inv {mapMeta : BpfMapMeta} {m₀ m : LruMap crate} {log : List (Op γ × Answer γ)}
    (hnew : LruMap.new crate mapMeta = .ok m₀) (h : History m₀ log m) : Inv mapMeta log m := by
  induction h with
  | start => exact new_inv contract hnew
  | call _ hstep ih => exact ih.step contract hstep

/-- A deletion asked for by the caller. -/
def Deletes (op : Op γ) (a : Answer γ) (k : Bytes) : Prop :=
  (op = .delete k ∨ ∃ value, op = .lookupAndDelete k value) ∧ ¬ a.IsErr

/-- An eviction: a successful update of an absent key in a full map, which loses exactly `k`,
the key whose last touch is the oldest. -/
def Evicts (mapMeta : BpfMapMeta) (log : List (Op γ × Answer γ)) (m m' : LruMap crate)
    (op : Op γ) (a : Answer γ) (k : Bytes) : Prop :=
  ∃ key value flags, op = .update key value flags ∧ a = .done (.ok ()) ∧
    key ∉ keys (entries m) ∧ (entries m).length = mapMeta.maxEntries.toNat ∧
    entries m' = (key, value) :: RecencyList.remove k (entries m) ∧
    ∀ k' ∈ keys (entries m), k' ≠ k → lastTouch log k < lastTouch log k'

omit contract in
/-- Storing a new key in a full map drops the last entry and nothing else. -/
theorem evicts_of_lost {mapMeta : BpfMapMeta} {log : List (Op γ × Answer γ)}
    {m m' : LruMap crate} (hm : Inv mapMeta log m) {key value : Bytes} {flags : UInt64}
    (hiter : crate.iter m'.data = RecencyList.put (crate.cap m.data) key value (crate.iter m.data))
    {k : Bytes} (hk : k ∈ keys (entries m)) (hlost : k ∉ keys (entries m')) :
    Evicts mapMeta log m m' (.update key value flags) (.done (.ok ())) k := by
  have hsize : (crate.iter m.data).length ≤ crate.cap m.data := hm.cap.symm ▸ hm.size
  have hlost' : k ∉ keys (RecencyList.put (crate.cap m.data) key value (crate.iter m.data)) := by
    rw [← hiter]
    exact hlost
  obtain ⟨hkey, hfull, hput, hrest⟩ := RecencyList.put_lost hsize hk hlost'
  refine ⟨key, value, flags, rfl, rfl, hkey, hfull.trans hm.cap, hiter.trans hput, ?_⟩
  intro k' hk' hne
  refine hm.ordered.dropped_oldest hk (n := crate.cap m.data - 1) ?_ ?_
  · show k ∉ keys ((crate.iter m.data).take _)
    rw [← hrest]
    exact fun h => (RecencyList.mem_keys_remove.mp h).2 rfl
  · show k' ∈ keys ((crate.iter m.data).take _)
    rw [← hrest]
    exact RecencyList.mem_keys_remove.mpr ⟨hk', hne⟩

theorem step_total {mapMeta : BpfMapMeta} {log : List (Op γ × Answer γ)} {m : LruMap crate}
    (hm : Inv mapMeta log m) (op : Op γ) : ∃ a m', step m op = some (a, m') := by
  cases op with
  | update key value flags => exact ⟨_, _, by rw [step, LruMap.exec_updateElem]; rfl⟩
  | lookup key => exact ⟨_, _, by rw [step, LruMap.exec_lookupElem]; rfl⟩
  | delete key => exact ⟨_, _, by rw [step, LruMap.exec_deleteElem]; rfl⟩
  | lookupAndDelete key value =>
    rw [step, LruMap.exec_lookupAndDeleteElem]
    split_ifs with hlen
    · exact ⟨_, _, rfl⟩
    have hvalue := contract.get_value key m.data
    cases hget : (crate.get key m.data).1 with
    | none => exact ⟨_, _, rfl⟩
    | some v =>
      rw [hget] at hvalue
      have hv : v.length = value.length := by
        rw [(hm.lengths _ (RecencyList.mem_of_lookup hvalue.symm)).2, ← hm.value_size]
        exact (not_not.mp (not_or.mp hlen).2).symm
      have hcopy : copyFromSlice (value.take v.length) v = some v :=
        copyFromSlice_eq_some.mpr ⟨by simp [hv], rfl⟩
      simp only [if_pos hv.le, hcopy]
      exact ⟨_, _, rfl⟩
  | nextKey key nextKey =>
    obtain ⟨r, hr⟩ := exec_nextKeyOf LruMap.keySize (fun m => crate.iter m.data)
      (fun m key => crate.contains key m.data) key nextKey m hm.key_lengths
    exact ⟨_, _, by rw [step, LruMap.getNextKey, hr]; rfl⟩
  | forEach cb ctx flags => exact ⟨_, _, by rw [step, LruMap.forEachElem, exec_forEachOf]; rfl⟩

/-- After any history of calls on a new map: it holds at most `max_entries` distinct keys, all
touched before; the next call does not panic; a call that fails or only reads keeps the entries
in their order; and a key disappears only by a deletion of it or by the eviction of the least
recently touched one. -/
theorem lru_evicts_least_recent (mapMeta : BpfMapMeta)
    (m₀ : LruMap crate) (hnew : LruMap.new crate mapMeta = .ok m₀)
    (log : List (Op γ × Answer γ)) (m : LruMap crate) (hlog : History m₀ log m) :
    (keys (entries m)).Nodup ∧ (entries m).length ≤ mapMeta.maxEntries.toNat ∧
    (∀ k ∈ keys (entries m), 0 < lastTouch log k) ∧
    ∀ op : Op γ, ∃ a m', step m op = some (a, m') ∧
      (a.IsErr ∨ op.ReadOnly → entries m' = entries m) ∧
      ∀ k ∈ keys (entries m), k ∉ keys (entries m') →
        Deletes op a k ∨ Evicts mapMeta log m m' op a k := by
  have hm := History.inv contract hnew hlog
  refine ⟨hm.ordered.nodup, hm.size, hm.touched_before, fun op => ?_⟩
  obtain ⟨a, m', hstep⟩ := step_total contract hm op
  have heff := step_effect contract hm.key_lengths hstep
  refine ⟨a, m', hstep, ?_, ?_⟩
  · intro hquiet
    cases heff with
    | same hiter _ => exact hiter
    | front _ _ _ herr hread => exact absurd hquiet (not_or.mpr ⟨herr, hread⟩)
    | stored _ _ _ => exact absurd hquiet (not_or.mpr ⟨fun hf => hf, fun hf => hf⟩)
    | removed _ hop herr _ =>
      refine absurd hquiet (not_or.mpr ⟨herr, ?_⟩)
      rcases hop with rfl | ⟨value, rfl⟩ <;> exact fun hf => hf
  · intro k hk hlost
    cases heff with
    | same hiter _ => exact absurd (by rw [entries, hiter]; exact hk) hlost
    | front hiter _ _ _ _ =>
      exact absurd (by rw [entries, hiter, RecencyList.mem_keys_touch]; exact hk) hlost
    | stored hiter _ _ => exact Or.inr (evicts_of_lost hm hiter hk hlost)
    | @removed _ _ _ key hiter hop herr _ =>
      have hkey : k = key := by
        by_contra hne
        refine hlost ?_
        rw [entries, hiter]
        exact RecencyList.mem_keys_remove.mpr ⟨hk, hne⟩
      subst hkey
      exact Or.inl ⟨hop, herr⟩

omit contract in
/-- A cache that is its recency list. -/
def listCrate (κ ν : Type) [DecidableEq κ] : LruCrate κ ν where
  Cache := Nat × List (κ × ν)
  new n := (n, [])
  cap c := c.1
  get k c := (c.2.lookup k, (c.1, RecencyList.touch k c.2))
  contains k c := (c.2.lookup k).isSome
  put k v c := (c.1, RecencyList.put c.1 k v c.2)
  pop k c := (c.1, RecencyList.remove k c.2)
  iter c := c.2

omit contract in
theorem listCrate_keepsRecency (κ ν : Type) [DecidableEq κ] :
    (listCrate κ ν).KeepsRecency where
  cap_new _ := rfl
  cap_get _ _ := rfl
  cap_put _ _ _ := rfl
  cap_pop _ _ := rfl
  iter_new _ := rfl
  get_value _ _ := rfl
  iter_get _ _ := rfl
  contains_iff _ _ := rfl
  iter_put _ _ _ := rfl
  iter_pop _ _ := rfl

omit contract in
/-- A map of two: keys 1 and 2 stored, 1 looked up; storing 3 then loses key 2. -/
theorem lru_evicts_least_recent_two : ∃ m₀ m, ∃ log : List (Op Unit × Answer Unit),
    LruMap.new (listCrate Bytes Bytes) ⟨1, 1, 2, 0⟩ = .ok m₀ ∧ History m₀ log m ∧
    keys (entries m) = [[1], [2]] ∧
    ∃ m', step m (.update [3] [30] 0 : Op Unit) = some (.done (.ok ()), m') ∧
      keys (entries m') = [[3], [1]] ∧
      Evicts ⟨1, 1, 2, 0⟩ log m m' (.update [3] [30] 0) (.done (.ok ())) [2] := by
  have hlog : History (⟨1, 1, (2, [])⟩ : LruMap (listCrate Bytes Bytes))
      ([(.lookup [1], .found (.ok (some [10]))), (.update [2] [20] 0, .done (.ok ())),
        (.update [1] [10] 0, .done (.ok ()))] : List (Op Unit × Answer Unit))
      ⟨1, 1, (2, [([1], [10]), ([2], [20])])⟩ :=
    .call (.call (.call .start rfl) rfl) rfl
  obtain ⟨-, -, -, hnext⟩ :=
    lru_evicts_least_recent (listCrate_keepsRecency _ _) ⟨1, 1, 2, 0⟩ _ rfl _ _ hlog
  obtain ⟨a, m', hstep, -, hlost⟩ := hnext (.update [3] [30] 0)
  refine ⟨_, _, _, rfl, hlog, rfl, ?_⟩
  cases hstep
  refine ⟨_, rfl, rfl, ?_⟩
  rcases hlost [2] (by decide) (by decide) with ⟨hdel, -⟩ | hev
  · rcases hdel with hdel | ⟨_, hdel⟩ <;> cases hdel
  · exact hev

end ExtKtrace.Bpf.LruMapRecency
