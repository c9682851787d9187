import ExtKtrace.Bpf.Helpers

/-!
# What the helpers return

An error leaves a raw helper as a positive number, so only calls whose operation succeeds
tell success from failure by the sign.
-/

namespace ExtKtrace.Bpf
set_option autoImplicit false

open Call

namespace RingBuf

/-- A record that is too long for any ring, for this ring, or for the room left in it. -/
def RefusesReserve (rb : RingBuf) (size : UInt64) : Prop :=
  RINGBUF_MAX_RECORD_SZ.toNat < size.toNat ∨ rb.size < extent size.toNat ∨
    rb.size ≤ (UInt64.ofNat (rb.producerPos.toNat + extent size.toNat) - rb.consumerPos).toNat

theorem fails_reserve (rb : RingBuf) (size : UInt64) :
    (reserve size).Fails rb ↔ rb.RefusesReserve size := by
  unfold Fails RefusesReserve
  rw [exec_reserve (p := rb.producerPos.toNat) (by simp)]
  simp only [apply_ite some, failed_check, failed_ok, or_false]

theorem infallible_commit (sample : Slice) (flags : BpfRingbufFlags) (discard : Bool) :
    Infallible (commit sample flags discard) := by
  unfold commit
  refine .bind .self fun rb => .bind (.orPanic _) fun hdr => .bind .self fun rb => ?_
  -- a sample that leads to another address ends the run instead
  refine .ite (.bind .stuck fun _ => ?_) ?_
  all_goals
    refine .bind (.update _) fun _ => .bind .self fun rb => .ite ?_ (.ite ?_ (.pure _))
    all_goals exact .bind (.update _) fun _ => .pure _

end RingBuf

theorem knownRingbufFlags_eq_error {flags : UInt64} :
    (∃ e, knownRingbufFlags flags = .error e) ↔ 4 ≤ flags.toNat := by
  unfold knownRingbufFlags
  have hknown := Word.uint64_and_not_three_eq_zero (x := flags)
  split
  · simp only [reduceCtorEq, exists_false, false_iff]
    have hlt := hknown.mp ‹_›
    omega
  · simp only [Except.error.injEq, exists_eq', true_iff]
    have hge := mt hknown.mpr ‹_›
    omega

theorem fails_outputRecord (rb : RingBuf) (data : Bytes) (flags : UInt64) :
    (outputRecord data flags).Fails rb ↔
      4 ≤ flags.toNat ∨ rb.RefusesReserve (.ofNat data.length) := by
  unfold outputRecord
  rw [fails_ofExcept_bind, knownRingbufFlags_eq_error]
  have hrest : ∀ f : BpfRingbufFlags, Fails (do
      let dataBuf ← Call.mapErr (fun _ : BpfError => .EAGAIN) (RingBuf.reserve (.ofNat data.length))
      let _ ← Call.orPanic (copyFromSlice (List.replicate dataBuf.len.toNat 0) data)
      Call.update (RingBuf.store dataBuf.ptr data)
      RingBuf.commit dataBuf f false) rb ↔ rb.RefusesReserve (.ofNat data.length) := by
    intro f
    rw [Infallible.fails_bind, fails_mapErr, RingBuf.fails_reserve]
    exact fun dataBuf => .bind (.orPanic _) fun _ => .bind (.update _) fun _ =>
      RingBuf.infallible_commit dataBuf f false
  simp only [hrest]
  cases hflags : knownRingbufFlags flags with
  | error e =>
    have hge := knownRingbufFlags_eq_error.mp ⟨e, hflags⟩
    simp [hge]
  | ok f => simp

theorem ArrayMap.lookupElem_returns {m : ArrayMap} {key : Bytes} (h : ¬ m.RefusesLookup key)
    (r : Option Bytes) :
    (lookupElem key).Returns m r ↔ (m.data.index (u32FromNeBytes key)).map some = some r := by
  unfold Returns RefusesLookup at *
  rw [exec_lookupElem, if_neg h]
  cases m.data.index (u32FromNeBytes key) <;> simp

theorem PerfEventArrayMap.lookupElem_returns {m : PerfEventArrayMap} {key : Bytes}
    (h : ¬ m.RefusesKey key) (r : Option Bytes) :
    (lookupElem key).Returns m r ↔ (m.fds.index (u32FromNeBytes key)).map some = some r := by
  unfold Returns RefusesKey at *
  rw [exec_lookupElem, if_neg h]
  cases m.fds.index (u32FromNeBytes key) <;> simp

theorem BpfHashMap.lookupElem_returns {m : BpfHashMap} {key : Bytes}
    (h : ¬ key.length ≠ m.keySize.toNat) (r : Option Bytes) :
    (lookupElem key).Returns m r ↔ some m.data[key]? = some r := by
  unfold Returns
  rw [exec_lookupElem, if_neg h]
  simp

theorem LruMap.lookupElem_returns {crate : LruCrate Bytes Bytes} {m : LruMap crate} {key : Bytes}
    (h : ¬ key.length ≠ m.keySize.toNat) (r : Option Bytes) :
    (lookupElem key).Returns m r ↔ some (crate.get key m.data).1 = some r := by
  unfold Returns
  rw [exec_lookupElem, if_neg h]
  simp

theorem SpecialMap.lookupElem_returns {σ : Type} [SpecialMap σ] {m : σ} {key : Bytes}
    (h : ¬ key ≠ []) (r : Option Bytes) :
    (lookupElem key).Returns m r ↔ some (peek m) = some r := by
  unfold Returns
  rw [exec_lookupElem, if_neg h]
  simp

/-- On the current CPU's copy. -/
theorem PerCpuVariants.onCpu_returns {α β : Type} {c : ExtKtrace.Call BpfError α β} {cpu : UInt32}
    {s : PerCpuVariants α} {refused : α → Prop} {found : α → Option β}
    (hc : ∀ cell, ¬ refused cell → ∀ b, c.Returns cell b ↔ found cell = some b)
    (h : ¬ s.Current cpu refused) (b : β) :
    (onCpu cpu c).Returns s b ↔ (s.cells[cpu.toNat]?.bind found) = some b := by
  rw [Option.bind_eq_some_iff]
  constructor
  · rintro ⟨s', hs'⟩
    obtain ⟨cell, cell', hcell, hexec, -⟩ := exec_onCpu.mp hs'
    have hok : ¬ refused cell := fun hr => h ⟨cell, hcell, hr⟩
    exact ⟨cell, hcell, (hc cell hok b).mp ⟨cell', hexec⟩⟩
  · rintro ⟨cell, hcell, hfound⟩
    have hok : ¬ refused cell := fun hr => h ⟨cell, hcell, hr⟩
    obtain ⟨cell', hexec⟩ := (hc cell hok b).mpr hfound
    exact ⟨_, exec_onCpu.mpr ⟨cell, cell', hcell, hexec, rfl⟩⟩

namespace BpfMap
variable {crate : LruCrate Bytes Bytes}

/-- What `lookup_elem` answers on a key it accepts; `none` where it panics. -/
def found (cpu : UInt32) (key : Bytes) : BpfMap crate → Option (Option Bytes)
  | .array m => (m.data.index (u32FromNeBytes key)).map some
  | .perCpuArray m => m.cells[cpu.toNat]?.bind fun cell =>
    (cell.data.index (u32FromNeBytes key)).map some
  | .perfEventArray m => (m.fds.index (u32FromNeBytes key)).map some
  | .hash m => some m.data[key]?
  | .perCpuHash m => m.cells[cpu.toNat]?.bind fun cell => some cell.data[key]?
  | .queue m => some m.data.head?
  | .stack m => some m.inner.data.getLast?
  | .lruHash m => some (crate.get key m.data).1
  | .lruPerCpuHash m => m.cells[cpu.toNat]?.bind fun cell => some (crate.get key cell.data).1
  | .ringBuf _ => none

/-- A lookup that is not refused answers what is found. -/
theorem lookupElem_returns {cpu : UInt32} {key : Bytes} {m : BpfMap crate}
    (h : ¬ m.RefusesLookup cpu key) (r : Option Bytes) :
    (lookupElem cpu key).Returns m r ↔ m.found cpu key = some r := by
  cases m with
  | array m =>
    refine (returns_within (d := lookupElem cpu key) rfl).trans ?_
    exact ArrayMap.lookupElem_returns h r
  | perCpuArray m =>
    refine (returns_within (d := lookupElem cpu key) rfl).trans ?_
    exact PerCpuVariants.onCpu_returns (fun _ hok => ArrayMap.lookupElem_returns hok) h r
  | perfEventArray m =>
    refine (returns_within (d := lookupElem cpu key) rfl).trans ?_
    exact PerfEventArrayMap.lookupElem_returns h r
  | hash m =>
    refine (returns_within (d := lookupElem cpu key) rfl).trans ?_
    exact BpfHashMap.lookupElem_returns h r
  | perCpuHash m =>
    refine (returns_within (d := lookupElem cpu key) rfl).trans ?_
    exact PerCpuVariants.onCpu_returns (fun _ hok => BpfHashMap.lookupElem_returns hok) h r
  | queue m =>
    refine (returns_within (d := lookupElem cpu key) rfl).trans ?_
    exact SpecialMap.lookupElem_returns h r
  | stack m =>
    refine (returns_within (d := lookupElem cpu key) rfl).trans ?_
    exact SpecialMap.lookupElem_returns h r
  | lruHash m =>
    refine (returns_within (d := lookupElem cpu key) rfl).trans ?_
    exact LruMap.lookupElem_returns h r
  | lruPerCpuHash m =>
    refine (returns_within (d := lookupElem cpu key) rfl).trans ?_
    exact PerCpuVariants.onCpu_returns (fun _ hok => LruMap.lookupElem_returns hok) h r
  | ringBuf m => exact absurd trivial h

/-- A ring buffer without room, or a map of another kind. -/
def RefusesReserve (size : UInt64) : BpfMap crate → Prop
  | .ringBuf rb => rb.RefusesReserve size
  | _ => True

end BpfMap

section
variable {crate : LruCrate Bytes Bytes}

theorem fails_onMap {α : Type} {c : ExtKtrace.Call BpfError (BpfMap crate) α}
    {s : HelperState crate} : (onMap c).Fails s ↔ c.Fails s.map.innerMap :=
  fails_focus.trans mapMut_fails

theorem onMap_returns {α : Type} {c : ExtKtrace.Call BpfError (BpfMap crate) α}
    {s : HelperState crate} {a : α} : (onMap c).Returns s a ↔ c.Returns s.map.innerMap a := by
  refine returns_focus.trans ⟨?_, ?_⟩
  · rintro ⟨m', h⟩
    obtain ⟨r, map, hexec, hr, -⟩ := mapMut_eq_some.mp h
    cases r with
    | error e => cases hr
    | ok b =>
      cases hr
      exact ⟨map, hexec⟩
  · rintro ⟨map, hexec⟩
    exact ⟨_, mapMut_eq_some.mpr ⟨_, map, hexec, rfl, rfl⟩⟩

theorem infallible_onMap {α : Type} {c : ExtKtrace.Call BpfError (BpfMap crate) α}
    (h : Infallible c) : Infallible (onMap c) := fun _ hs => h _ (fails_onMap.mp hs)

theorem infallible_commitSample (sample : UInt64) (flags : BpfRingbufFlags) (discard : Bool) :
    Infallible (commitSample sample flags discard : BpfMap.Method crate Unit) := by
  intro m h
  cases m with
  | ringBuf rb => exact RingBuf.infallible_commit _ flags discard rb ((failed_within _ _ _).mp h)
  | _ =>
    obtain ⟨e, m', he⟩ := h
    cases he

theorem fails_downcastRing_output (data : Bytes) (flags : UInt64) (m : BpfMap crate) :
    (downcastRing (outputRecord data flags)).Fails m ↔
      4 ≤ flags.toNat ∨ m.RefusesReserve (.ofNat data.length) := by
  cases m with
  | ringBuf rb => exact (failed_within _ _ _).trans (fails_outputRecord rb data flags)
  | _ => exact iff_of_true ⟨_, _, rfl⟩ (Or.inr trivial)

/-- A reservation whose error is looked at fails only on another kind of map. -/
theorem downcastRing_attempt (size : UInt64) (m : BpfMap crate) :
    (downcastRing (attempt (RingBuf.reserve size))).Fails m ∨
      (∃ r, (downcastRing (attempt (RingBuf.reserve size))).Returns m r ∧
        ∃ e : BpfError, r = .error e) ↔ m.RefusesReserve size := by
  cases m with
  | ringBuf rb =>
    have hfails : ¬ (downcastRing (attempt (RingBuf.reserve size)) :
        BpfMap.Method crate (Except BpfError Slice)).Fails (.ringBuf rb) :=
      fun h => Infallible.attempt _ rb ((failed_within _ _ _).mp h)
    have hreturns : ∀ r, (downcastRing (attempt (RingBuf.reserve size)) :
        BpfMap.Method crate (Except BpfError Slice)).Returns (.ringBuf rb) r ↔
          (attempt (RingBuf.reserve size)).Returns rb r := fun r => returns_within rfl
    rw [or_iff_right hfails]
    simp only [hreturns]
    refine Iff.trans ?_ ((@attempt_returns_error BpfError _ _ _ _ _).trans (rb.fails_reserve size))
    constructor
    · rintro ⟨r, h, e, rfl⟩
      exact ⟨e, h⟩
    · rintro ⟨e, h⟩
      exact ⟨_, h, e, rfl⟩
  | _ => exact iff_of_true (Or.inl ⟨_, _, rfl⟩) trivial

namespace HelperState

/-- The key behind a pointer that a program passes. -/
def keyAt (s : HelperState crate) (ptr : UInt64) : Bytes :=
  s.memory.slice ptr s.map.mapMeta.keySize.toNat

def valueAt (s : HelperState crate) (ptr : UInt64) : Bytes :=
  s.memory.slice ptr s.map.mapMeta.valueSize.toNat

end HelperState

/-- The file descriptor for a perf event is missing, malformed or refused by the kernel. -/
def RefusesFd (output : UInt32 → Except LinuxError Unit) : Option Bytes → Prop
  | none => True
  | some fd => fd.length ≠ 4 ∨ output (u32FromNeBytes fd) ≠ .ok ()

/-- The key that `perf_event_output` looks up. -/
def perfEventKey (F : HelperOps) (flags : UInt64) : Bytes :=
  u32ToNeBytes (if flags.toUInt32 = BPF_F_CURRENT_CPU.toUInt32 then F.currentCpuId
    else flags.toUInt32)

/-- When the operation behind a helper turns the call down. -/
def HelperCall.Refused (F : HelperOps) (s : HelperState crate) : HelperCall → Prop
  | .rawMapUpdateElem map key value flags => F.getUnifiedMapFromPtr map ≠ .ok () ∨
    s.map.innerMap.RefusesUpdate F.currentCpuId (s.keyAt key) (s.valueAt value) flags
  | .rawMapDeleteElem map key => F.getUnifiedMapFromPtr map ≠ .ok () ∨
    s.map.innerMap.RefusesDelete F.currentCpuId (s.keyAt key)
  | .rawMapForEachElem map cb _ flags => cb.isNone ∨ F.getUnifiedMapFromPtr map ≠ .ok () ∨
    s.map.innerMap.RefusesForEach F.currentCpuId flags
  | .rawMapPushElem map value flags => F.getUnifiedMapFromPtr map ≠ .ok () ∨
    s.map.innerMap.RefusesPush (s.valueAt value) flags
  | .rawMapPopElem map value => F.getUnifiedMapFromPtr map ≠ .ok () ∨
    s.map.innerMap.RefusesTake (s.valueAt value)
  | .rawMapPeekElem map value => F.getUnifiedMapFromPtr map ≠ .ok () ∨
    s.map.innerMap.RefusesTake (s.valueAt value)
  | .rawPerfEventOutput ctx map flags data size => F.getUnifiedMapFromPtr map ≠ .ok () ∨
    s.map.innerMap.RefusesLookup F.currentCpuId (perfEventKey F flags) ∨
    ∃ fd, s.map.innerMap.found F.currentCpuId (perfEventKey F flags) = some fd ∧
      RefusesFd (fun fd => F.perfEventOutput ctx fd (flags >>> 32).toUInt32
        (s.memory.slice data size.toNat)) fd
  | .rawProbeReadUserStr _ size src => size = 0 ∨ ∃ e, F.stringFromUserCstr src = .error e
  | .rawBpfRingbufOutput map _ size flags => F.getUnifiedMapFromPtr map ≠ .ok () ∨
    4 ≤ flags.toNat ∨ s.map.innerMap.RefusesReserve size
  | .rawBpfRingbufSubmit _ flags | .rawBpfRingbufDiscard _ flags => 4 ≤ flags.toNat
  | .rawBpfRingbufReserveDynptr map size flags => flags ≠ 0 ∨
    F.getUnifiedMapFromPtr map ≠ .ok () ∨ DYNPTR_MAX_SIZE < size ∨
    s.map.innerMap.RefusesReserve size.toUInt64
  | .rawBpfRingbufSubmitDynptr flags | .rawBpfRingbufDiscardDynptr flags =>
    s.dynPtr.data ≠ 0 ∧ 4 ≤ flags.toNat

variable {F : HelperOps} {s : HelperState crate}

theorem fails_mapUpdateElem (map key value flags : UInt64) :
    (mapUpdateElem F map key value flags).Fails s ↔
      (HelperCall.rawMapUpdateElem map key value flags).Refused F s := by
  unfold mapUpdateElem
  rw [fails_check_bind, fails_self_bind, fails_onMap, BpfMap.fails_updateElem]
  rfl

theorem fails_mapDeleteElem (map key : UInt64) : (mapDeleteElem F map key).Fails s ↔
    (HelperCall.rawMapDeleteElem map key).Refused F s := by
  unfold mapDeleteElem
  rw [fails_check_bind, fails_self_bind, fails_onMap, BpfMap.fails_deleteElem]
  rfl

theorem fails_mapForEachElem (map : UInt64) (cb : Option BpfCallBackFn) (ctx flags : UInt64) :
    (mapForEachElem F map cb ctx flags).Fails s ↔
      (HelperCall.rawMapForEachElem map cb ctx flags).Refused F s := by
  cases cb with
  | none => exact iff_of_true (fails_throw _ _) (Or.inl rfl)
  | some cb =>
    unfold mapForEachElem
    rw [fails_check_bind, fails_self_bind, Infallible.fails_bind, fails_onMap,
      BpfMap.fails_forEachElem]
    · simp [HelperCall.Refused]
    · exact fun r => .bind (.update _) fun _ => .pure _

theorem fails_mapPushElem (map value flags : UInt64) : (mapPushElem F map value flags).Fails s ↔
    (HelperCall.rawMapPushElem map value flags).Refused F s := by
  unfold mapPushElem
  rw [fails_check_bind, fails_self_bind, fails_onMap, BpfMap.fails_pushElem]
  rfl

theorem fails_mapTakeElem {take : Bytes → ExtKtrace.Call BpfError (BpfMap crate) Bytes}
    (htake : ∀ value m, (take value).Fails m ↔ m.RefusesTake value) (map value : UInt64) :
    (mapTakeElem F map value take).Fails s ↔ F.getUnifiedMapFromPtr map ≠ .ok () ∨
      s.map.innerMap.RefusesTake (s.valueAt value) := by
  unfold mapTakeElem
  rw [fails_check_bind, fails_self_bind, Infallible.fails_bind, fails_onMap, htake]
  · rfl
  · exact fun bytes => .update _

theorem error_iff_ne_ok {r : Except LinuxError Unit} : (∃ e, r = .error e) ↔ r ≠ .ok () := by
  cases r <;> simp

theorem fails_perfEventOutput (ctx map flags data size : UInt64) :
    (perfEventOutput F ctx map flags data size).Fails s ↔
      (HelperCall.rawPerfEventOutput ctx map flags data size).Refused F s := by
  unfold perfEventOutput HelperCall.Refused
  rw [fails_check_bind, fails_self_bind, fails_bind_value (P := RefusesFd fun fd =>
    F.perfEventOutput ctx fd (flags >>> 32).toUInt32 (s.memory.slice data size.toNat)), fails_onMap,
    BpfMap.fails_lookupElem]
  · refine or_congr Iff.rfl ?_
    by_cases hrefused : s.map.innerMap.RefusesLookup F.currentCpuId (perfEventKey F flags)
    · exact iff_of_true (Or.inl hrefused) (Or.inl hrefused)
    · refine (or_iff_right hrefused).trans (Iff.trans ?_ (or_iff_right hrefused).symm)
      refine exists_congr fun fd => and_congr_left fun _ => ?_
      exact onMap_returns.trans (BpfMap.lookupElem_returns hrefused fd)
  · intro fd t
    cases fd with
    | none => exact iff_of_true (fails_throw _ _) trivial
    | some fd =>
      exact fails_errorIf_bind.trans (or_congr Iff.rfl (fails_ofExcept.trans error_iff_ne_ok))

theorem fails_probeReadUserStr (dst : UInt64) (size : UInt32) (src : UInt64) :
    (probeReadUserStr F dst size src).Fails s ↔
      (HelperCall.rawProbeReadUserStr dst size src).Refused F s := by
  unfold probeReadUserStr
  rw [fails_errorIf_bind, Infallible.fails_bind, fails_ofExcept]
  · rfl
  · exact fun str => .bind (.update _) fun _ => .pure _

theorem fails_bpfRingbufOutput (map data size flags : UInt64) :
    (bpfRingbufOutput F map data size flags).Fails s ↔
      (HelperCall.rawBpfRingbufOutput map data size flags).Refused F s := by
  unfold bpfRingbufOutput
  rw [fails_check_bind, fails_self_bind, fails_onMap, fails_downcastRing_output]
  simp [HelperCall.Refused, Memory.slice]

theorem mapError_eq_error {ε δ α : Type} {f : ε → δ} {r : Except ε α} :
    (∃ e, r.mapError f = .error e) ↔ ∃ e, r = .error e := by
  cases r <;> simp

theorem fails_knownRingbufFlags {flags : UInt64} {f : BpfRingbufFlags → Helper crate Unit}
    (hf : ∀ flags, Infallible (f flags)) :
    (ofExcept ((knownRingbufFlags flags).mapError BpfError.errno) >>= f).Fails s ↔
      4 ≤ flags.toNat := by
  rw [Infallible.fails_bind hf, fails_ofExcept, mapError_eq_error, knownRingbufFlags_eq_error]

theorem fails_bpfRingbufCommit (discard : Bool) (sample flags : UInt64) :
    (bpfRingbufCommit discard sample flags).Fails s ↔ 4 ≤ flags.toNat :=
  fails_knownRingbufFlags fun _ => infallible_onMap (infallible_commitSample _ _ _)

theorem fails_bpfRingbufCommitDynptr (discard : Bool) (flags : UInt64) :
    (bpfRingbufCommitDynptr discard flags).Fails s ↔ s.dynPtr.data ≠ 0 ∧ 4 ≤ flags.toNat := by
  unfold bpfRingbufCommitDynptr
  rw [fails_self_bind]
  by_cases hnull : s.dynPtr.data = 0
  · rw [if_pos hnull]
    exact iff_of_false (Infallible.pure _ _) fun h => h.1 hnull
  · rw [if_neg hnull, and_iff_right hnull]
    refine fails_knownRingbufFlags fun _ => ?_
    exact .bind (infallible_onMap (infallible_commitSample _ _ _)) fun _ => .update _

theorem fails_bpfRingbufReserveDynptr (map : UInt64) (size : UInt32) (flags : UInt64) :
    (bpfRingbufReserveDynptr F map size flags).Fails s ↔
      (HelperCall.rawBpfRingbufReserveDynptr map size flags).Refused F s := by
  have hnull : ∀ s : HelperState crate,
      (bpfDynptrSetNull >>= fun _ => (fail .EINVAL : Helper crate Unit)).Fails s :=
    fun s => ⟨_, _, rfl⟩
  unfold bpfRingbufReserveDynptr
  by_cases hflags : flags = 0
  swap
  · rw [if_pos hflags]
    exact iff_of_true (hnull s) (Or.inl hflags)
  rw [if_neg (not_not_intro hflags), fails_check_bind]
  refine Iff.trans (or_congr Iff.rfl ?_) (or_iff_right (not_not_intro hflags)).symm
  by_cases hsize : DYNPTR_MAX_SIZE < size
  · rw [if_pos hsize]
    exact iff_of_true (hnull s) (Or.inl hsize)
  rw [if_neg hsize, fails_bind_value (P := fun r => ∃ e, r = .error e), fails_onMap]
  · simp only [onMap_returns]
    exact (downcastRing_attempt size.toUInt64 s.map.innerMap).trans (or_iff_right hsize).symm
  · intro r t
    cases r with
    | error e => exact iff_of_true (hnull t) ⟨e, rfl⟩
    | ok dataBuf => exact iff_of_false (Infallible.update _ _) (by simp)

/-- The wrapped operation returns an error exactly on the calls it refuses. -/
theorem fails_wrapped (call : HelperCall) : (call.wrapped F).Fails s ↔ call.Refused F s := by
  cases call with
  | rawMapUpdateElem map key value flags =>
    exact fails_mapOk.trans (fails_mapUpdateElem map key value flags)
  | rawMapDeleteElem map key => exact fails_mapOk.trans (fails_mapDeleteElem map key)
  | rawMapForEachElem map cb ctx flags =>
    exact fails_mapOk.trans (fails_mapForEachElem map cb ctx flags)
  | rawMapPushElem map value flags => exact fails_mapOk.trans (fails_mapPushElem map value flags)
  | rawMapPopElem map value =>
    exact fails_mapOk.trans (fails_mapTakeElem BpfMap.fails_popElem map value)
  | rawMapPeekElem map value =>
    exact fails_mapOk.trans (fails_mapTakeElem BpfMap.fails_peekElem map value)
  | rawPerfEventOutput ctx map flags data size =>
    exact fails_mapOk.trans (fails_perfEventOutput ctx map flags data size)
  | rawProbeReadUserStr dst size src =>
    exact fails_probeReadUserStr dst size src
  | rawBpfRingbufOutput map data size flags =>
    exact fails_mapOk.trans (fails_bpfRingbufOutput map data size flags)
  | rawBpfRingbufSubmit sample flags =>
    exact fails_mapOk.trans (fails_bpfRingbufCommit false sample flags)
  | rawBpfRingbufDiscard sample flags =>
    exact fails_mapOk.trans (fails_bpfRingbufCommit true sample flags)
  | rawBpfRingbufReserveDynptr map size flags =>
    exact fails_mapOk.trans (fails_bpfRingbufReserveDynptr map size flags)
  | rawBpfRingbufSubmitDynptr flags =>
    exact fails_mapOk.trans (fails_bpfRingbufCommitDynptr false flags)
  | rawBpfRingbufDiscardDynptr flags =>
    exact fails_mapOk.trans (fails_bpfRingbufCommitDynptr true flags)

theorem raw_nonneg {call : HelperCall} {v : Int} {s' : HelperState crate}
    (h : call.raw F s = some (v, s')) : 0 ≤ v := by
  unfold HelperCall.raw toI64 at h
  obtain ⟨⟨r, t⟩, -, heq⟩ := Option.map_eq_some_iff.mp h
  cases r <;> cases heq <;> exact Int.natCast_nonneg _

/-- A helper call tells failure by the sign exactly when its operation does not fail. -/
theorem raw_negative_iff (F : HelperOps) (s : HelperState crate) (call : HelperCall) :
    (∀ v s', call.raw F s = some (v, s') → (v < 0 ↔ (call.wrapped F).Fails s)) ↔
      ¬ call.Refused F s := by
  rw [← fails_wrapped]
  constructor
  · rintro h ⟨e, s', hexec⟩
    have hraw : call.raw F s = some ((e.code : Int), s') := by
      unfold HelperCall.raw toI64
      rw [hexec]
      rfl
    have hneg := (h _ _ hraw).mpr ⟨e, s', hexec⟩
    exact absurd (raw_nonneg hraw) (Int.not_le.mpr hneg)
  · intro h v s' hraw
    exact iff_of_false (Int.not_lt.mpr (raw_nonneg hraw)) h

/-- A kernel that knows the map pointer and refuses everything else. -/
def plainKernel : HelperOps where
  getUnifiedMapFromPtr _ := .ok ()
  currentCpuId := 0
  perfEventOutput _ _ _ _ := .error BpfError.EPERM.errno
  stringFromUserCstr _ := .error BpfError.EINVAL.errno

def oneCellState : HelperState (LruMapRecency.listCrate Bytes Bytes) where
  map := oneCell
  memory _ := 0
  dynPtr := ⟨0, 0, 0⟩

/-- On an array map of one element, a walk over it and a deletion that is not permitted both
return 1. -/
theorem raw_helpers_return_one : ∃ s₁ s₂,
    (HelperCall.rawMapForEachElem 1 (some fun _ _ _ memory => (0, memory)) 0 0).raw plainKernel
      oneCellState = some (1, s₁) ∧
    ¬ ((HelperCall.rawMapForEachElem 1 (some fun _ _ _ memory => (0, memory)) 0 0).wrapped
      plainKernel).Fails oneCellState ∧
    (HelperCall.rawMapDeleteElem 1 0).raw plainKernel oneCellState = some (1, s₂) ∧
    ((HelperCall.rawMapDeleteElem 1 0).wrapped plainKernel).Fails oneCellState := by
  refine ⟨_, _, rfl, ?_, rfl, ⟨_, _, rfl⟩⟩
  rintro ⟨e, s, h⟩
  cases h

end

end ExtKtrace.Bpf
