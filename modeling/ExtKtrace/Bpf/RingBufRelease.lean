import ExtKtrace.Bpf.HelperReturns
import ExtKtrace.Bpf.RingBufQueue

/-!
# The release of ring buffer records

A program ends each reservation by one call of a submit or discard helper. The helpers look at
the flags first: with unknown flags the record stays busy, and the consumer stays behind it.
-/

namespace ExtKtrace.Bpf.RingBufRelease
set_option autoImplicit false

open RingBuf

variable {crate : LruCrate Bytes Bytes}

/-- The helpers that end a reservation. -/
inductive Release where
  | submit | discard | submitDynptr | discardDynptr

namespace Release

def discards : Release → Bool
  | submit => false
  | discard => true
  | submitDynptr => false
  | discardDynptr => true

/-- The call for a sample; two of the helpers take it from the dynptr. -/
def call (sample flags : UInt64) : Release → HelperCall
  | submit => .rawBpfRingbufSubmit sample flags
  | discard => .rawBpfRingbufDiscard sample flags
  | submitDynptr => .rawBpfRingbufSubmitDynptr flags
  | discardDynptr => .rawBpfRingbufDiscardDynptr flags

end Release

/-- The state of a helper call on a ring, when the dynptr is that of the sample. -/
def holding (base : HelperState crate) (ring : RingBuf) (sample : UInt64) : HelperState crate :=
  { base with
    map := { base.map with innerMap := .ringBuf ring }
    dynPtr := { base.dynPtr with data := sample } }

def ringOf : BpfMap crate → Option RingBuf
  | .ringBuf ring => some ring
  | _ => none

/-- The header in front of a sample is that of a finished record. -/
def Released (ring : RingBuf) (sample : UInt64) (discard : Bool) : Prop :=
  ∃ hdr, ring.loadHdr (sample - BPF_RINGBUF_HDR_SZ) = some hdr ∧
    hdr.len &&& BPF_RINGBUF_BUSY_BIT = 0 ∧ (discard → hdr.len &&& BPF_RINGBUF_DISCARD_BIT ≠ 0)

theorem exec_commitSample {sample : UInt64} {flags : BpfRingbufFlags} {discard : Bool}
    {ring ring' : RingBuf} (h : (commit ⟨sample, 1⟩ flags discard).exec ring = some (.ok (), ring'))
    (base : HelperState crate) (data : UInt64) :
    (onMap (commitSample sample flags discard)).exec (holding base ring data) =
      some (.ok (), holding base ring' data) := by
  have hwithin : (commitSample sample flags discard : BpfMap.Method crate Unit).exec
      (.ringBuf ring) = some (.ok (), .ringBuf ring') := Call.within_eq_some.mpr ⟨ring', h, rfl⟩
  rw [exec_onMap]
  show ((commitSample sample flags discard : BpfMap.Method crate Unit).exec (.ringBuf ring)).map _
    = _
  rw [hwithin]
  rfl

theorem knownRingbufFlags_of_lt {flags : UInt64} (h : flags.toNat < 4) :
    ∃ f, knownRingbufFlags flags = .ok f := by
  cases hf : knownRingbufFlags flags with
  | ok f => exact ⟨f, rfl⟩
  | error e => exact absurd (knownRingbufFlags_eq_error.mp ⟨e, hf⟩) (Nat.not_le.mpr h)

theorem knownRingbufFlags_of_le {flags : UInt64} (h : 4 ≤ flags.toNat) :
    knownRingbufFlags flags = .error .EINVAL := by
  obtain ⟨e, he⟩ := knownRingbufFlags_eq_error.mpr h
  have heinval := he
  unfold knownRingbufFlags at heinval
  split at heinval
  · cases heinval
  · rw [he, ← heinval]

/-- What a helper without a value returns. -/
def returned : Except LinuxError Unit → Int
  | .ok _ => 0
  | .error e => e.code

theorem toI64_of_exec {c : Helper crate Unit} {s s' : HelperState crate}
    {r : Except LinuxError Unit} (h : c.exec s = some (r, s')) :
    toI64 (c.mapOk fun _ => 0) s = some (returned r, s') := by
  have hmap : (c.mapOk fun _ => 0).exec s = (c.exec s).map fun r => (r.1.map fun _ => 0, r.2) :=
    rfl
  unfold toI64
  rw [hmap, h]
  cases r <;> rfl

theorem exec_commit_known {flags : UInt64} {f : BpfRingbufFlags}
    (hflags : knownRingbufFlags flags = .ok f) {sample : UInt64} {discard : Bool}
    {ring ring' : RingBuf} (h : (commit ⟨sample, 1⟩ f discard).exec ring = some (.ok (), ring'))
    (base : HelperState crate) (data : UInt64) :
    (bpfRingbufCommit discard sample flags).exec (holding base ring data) =
      some (.ok (), holding base ring' data) := by
  unfold bpfRingbufCommit
  rw [hflags]
  exact (Call.exec_bind_ok (Call.exec_ofExcept _ _)).trans (exec_commitSample h base data)

theorem exec_commit_unknown {flags : UInt64} (hflags : 4 ≤ flags.toNat) (sample : UInt64)
    (discard : Bool) (s : HelperState crate) :
    (bpfRingbufCommit discard sample flags).exec s = some (.error BpfError.EINVAL.errno, s) := by
  unfold bpfRingbufCommit
  rw [knownRingbufFlags_of_le hflags]
  exact Call.exec_bind_error (Call.exec_ofExcept _ _)

/-- The dynptr helpers are the others on the pointer in the dynptr, which they null after a
commit. -/
theorem exec_commitDynptr {s : HelperState crate} (hdata : s.dynPtr.data ≠ 0) (discard : Bool)
    (flags : UInt64) :
    (bpfRingbufCommitDynptr discard flags).exec s =
      (bpfRingbufCommit discard s.dynPtr.data flags >>= fun _ => bpfDynptrSetNull).exec s := by
  unfold bpfRingbufCommitDynptr bpfRingbufCommit
  rw [Call.exec_bind_ok (Call.exec_self s), if_neg hdata]
  simp only [bind_assoc]

theorem exec_commitDynptr_known {flags : UInt64} {f : BpfRingbufFlags}
    (hflags : knownRingbufFlags flags = .ok f) {sample : UInt64} (hsample : sample ≠ 0)
    {discard : Bool} {ring ring' : RingBuf}
    (h : (commit ⟨sample, 1⟩ f discard).exec ring = some (.ok (), ring'))
    (base : HelperState crate) :
    (bpfRingbufCommitDynptr discard flags).exec (holding base ring sample) =
      some (.ok (), { holding base ring' sample with dynPtr := ⟨0, 0, 0⟩ }) := by
  rw [exec_commitDynptr hsample]
  exact (Call.exec_bind_ok (exec_commit_known hflags h base sample)).trans (Call.exec_update _ _)

/-- With known flags a helper is the commit; with unknown flags it does nothing. -/
theorem raw_release (release : Release) (F : HelperOps) (base : HelperState crate)
    {ring : RingBuf} {sample flags : UInt64} (hsample : sample ≠ 0) :
    (∀ f ring', knownRingbufFlags flags = .ok f →
      (commit ⟨sample, 1⟩ f release.discards).exec ring = some (.ok (), ring') →
      ∃ after, (release.call sample flags).raw F (holding base ring sample) = some (0, after) ∧
        after.map.innerMap = .ringBuf ring') ∧
    (4 ≤ flags.toNat → (release.call sample flags).raw F (holding base ring sample) =
      some (22, holding base ring sample)) := by
  constructor
  · intro f ring' hflags hcommit
    have hexec := exec_commit_known hflags hcommit base sample
    have hdynptr := exec_commitDynptr_known hflags hsample hcommit base
    cases release with
    | submit => exact ⟨_, toI64_of_exec hexec, rfl⟩
    | discard => exact ⟨_, toI64_of_exec hexec, rfl⟩
    | submitDynptr => exact ⟨_, toI64_of_exec hdynptr, rfl⟩
    | discardDynptr => exact ⟨_, toI64_of_exec hdynptr, rfl⟩
  · intro hflags
    have hexec := exec_commit_unknown hflags sample release.discards (holding base ring sample)
    have hdynptr : (bpfRingbufCommitDynptr release.discards flags).exec
        (holding base ring sample) =
          some (.error BpfError.EINVAL.errno, holding base ring sample) := by
      rw [exec_commitDynptr hsample]
      exact Call.exec_bind_error hexec
    cases release with
    | submit => exact toI64_of_exec hexec
    | discard => exact toI64_of_exec hexec
    | submitDynptr => exact toI64_of_exec hdynptr
    | discardDynptr => exact toI64_of_exec hdynptr

/-- The calls on a record that is still busy. -/
theorem raw_release_busy (release : Release) (F : HelperOps) (base : HelperState crate)
    {ring : RingBuf} {r : Record} (hintact : Intact ring r) (flags : UInt64) :
    (∀ f, knownRingbufFlags flags = .ok f → ∃ after,
      (release.call r.sample.ptr flags).raw F (holding base ring r.sample.ptr) = some (0, after) ∧
        after.map.innerMap = .ringBuf (ring.afterCommit r.pos r.lenWord f release.discards)) ∧
    (4 ≤ flags.toNat →
      (release.call r.sample.ptr flags).raw F (holding base ring r.sample.ptr) =
        some (22, holding base ring r.sample.ptr)) := by
  have hptr : r.sample.ptr = ring.addrOf r.pos + .ofNat 8 := by
    rw [hintact.sample]
    rfl
  have hsample : r.sample.ptr ≠ 0 := by
    rw [hintact.sample]
    exact sampleAt_ptr_ne_zero _ _ _
  obtain ⟨hknown, hunknown⟩ := @raw_release crate release F base ring r.sample.ptr flags hsample
  refine ⟨fun f hf => hknown f _ hf ?_, hunknown⟩
  have hcommit := exec_commit hintact.hasHdr 1 f release.discards
  rw [hptr]
  exact hcommit

theorem Released.of_intact {ring : RingBuf} {r : Record} (hintact : Intact ring r)
    (discard : Bool) : Released ring r.sample.ptr discard ↔
      r.fill ≠ .busy ∧ (discard → r.fill = .discarded) := by
  unfold Released
  rw [hintact.hdrPtr, hintact.hasHdr.loadHdr]
  have hbusy := lenWord_busy hintact.small
  simp only [Option.some.injEq, exists_eq_left']
  refine (and_congr_left' hbusy).trans (and_congr_right fun hfill => ?_)
  rw [ne_eq, (lenWord_finished hintact.small hfill).2]
  refine imp_congr_right fun _ => ?_
  cases hf : r.fill with
  | busy => exact absurd hf hfill
  | submitted => simp
  | discarded => simp

/-- A commit releases a busy record. -/
theorem Released.of_commit {ring : RingBuf} {r : Record} (hintact : Intact ring r)
    (hbusy : r.fill = .busy) (f : BpfRingbufFlags) (discard : Bool) :
    Released (ring.afterCommit r.pos r.lenWord f discard) r.sample.ptr discard := by
  have hfinished : Intact (ring.afterCommit r.pos r.lenWord f discard)
      { r with fill := if discard then .discarded else .submitted } :=
    hintact.finished hbusy rfl rfl
  refine (Released.of_intact hfinished discard).mpr ?_
  cases discard with
  | true => exact ⟨nofun, fun _ => rfl⟩
  | false => exact ⟨nofun, nofun⟩

theorem consume_records (s : System) : s.consume.records = s.records := by
  unfold System.consume
  split
  · rfl
  · simp only
    split <;> rfl

theorem queue_consume {taken : Nat} {s : System} (h : QueueInv taken s) :
    ∃ taken', QueueInv taken' s.consume := by
  by_cases heq : s.ring.consumerPos = s.ring.producerPos
  · have hsame : s.consume = s := if_pos heq
    rw [hsame]
    exact ⟨taken, h⟩
  obtain ⟨r, hr⟩ := h.next heq
  by_cases hfill : r.fill = .busy
  · rw [h.consume_busy hr hfill]
    exact ⟨taken, h⟩
  · rw [h.consume_finished hr hfill]
    exact ⟨_, h.advance hr hfill _⟩

/-- Reading on, the consumer gets to the producer position. -/
def Drains (s : System) : Prop :=
  ∃ n, (System.consume^[n] s).ring.consumerPos = (System.consume^[n] s).ring.producerPos

theorem drains_of_finished {k taken : Nat} {s : System} (h : QueueInv taken s)
    (hk : s.records.length - s.consumed = k) (hfinished : ∀ r ∈ s.records, r.fill ≠ .busy) :
    Drains s := by
  induction k generalizing s taken with
  | zero =>
    refine ⟨0, ?_⟩
    by_contra hne
    obtain ⟨r, hr⟩ := h.next hne
    obtain ⟨hlt, -⟩ := List.getElem?_eq_some_iff.mp hr
    omega
  | succ k ih =>
    by_cases heq : s.ring.consumerPos = s.ring.producerPos
    · exact ⟨0, heq⟩
    obtain ⟨r, hr⟩ := h.next heq
    have hfill := hfinished r (List.mem_of_getElem? hr)
    have hnext := h.consume_finished hr hfill
    obtain ⟨taken', h'⟩ := queue_consume h
    have hconsumed : s.consume.consumed = s.consumed + 1 := by rw [hnext]
    have hrecords := consume_records s
    obtain ⟨n, hn⟩ := ih h' (by rw [hconsumed, hrecords]; omega)
      (by rw [hrecords]; exact hfinished)
    exact ⟨n + 1, hn⟩

/-- The consumer never gets past a busy record. -/
theorem not_drains_of_busy {taken : Nat} {s : System} (h : QueueInv taken s) {i : Nat} {r : Record}
    (hr : s.records[i]? = some r) (hfill : r.fill = .busy) : ¬ Drains s := by
  rintro ⟨n, hn⟩
  induction n generalizing s taken with
  | zero =>
    have hle := h.consumed_le_busy hr hfill
    obtain ⟨hlt, -⟩ := List.getElem?_eq_some_iff.mp hr
    have hnext := List.getElem?_eq_getElem (Nat.lt_of_le_of_lt hle hlt)
    exact (h.head hnext).2.2.1 hn
  | succ n ih =>
    obtain ⟨taken', h'⟩ := queue_consume h
    have hrecords := consume_records s
    exact ih h' (by rw [hrecords]; exact hr) hn

/-- Programs at work on a ring: its books, and the records that a helper was called on. -/
structure Session where
  system : System
  ended : List Nat

def Session.start (ring : RingBuf) : Session := ⟨System.start ring, []⟩

inductive Action where
  | reserve (size : UInt64)
  | write (i off : Nat) (bytes : Bytes)
  | release (release : Release) (i : Nat) (flags : UInt64)
  | consume

def Action.KnownFlags : Action → Prop
  | .release _ _ flags => flags.toNat < 4
  | _ => True

/-- After a helper was called on a record; it says itself whether it has finished it. -/
def Session.called (s : Session) (ring : RingBuf) (i : Nat) (r : Record) (ret : Int)
    (discard : Bool) : Session where
  system := if ret = 0 then s.system.committed ring i r discard else { s.system with ring := ring }
  ended := i :: s.ended

/-- One action. A program writes into a record and ends it while it holds it, once. -/
def step (F : HelperOps) (base : HelperState crate) (s : Session) : Action → Option Session
  | .reserve size =>
    (RingBuf.step s.system (.reserve size)).map fun system => { s with system := system }
  | .write i off bytes =>
    if i ∈ s.ended then none
    else
      (RingBuf.step s.system (.write i off bytes)).map fun system => { s with system := system }
  | .release release i flags =>
    match s.system.records[i]? with
    | none => none
    | some r =>
      if i ∈ s.ended then none
      else
        match (release.call r.sample.ptr flags).raw F (holding base s.system.ring r.sample.ptr) with
        | none => none
        | some (ret, after) =>
          (ringOf after.map.innerMap).map fun ring => s.called ring i r ret release.discards
  | .consume => some { s with system := s.system.consume }

/-- Actions one after the other. -/
def Session.run (F : HelperOps) (base : HelperState crate) (s : Session) (actions : List Action) :
    Option Session :=
  actions.foldlM (step F base) s

/-- What became of the records. -/
def Session.fills (s : Session) : List Fill := s.system.records.map Record.fill

structure Inv (s : Session) : Prop where
  queue : ∃ taken, QueueInv taken s.system
  held : ∀ i < s.fills.length, i ∉ s.ended → s.fills[i]? = some .busy
  bounded : ∀ i ∈ s.ended, i < s.fills.length

/-- A helper was called on a record that is busy still. -/
def Stuck (s : Session) : Prop := ∃ i ∈ s.ended, s.fills[i]? = some .busy

theorem Inv.start {F : KernelAuxiliaryOps} {bytes : Nat → UInt8} {mapMeta : BpfMapMeta}
    {ring : RingBuf} (hnew : RingBuf.new F bytes mapMeta = .ok ring) : Inv (Session.start ring) := by
  obtain ⟨hcons, hprod⟩ := new_positions hnew
  exact ⟨⟨0, .start hcons hprod⟩, fun i hi => absurd hi (Nat.not_lt_zero i),
    fun i hi => absurd hi List.not_mem_nil⟩

theorem not_stuck_start (ring : RingBuf) : ¬ Stuck (Session.start ring) := by
  rintro ⟨i, hi, -⟩
  exact absurd hi List.not_mem_nil

theorem fills_eq_some {s : Session} {i : Nat} {f : Fill} :
    s.fills[i]? = some f ↔ ∃ r, s.system.records[i]? = some r ∧ r.fill = f := by
  rw [Session.fills, List.getElem?_map, Option.map_eq_some_iff]

theorem Inv.busy {s : Session} (h : Inv s) {i : Nat} {r : Record}
    (hr : s.system.records[i]? = some r) (hended : i ∉ s.ended) : r.fill = .busy := by
  obtain ⟨hlt, -⟩ := List.getElem?_eq_some_iff.mp hr
  have hlen : i < s.fills.length := by
    rw [Session.fills, List.length_map]
    exact hlt
  obtain ⟨r', hr', hbusy⟩ := fills_eq_some.mp (h.held i hlen hended)
  rw [hr] at hr'
  cases hr'
  exact hbusy

theorem fills_committed {s : System} {i : Nat} {r : Record} {ring : RingBuf} {discard : Bool} :
    (s.committed ring i r discard).records.map Record.fill =
      (s.records.map Record.fill).set i (if discard then .discarded else .submitted) :=
  List.map_set

/-- All that an action does to the records and to the calls made. -/
inductive Effect (s s' : Session) (a : Action) : Prop where
  | none (ended : s'.ended = s.ended) (fills : s'.fills = s.fills) (known : a.KnownFlags)
  | reserved (ended : s'.ended = s.ended) (fills : s'.fills = s.fills ++ [.busy])
    (known : a.KnownFlags)
  | finished (i : Nat) (f : Fill) (held : i ∉ s.ended) (within : i < s.fills.length)
    (ended : s'.ended = i :: s.ended) (fill : f ≠ .busy) (fills : s'.fills = s.fills.set i f)
    (known : a.KnownFlags)
  | refused (i : Nat) (held : i ∉ s.ended) (within : i < s.fills.length)
    (ended : s'.ended = i :: s.ended) (fills : s'.fills = s.fills) (unknown : ¬ a.KnownFlags)

section
variable {F : HelperOps} {base : HelperState crate} {s s' : Session}

theorem Inv.reserve (h : Inv s) {size : UInt64}
    (hs : step F base s (.reserve size) = some s') :
    (∃ taken, QueueInv taken s'.system) ∧ Effect s s' (.reserve size) := by
  obtain ⟨taken, hqueue⟩ := h.queue
  obtain ⟨system, hsystem, rfl⟩ := Option.map_eq_some_iff.mp hs
  rcases step_reserve hqueue.guarded.producer hsystem with rfl | ⟨⟨hsmall, hfits, hcheck⟩, rfl⟩
  · exact ⟨⟨taken, hqueue⟩, .none rfl rfl trivial⟩
  · rw [hqueue.consumer] at hcheck
    have hroom := QueueInv.room_for hqueue.taken_le hqueue.room hfits hcheck
    exact ⟨⟨taken, hqueue.granted hsmall hfits hroom⟩, .reserved rfl List.map_append trivial⟩

theorem Inv.write (h : Inv s) {i off : Nat} {bytes : Bytes}
    (hs : step F base s (.write i off bytes) = some s') :
    (∃ taken, QueueInv taken s'.system) ∧ Effect s s' (.write i off bytes) := by
  obtain ⟨taken, hqueue⟩ := h.queue
  simp only [step] at hs
  split at hs
  · cases hs
  obtain ⟨system, hsystem, rfl⟩ := Option.map_eq_some_iff.mp hs
  have hguarded := hqueue.guarded.write (fun r b => Iff.rfl) hsystem
  obtain ⟨r, hr, hbusy, -, rfl⟩ := hqueue.guarded.step_write hsystem
  refine ⟨⟨taken, hqueue.set hr hbusy rfl rfl rfl hguarded⟩, .none rfl ?_ trivial⟩
  obtain ⟨hlt, hget⟩ := List.getElem?_eq_some_iff.mp hr
  show (s.system.records.set i _).map Record.fill = s.system.records.map Record.fill
  rw [List.map_set, ← hget, ← List.getElem_map Record.fill (h := by simpa using hlt),
    List.set_getElem_self]

theorem Inv.release (h : Inv s) {release : Release} {i : Nat} {flags : UInt64}
    (hs : step F base s (.release release i flags) = some s') :
    (∃ taken, QueueInv taken s'.system) ∧ Effect s s' (.release release i flags) := by
  obtain ⟨taken, hqueue⟩ := h.queue
  simp only [step] at hs
  split at hs
  · cases hs
  rename_i r hr
  split at hs
  · cases hs
  rename_i hended
  have hbusy := h.busy hr hended
  obtain ⟨-, hintact⟩ := hqueue.guarded.busy_intact hr hbusy
  obtain ⟨hknown, hunknown⟩ := raw_release_busy release F base hintact flags
  have hlt : i < s.fills.length := by
    obtain ⟨hlt, -⟩ := List.getElem?_eq_some_iff.mp hr
    rw [Session.fills, List.length_map]
    exact hlt
  by_cases hflags : flags.toNat < 4
  · obtain ⟨f, hf⟩ := knownRingbufFlags_of_lt hflags
    obtain ⟨after, hraw, hafter⟩ := hknown f hf
    rw [hraw] at hs
    simp only [hafter] at hs
    cases hs
    refine ⟨⟨taken, ?_⟩, .finished i _ hended hlt rfl ?_ fills_committed hflags⟩
    · have hguarded : Guarded (taken ≤ ·.pos) (s.system.committed
          (s.system.ring.afterCommit r.pos r.lenWord f release.discards) i r release.discards) :=
        hqueue.guarded.finish hr hbusy rfl rfl rfl
      exact hqueue.set hr hbusy rfl rfl rfl hguarded
    · cases release.discards with
      | true => exact nofun
      | false => exact nofun
  · rw [hunknown (Nat.le_of_not_lt hflags)] at hs
    cases hs
    exact ⟨⟨taken, hqueue⟩, .refused i hended hlt rfl rfl hflags⟩

theorem Inv.effect (h : Inv s) {a : Action} (hs : step F base s a = some s') :
    (∃ taken, QueueInv taken s'.system) ∧ Effect s s' a := by
  cases a with
  | reserve size => exact h.reserve hs
  | write i off bytes => exact h.write hs
  | release release i flags => exact h.release hs
  | consume =>
    obtain ⟨taken, hqueue⟩ := h.queue
    cases hs
    exact ⟨queue_consume hqueue,
      .none rfl (congrArg (List.map Record.fill) (consume_records _)) trivial⟩

theorem Inv.step (h : Inv s) {a : Action} (hs : RingBufRelease.step F base s a = some s') :
    Inv s' := by
  obtain ⟨hqueue, heffect⟩ := h.effect hs
  refine ⟨hqueue, ?_, ?_⟩
  · intro i hi hended
    cases heffect with
    | none he hf _ =>
      rw [hf] at hi ⊢
      rw [he] at hended
      exact h.held i hi hended
    | reserved he hf _ =>
      rw [hf] at hi ⊢
      rw [he] at hended
      by_cases hlt : i < s.fills.length
      · rw [List.getElem?_append_left hlt]
        exact h.held i hlt hended
      · rw [List.length_append, List.length_singleton] at hi
        rw [show i = s.fills.length by omega, List.getElem?_concat_length]
    | finished j f _ _ he _ hf _ =>
      rw [he, List.mem_cons, not_or] at hended
      rw [hf, List.length_set] at hi
      rw [hf, List.getElem?_set_ne (Ne.symm hended.1)]
      exact h.held i hi hended.2
    | refused j _ _ he hf _ =>
      rw [he, List.mem_cons, not_or] at hended
      rw [hf] at hi ⊢
      exact h.held i hi hended.2
  · intro i hi
    cases heffect with
    | none he hf _ =>
      rw [hf]
      exact h.bounded i (he ▸ hi)
    | reserved he hf _ =>
      rw [hf, List.length_append]
      exact Nat.lt_add_right _ (h.bounded i (he ▸ hi))
    | finished j f _ hj he _ hf _ =>
      rw [hf, List.length_set]
      rw [he] at hi
      rcases List.mem_cons.mp hi with rfl | hi
      · exact hj
      · exact h.bounded i hi
    | refused j _ hj he hf _ =>
      rw [hf]
      rw [he] at hi
      rcases List.mem_cons.mp hi with rfl | hi
      · exact hj
      · exact h.bounded i hi

/-- A record gets stuck by a call with unknown flags, and stays stuck. -/
theorem Inv.stuck_iff (h : Inv s) {a : Action} (hs : RingBufRelease.step F base s a = some s') :
    Stuck s' ↔ Stuck s ∨ ¬ a.KnownFlags := by
  obtain ⟨-, heffect⟩ := h.effect hs
  unfold Stuck
  cases heffect with
  | none he hf hk =>
    rw [he, hf]
    exact (or_iff_left (not_not_intro hk)).symm
  | reserved he hf hk =>
    rw [he, hf, or_iff_left (not_not_intro hk)]
    refine exists_congr fun i => and_congr_right fun hi => ?_
    rw [List.getElem?_append_left (h.bounded i hi)]
  | finished j f hj hlt he hfill hf hk =>
    rw [he, hf, or_iff_left (not_not_intro hk)]
    constructor
    · rintro ⟨i, hi, hbusy⟩
      rcases List.mem_cons.mp hi with rfl | hi
      · rw [List.getElem?_set_self hlt] at hbusy
        exact absurd (Option.some.inj hbusy) hfill
      · have hne : j ≠ i := fun heq => hj (heq ▸ hi)
        rw [List.getElem?_set_ne hne] at hbusy
        exact ⟨i, hi, hbusy⟩
    · rintro ⟨i, hi, hbusy⟩
      have hne : j ≠ i := fun heq => hj (heq ▸ hi)
      exact ⟨i, List.mem_cons_of_mem j hi, by rw [List.getElem?_set_ne hne]; exact hbusy⟩
  | refused j hj hlt he hf hk =>
    rw [he, hf]
    exact iff_of_true ⟨j, List.mem_cons_self, h.held j hlt hj⟩ (Or.inr hk)

end

/-- A run gets a record stuck exactly when one of its calls has unknown flags. -/
theorem run_inv {F : HelperOps} {base : HelperState crate} {s s' : Session}
    {actions : List Action} (h : Inv s) (hrun : s.run F base actions = some s') :
    Inv s' ∧ (Stuck s' ↔ Stuck s ∨ ¬ ∀ a ∈ actions, a.KnownFlags) := by
  unfold Session.run at hrun
  induction actions generalizing s with
  | nil =>
    cases hrun
    exact ⟨h, by simp⟩
  | cons a actions ih =>
    obtain ⟨s₁, h₁, h₂⟩ := Option.bind_eq_some_iff.mp hrun
    obtain ⟨hinv, hiff⟩ := ih (h.step h₁) h₂
    refine ⟨hinv, hiff.trans ?_⟩
    rw [h.stuck_iff h₁, List.forall_mem_cons, not_and_or, or_assoc]

/-- With every record ended, the consumer gets through unless one is stuck. -/
theorem Inv.drains_iff {s : Session} (h : Inv s) (hall : ∀ i < s.system.records.length, i ∈ s.ended) :
    Drains s.system ↔ ¬ Stuck s := by
  obtain ⟨taken, hqueue⟩ := h.queue
  constructor
  · rintro hdrains ⟨i, -, hbusy⟩
    obtain ⟨r, hr, hfill⟩ := fills_eq_some.mp hbusy
    exact not_drains_of_busy hqueue hr hfill hdrains
  · intro hstuck
    refine drains_of_finished hqueue rfl fun r hr hbusy => hstuck ?_
    obtain ⟨i, hi⟩ := List.mem_iff_getElem?.mp hr
    obtain ⟨hlt, -⟩ := List.getElem?_eq_some_iff.mp hi
    exact ⟨i, hall i hlt, fills_eq_some.mpr ⟨r, hi, hbusy⟩⟩

/-- A call on a record that is held releases it exactly when the flags are known. -/
theorem Inv.released_iff {s : Session} (h : Inv s) (F : HelperOps) (base : HelperState crate)
    {i : Nat} {r : Record} (hr : s.system.records[i]? = some r) (hended : i ∉ s.ended)
    (release : Release) (flags : UInt64) :
    ∃ ret after ring',
      (release.call r.sample.ptr flags).raw F (holding base s.system.ring r.sample.ptr) =
        some (ret, after) ∧ after.map.innerMap = .ringBuf ring' ∧
      (Released ring' r.sample.ptr release.discards ↔ flags.toNat < 4) := by
  obtain ⟨taken, hqueue⟩ := h.queue
  have hbusy := h.busy hr hended
  obtain ⟨-, hintact⟩ := hqueue.guarded.busy_intact hr hbusy
  obtain ⟨hknown, hunknown⟩ := raw_release_busy release F base hintact flags
  by_cases hflags : flags.toNat < 4
  · obtain ⟨f, hf⟩ := knownRingbufFlags_of_lt hflags
    obtain ⟨after, hraw, hafter⟩ := hknown f hf
    exact ⟨0, after, _, hraw, hafter,
      iff_of_true (Released.of_commit hintact hbusy f release.discards) hflags⟩
  · refine ⟨22, _, s.system.ring, hunknown (Nat.le_of_not_lt hflags), rfl, iff_of_false ?_ hflags⟩
    exact fun hreleased => ((Released.of_intact hintact release.discards).mp hreleased).1 hbusy

/-- Whatever programs have done: a call on a record that is held releases it exactly when the
flags are known, and once every record is ended the consumer gets through exactly when all flags
were known. -/
theorem released_iff_known {F₀ : KernelAuxiliaryOps} {bytes : Nat → UInt8} {mapMeta : BpfMapMeta}
    {ring : RingBuf} (hnew : RingBuf.new F₀ bytes mapMeta = .ok ring) (F : HelperOps)
    (base : HelperState crate) (actions : List Action) {s : Session}
    (hrun : (Session.start ring).run F base actions = some s) :
    (∀ i r, s.system.records[i]? = some r → i ∉ s.ended → ∀ (release : Release) (flags : UInt64),
      ∃ ret after ring',
        (release.call r.sample.ptr flags).raw F (holding base s.system.ring r.sample.ptr) =
          some (ret, after) ∧ after.map.innerMap = .ringBuf ring' ∧
        (Released ring' r.sample.ptr release.discards ↔ flags.toNat < 4)) ∧
    ((∀ i < s.system.records.length, i ∈ s.ended) →
      (Drains s.system ↔ ∀ a ∈ actions, a.KnownFlags)) := by
  obtain ⟨hinv, hstuck⟩ := run_inv (Inv.start hnew) hrun
  constructor
  · intro i r hr hended release flags
    exact hinv.released_iff F base hr hended release flags
  · intro hall
    have hstart := not_stuck_start ring
    rw [hinv.drains_iff hall, hstuck, or_iff_right hstart, not_not]

/-- Two records, ended in the other order. -/
def twoRecords : List Action :=
  [.reserve 8, .reserve 8, .release .discardDynptr 1 1, .release .submit 0 0]

theorem two_records_released : ∃ ring s, onePageRing = .ok ring ∧
    (Session.start ring).run plainKernel oneCellState twoRecords = some s ∧ Drains s.system := by
  have hrun : (onePageRing.toOption.bind fun ring =>
      (Session.start ring).run plainKernel oneCellState twoRecords).map
        (fun s => (s.system.records.length, s.ended)) = some (2, [0, 1]) := by decide +kernel
  obtain ⟨s, hs, hvalues⟩ := Option.map_eq_some_iff.mp hrun
  obtain ⟨ring, hring, hsteps⟩ := Option.bind_eq_some_iff.mp hs
  obtain ⟨hlen, hended⟩ := Prod.mk.inj hvalues
  have hnew := onePageRing_of_toOption hring
  obtain ⟨-, hdrains⟩ := released_iff_known hnew plainKernel oneCellState twoRecords hsteps
  refine ⟨ring, s, hnew, hsteps, (hdrains ?_).mpr ?_⟩
  · rw [hlen, hended]
    decide
  · unfold twoRecords
    simp [Action.KnownFlags]

/-- The flag word 4 has no known bit. -/
def badFlags : List Action := [.reserve 8, .release .submit 0 4]

/-- A submit with a bad flag word leaves its record busy and the consumer behind it. -/
theorem bad_flags_block_consumer : ∃ ring s, onePageRing = .ok ring ∧
    (Session.start ring).run plainKernel oneCellState badFlags = some s ∧
      s.system.records.length = 1 ∧ s.ended = [0] ∧ ¬ Drains s.system := by
  have hrun : (onePageRing.toOption.bind fun ring =>
      (Session.start ring).run plainKernel oneCellState badFlags).map
        (fun s => (s.system.records.length, s.ended)) = some (1, [0]) := by decide +kernel
  obtain ⟨s, hs, hvalues⟩ := Option.map_eq_some_iff.mp hrun
  obtain ⟨ring, hring, hsteps⟩ := Option.bind_eq_some_iff.mp hs
  obtain ⟨hlen, hended⟩ := Prod.mk.inj hvalues
  have hnew := onePageRing_of_toOption hring
  obtain ⟨hinv, hstuck⟩ := run_inv (Inv.start hnew) hsteps
  refine ⟨ring, s, hnew, hsteps, hlen, hended, ?_⟩
  rw [hinv.drains_iff (by rw [hlen, hended]; decide), not_not, hstuck]
  refine Or.inr fun hknown => ?_
  have hlast := hknown (.release .submit 0 4) (by simp [badFlags])
  exact absurd hlast (by decide : ¬ (4 : UInt64).toNat < 4)

end ExtKtrace.Bpf.RingBufRelease
