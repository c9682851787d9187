import ExtKtrace.Lib.Machine
import ExtKtrace.Bpf.RingBufRelease

/-!
# Dynptr reservations and the commits that follow them

A program calls a dynptr submit or discard after each dynptr reservation, a failed one too. The
map may be another one each time, of any kind; only the dynptr and the program's memory stay.
-/

namespace ExtKtrace.Bpf.DynptrPairs
set_option autoImplicit false

open RingBuf RingBufRelease

variable {crate : LruCrate Bytes Bytes}

/-- A reservation and the commit behind it. `map` is what the pointer names, if the kernel `F`
knows the pointer. -/
structure Pair (crate : LruCrate Bytes Bytes) where
  F : HelperOps
  map : UnifiedMap crate
  ptr : UInt64
  size : UInt32
  reserveFlags : UInt64
  discard : Bool
  commitFlags : UInt64

/-- What lasts from pair to pair. -/
structure Program where
  dynPtr : BpfDynPtr
  memory : Memory

/-- What the two calls of a pair return and the states they leave. -/
structure Outcome (crate : LruCrate Bytes Bytes) where
  reserved : Int × HelperState crate
  committed : Int × HelperState crate

namespace Pair

def start (pair : Pair crate) (s : Program) : HelperState crate := ⟨pair.map, s.memory, s.dynPtr⟩

def reserve (pair : Pair crate) (s : Program) : Option (Int × HelperState crate) :=
  (HelperCall.rawBpfRingbufReserveDynptr pair.ptr pair.size pair.reserveFlags).raw pair.F
    (pair.start s)

def release (pair : Pair crate) : Release := if pair.discard then .discardDynptr else .submitDynptr

def commit (pair : Pair crate) (s : HelperState crate) : Option (Int × HelperState crate) :=
  (pair.release.call 0 pair.commitFlags).raw pair.F s

def ValidFlags (pair : Pair crate) : Prop := pair.commitFlags.toNat < 4

end Pair

def step (s : Program) (pair : Pair crate) : Option (Outcome crate × Program) := do
  let reserved ← pair.reserve s
  let committed ← pair.commit reserved.2
  return (⟨reserved, committed⟩, ⟨committed.2.dynPtr, committed.2.memory⟩)

/-- A commit finishes the record of a sample and stores no byte but its length word. -/
structure FinishesOnly (ring ring' : RingBuf) (sample : UInt64) (discard : Bool) : Prop where
  mapping : ring'.toMapping = ring.toMapping
  positions : ring'.consumerPos = ring.consumerPos ∧ ring'.producerPos = ring.producerPos
  released : Released ring' sample discard
  elsewhere : ∀ i, ¬ Circular.Covers ring.size (ring.offset (sample - BPF_RINGBUF_HDR_SZ)) 4 i →
    ring'.data i = ring.data i
  wakeUps : ring'.wakeUps ≤ ring.wakeUps + 1

/-- After a failed reservation the dynptr is null and the commit does nothing. After a successful
one the commit is that of the record reserved, and leaves the dynptr null. -/
structure PairsUp (pair : Pair crate) (o : Outcome crate) : Prop where
  failed : o.reserved.1 ≠ 0 → o.reserved.2.dynPtr.data = 0 ∧ o.committed = (0, o.reserved.2)
  granted : o.reserved.1 = 0 → ∃ ring sample ring₁ ring₂,
    pair.map.innerMap = .ringBuf ring ∧
    (RingBuf.reserve pair.size.toUInt64).exec ring = some (.ok sample, ring₁) ∧
    o.reserved.2.map.innerMap = .ringBuf ring₁ ∧ o.reserved.2.dynPtr.data = sample.ptr ∧
    o.committed.1 = 0 ∧ o.committed.2.map.innerMap = .ringBuf ring₂ ∧
    FinishesOnly ring₁ ring₂ sample.ptr pair.discard ∧ o.committed.2.dynPtr.data = 0

/-- The two exits that do not null the dynptr: the kernel does not know the map pointer, or the
map is not a ring buffer. -/
def Leaves (pair : Pair crate) : Prop :=
  pair.reserveFlags = 0 ∧ ((∃ e, pair.F.getUnifiedMapFromPtr pair.ptr = .error e) ∨
    (pair.size ≤ DYNPTR_MAX_SIZE ∧ ringOf pair.map.innerMap = none))

section
variable {F : HelperOps} {s : HelperState crate} {map : UInt64} {size : UInt32} {flags : UInt64}

def nulled (s : HelperState crate) : HelperState crate := { s with dynPtr := ⟨0, 0, 0⟩ }

theorem reserve_badFlags (h : flags ≠ 0) :
    (bpfRingbufReserveDynptr F map size flags).exec s =
      some (.error BpfError.EINVAL.errno, nulled s) := by
  unfold bpfRingbufReserveDynptr
  rw [if_pos h]
  rfl

theorem reserve_unknownMap {e : LinuxError} (h : F.getUnifiedMapFromPtr map = .error e) :
    (bpfRingbufReserveDynptr F map size 0).exec s = some (.error e, s) := by
  unfold bpfRingbufReserveDynptr
  rw [if_neg (not_not_intro rfl), h]
  rfl

theorem reserve_large (hmap : F.getUnifiedMapFromPtr map = .ok ()) (h : DYNPTR_MAX_SIZE < size) :
    (bpfRingbufReserveDynptr F map size 0).exec s =
      some (.error BpfError.EINVAL.errno, nulled s) := by
  unfold bpfRingbufReserveDynptr
  rw [if_neg (not_not_intro rfl), hmap, Call.exec_bind_ok (Call.exec_ofExcept _ s), if_pos h]
  rfl

theorem reserve_small (hmap : F.getUnifiedMapFromPtr map = .ok ()) (h : size ≤ DYNPTR_MAX_SIZE) :
    (bpfRingbufReserveDynptr F map size 0).exec s =
      Call.exec (onMap (downcastRing (Call.attempt (RingBuf.reserve size.toUInt64))) >>= fun r =>
        match r with
        | .error (_ : BpfError) => do
          bpfDynptrSetNull
          fail .EINVAL
        | .ok dataBuf =>
          setDynPtr ⟨dataBuf.ptr, size ||| (BPF_DYNPTR_TYPE_RINGBUF <<< DYNPTR_TYPE_SHIFT), 0⟩ :
        Helper crate Unit) s := by
  unfold bpfRingbufReserveDynptr
  rw [if_neg (not_not_intro rfl), hmap, Call.exec_bind_ok (Call.exec_ofExcept _ s)]
  exact congrArg (Call.exec · s) (if_neg (UInt32.not_lt.mpr h))

theorem reserve_otherKind (hmap : F.getUnifiedMapFromPtr map = .ok ())
    (h : size ≤ DYNPTR_MAX_SIZE) (hkind : ringOf s.map.innerMap = none) :
    (bpfRingbufReserveDynptr F map size 0).exec s = some (.error BpfError.EINVAL.errno, s) := by
  rw [reserve_small hmap h]
  refine Call.exec_bind_error ?_
  rw [exec_onMap]
  obtain ⟨⟨inner, mapMeta⟩, memory, dynPtr⟩ := s
  cases inner with
  | ringBuf ring => cases hkind
  | _ => rfl

theorem reserve_ring {ring ring₁ : RingBuf} {r : Except BpfError Slice}
    (hring : s.map.innerMap = .ringBuf ring)
    (hexec : (RingBuf.reserve size.toUInt64).exec ring = some (r, ring₁)) :
    (onMap (downcastRing (Call.attempt (RingBuf.reserve size.toUInt64))) :
      Helper crate (Except BpfError Slice)).exec s =
        some (.ok r, { s with map := { s.map with innerMap := .ringBuf ring₁ } }) := by
  have hattempt : (Call.attempt (RingBuf.reserve size.toUInt64) :
      Call BpfError RingBuf (Except BpfError Slice)).exec ring = some (.ok r, ring₁) := by
    show ((RingBuf.reserve size.toUInt64).exec ring).map _ = _
    rw [hexec]
    rfl
  have hwithin : (downcastRing (Call.attempt (RingBuf.reserve size.toUInt64)) :
      BpfMap.Method crate (Except BpfError Slice)).exec (.ringBuf ring) =
        some (.ok r, .ringBuf ring₁) := Call.within_eq_some.mpr ⟨ring₁, hattempt, rfl⟩
  rw [exec_onMap, hring, hwithin]
  rfl

end

section
variable {pair : Pair crate} {s : Program}

theorem Pair.commit_null {s : HelperState crate} (h : s.dynPtr.data = 0) (pair : Pair crate) :
    pair.commit s = some (0, s) := by
  have hexec : ∀ discard, (bpfRingbufCommitDynptr discard pair.commitFlags).exec s =
      some (.ok (), s) := by
    intro discard
    unfold bpfRingbufCommitDynptr
    rw [Call.exec_bind_ok (Call.exec_self s), if_pos h]
    rfl
  unfold Pair.commit Pair.release
  cases pair.discard with
  | true => exact toI64_of_exec (hexec true)
  | false => exact toI64_of_exec (hexec false)

/-- A failed reservation that leaves the dynptr null. -/
theorem step_failed {s₁ : HelperState crate} {e : LinuxError}
    (h : (bpfRingbufReserveDynptr pair.F pair.ptr pair.size pair.reserveFlags).exec (pair.start s) =
      some (.error e, s₁)) (hnull : s₁.dynPtr.data = 0) :
    ∃ o s', step s pair = some (o, s') ∧ PairsUp pair o ∧ s'.dynPtr.data = 0 := by
  have hreserve : pair.reserve s = some ((e.code : Int), s₁) := toI64_of_exec h
  refine ⟨⟨(e.code, s₁), (0, s₁)⟩, ⟨s₁.dynPtr, s₁.memory⟩, ?_, ⟨fun _ => ⟨hnull, rfl⟩, ?_⟩, hnull⟩
  · unfold step
    rw [hreserve]
    simp only [Option.bind_eq_bind, Option.bind_some, Pair.commit_null hnull pair]
    rfl
  · intro hzero
    have hpos := e.code_pos
    have hcode : (e.code : Int) = 0 := hzero
    omega

/-- The commit of a record whose busy header stands in memory. -/
theorem finishesOnly_commit {ring : RingBuf} {p : Nat} {size : UInt64}
    (hhdr : HasHdr ring p ⟨size.toUInt32 ||| BPF_RINGBUF_BUSY_BIT, ring.pgOffAt p⟩)
    (hsmall : size.toNat ≤ RINGBUF_MAX_RECORD_SZ.toNat) (hfits : extent size.toNat ≤ ring.size)
    (f : BpfRingbufFlags) (discard : Bool) :
    ∃ ring₂, (RingBuf.commit ⟨(sampleAt ring.toMapping p size).ptr, 1⟩ f discard).exec ring =
        some (.ok (), ring₂) ∧
      FinishesOnly ring ring₂ (sampleAt ring.toMapping p size).ptr discard := by
  have hexec : (RingBuf.commit ⟨(sampleAt ring.toMapping p size).ptr, 1⟩ f discard).exec ring =
      some (.ok (), ring.afterCommit p (size.toUInt32 ||| BPF_RINGBUF_BUSY_BIT) f discard) :=
    exec_commit hhdr 1 f discard
  refine ⟨_, hexec, rfl, ⟨rfl, rfl⟩, ?_, ?_, ?_⟩
  · exact Released.of_commit (Intact.admitted hhdr hsmall hfits) rfl f discard
  · intro i hi
    have hptr : (sampleAt ring.toMapping p size).ptr - BPF_RINGBUF_HDR_SZ = ring.addrOf p :=
      UInt64.add_sub_cancel _ _
    rw [hptr, ring.offset_addrOf p] at hi
    refine Circular.write_of_not_covers fun hcovers => hi ?_
    rw [Endian.length_toLe] at hcovers
    exact Circular.covers_mod.mpr hcovers
  · show ring.wakeUps + _ ≤ ring.wakeUps + 1
    split <;> omega

/-- A reservation on a ring is refused, and changes nothing, or a commit of its sample finishes
that record alone. -/
theorem reserve_cases (ring : RingBuf) (size : UInt64) :
    (∃ e, (RingBuf.reserve size).exec ring = some (.error e, ring)) ∨
      ∃ sample ring₁, (RingBuf.reserve size).exec ring = some (.ok sample, ring₁) ∧
        sample.ptr ≠ 0 ∧ ∀ f discard, ∃ ring₂,
          (RingBuf.commit ⟨sample.ptr, 1⟩ f discard).exec ring₁ = some (.ok (), ring₂) ∧
            FinishesOnly ring₁ ring₂ sample.ptr discard := by
  have hexec := exec_reserve
    (UInt64.ofNat_toNat.symm : ring.producerPos = .ofNat ring.producerPos.toNat) size
  split_ifs at hexec with hbig hlarge hfull
  · exact Or.inl ⟨_, hexec⟩
  · exact Or.inl ⟨_, hexec⟩
  · exact Or.inl ⟨_, hexec⟩
  · refine Or.inr ⟨_, _, hexec, sampleAt_ptr_ne_zero _ _ _, ?_⟩
    have hhdr : HasHdr (ring.afterReserve ring.producerPos.toNat size) ring.producerPos.toNat
        ⟨size.toUInt32 ||| BPF_RINGBUF_BUSY_BIT, ring.pgOffAt ring.producerPos.toNat⟩ :=
      hasHdr_write ring ring.producerPos.toNat _
    exact finishesOnly_commit hhdr (Nat.le_of_not_lt hbig) (Nat.le_of_not_lt hlarge)

theorem step_granted {ring ring₁ : RingBuf} {sample : Slice} (hvalid : pair.ValidFlags)
    (hflags : pair.reserveFlags = 0) (hmap : pair.F.getUnifiedMapFromPtr pair.ptr = .ok ())
    (hsize : pair.size ≤ DYNPTR_MAX_SIZE) (hring : pair.map.innerMap = .ringBuf ring)
    (hexec : (RingBuf.reserve pair.size.toUInt64).exec ring = some (.ok sample, ring₁))
    (hne : sample.ptr ≠ 0)
    (hcommit : ∀ f discard, ∃ ring₂,
      (RingBuf.commit ⟨sample.ptr, 1⟩ f discard).exec ring₁ = some (.ok (), ring₂) ∧
        FinishesOnly ring₁ ring₂ sample.ptr discard) :
    ∃ o s', step s pair = some (o, s') ∧ PairsUp pair o ∧ s'.dynPtr.data = 0 := by
  obtain ⟨f, hf⟩ := knownRingbufFlags_of_lt hvalid
  obtain ⟨ring₂, hcommit, hfinishes⟩ := hcommit f pair.discard
  let base : HelperState crate := { pair.start s with
    dynPtr := ⟨0, pair.size ||| (BPF_DYNPTR_TYPE_RINGBUF <<< DYNPTR_TYPE_SHIFT), 0⟩ }
  have hreserve : pair.reserve s = some (0, holding base ring₁ sample.ptr) := by
    refine toI64_of_exec (r := .ok ()) ?_
    rw [hflags, reserve_small hmap hsize, Call.exec_bind_ok (reserve_ring hring hexec)]
    rfl
  have hdynptr := exec_commitDynptr_known hf hne hcommit base
  have hrelease : pair.commit (holding base ring₁ sample.ptr) =
      some (0, { holding base ring₂ sample.ptr with dynPtr := ⟨0, 0, 0⟩ }) := by
    unfold Pair.commit Pair.release
    cases hdiscard : pair.discard with
    | true =>
      rw [hdiscard] at hdynptr
      exact toI64_of_exec hdynptr
    | false =>
      rw [hdiscard] at hdynptr
      exact toI64_of_exec hdynptr
  refine ⟨⟨(0, holding base ring₁ sample.ptr),
    (0, { holding base ring₂ sample.ptr with dynPtr := ⟨0, 0, 0⟩ })⟩,
    ⟨⟨0, 0, 0⟩, s.memory⟩, ?_, ⟨fun h => absurd rfl h, fun _ => ?_⟩, rfl⟩
  · unfold step
    rw [hreserve]
    simp only [Option.bind_eq_bind, Option.bind_some, hrelease]
    rfl
  · exact ⟨ring, sample, ring₁, ring₂, hring, hexec, rfl, rfl, rfl, rfl, hfinishes, rfl⟩

/-- From a null dynptr, or with a reservation that does not leave it as it was, the two calls
pair up and leave a null dynptr. -/
theorem step_pairsUp (hvalid : pair.ValidFlags) (h : s.dynPtr.data = 0 ∨ ¬ Leaves pair) :
    ∃ o s', step s pair = some (o, s') ∧ PairsUp pair o ∧ s'.dynPtr.data = 0 := by
  by_cases hflags : pair.reserveFlags = 0
  swap
  · exact step_failed (reserve_badFlags hflags) rfl
  have hkept : Leaves pair → (pair.start s).dynPtr.data = 0 := fun hleaves =>
    h.resolve_right (not_not_intro hleaves)
  cases hmap : pair.F.getUnifiedMapFromPtr pair.ptr with
  | error e =>
    refine step_failed (e := e) ?_ (hkept ⟨hflags, Or.inl ⟨e, hmap⟩⟩)
    rw [hflags]
    exact reserve_unknownMap hmap
  | ok u =>
    by_cases hsize : DYNPTR_MAX_SIZE < pair.size
    · have hexec : (bpfRingbufReserveDynptr pair.F pair.ptr pair.size 0).exec (pair.start s) = _ :=
        reserve_large hmap hsize
      rw [← hflags] at hexec
      exact step_failed hexec rfl
    rw [UInt32.not_lt] at hsize
    cases hkind : ringOf pair.map.innerMap with
    | none =>
      refine step_failed (e := BpfError.EINVAL.errno) ?_
        (hkept ⟨hflags, Or.inr ⟨hsize, hkind⟩⟩)
      rw [hflags]
      exact reserve_otherKind hmap hsize hkind
    | some ring =>
      have hring : pair.map.innerMap = .ringBuf ring := by
        unfold ringOf at hkind
        split at hkind
        · rename_i ring' heq
          cases hkind
          exact heq
        · cases hkind
      rcases reserve_cases ring pair.size.toUInt64 with ⟨e, hexec⟩ | hgranted
      · have hrefused : (bpfRingbufReserveDynptr pair.F pair.ptr pair.size 0).exec (pair.start s) =
            some (.error BpfError.EINVAL.errno, nulled { pair.start s with
              map := { pair.map with innerMap := .ringBuf ring } }) := by
          rw [reserve_small hmap hsize, Call.exec_bind_ok (reserve_ring hring hexec)]
          rfl
        rw [← hflags] at hrefused
        exact step_failed hrefused rfl
      · obtain ⟨sample, ring₁, hexec, hne, hcommit⟩ := hgranted
        exact step_granted hvalid hflags hmap hsize hring hexec hne hcommit

/-- A reservation that leaves a dynptr as it was does not null it. -/
theorem not_pairsUp {o : Outcome crate} {s' : Program} (hleaves : Leaves pair)
    (hdata : s.dynPtr.data ≠ 0) (hstep : step s pair = some (o, s')) : ¬ PairsUp pair o := by
  intro hpairs
  have hreserve : ∃ e : LinuxError, pair.reserve s = some ((e.code : Int), pair.start s) := by
    obtain ⟨hflags, hexit⟩ := hleaves
    rcases hmap : pair.F.getUnifiedMapFromPtr pair.ptr with e | u
    · refine ⟨e, toI64_of_exec (r := .error e) ?_⟩
      rw [hflags]
      exact reserve_unknownMap hmap
    · obtain ⟨hsize, hkind⟩ := hexit.resolve_left fun ⟨e, he⟩ => nomatch hmap.symm.trans he
      refine ⟨_, toI64_of_exec (r := .error BpfError.EINVAL.errno) ?_⟩
      rw [hflags]
      exact reserve_otherKind hmap hsize hkind
  obtain ⟨e, hreserve⟩ := hreserve
  have hreserved : o.reserved = ((e.code : Int), pair.start s) := by
    unfold step at hstep
    rw [hreserve] at hstep
    simp only [Option.bind_eq_bind, Option.bind_some] at hstep
    obtain ⟨committed, -, heq⟩ := Option.bind_eq_some_iff.mp hstep
    cases heq
    rfl
  have hpos := e.code_pos
  have hnull := (hpairs.failed (by rw [hreserved]; omega)).1
  rw [hreserved] at hnull
  exact hdata hnull

end

/-- From a null dynptr every pair is in order. -/
theorem allSteps_of_null (pairs : List (Pair crate)) (hvalid : ∀ p ∈ pairs, p.ValidFlags)
    {s : Program} (hs : s.dynPtr.data = 0) :
    Machine.AllSteps step (fun _ pair o _ => PairsUp pair o) s pairs := by
  induction pairs generalizing s with
  | nil => trivial
  | cons pair pairs ih =>
    obtain ⟨hfirst, hrest⟩ := List.forall_mem_cons.mp hvalid
    obtain ⟨o, s', hstep, hpairs, hnull⟩ := step_pairsUp hfirst (Or.inl hs)
    exact ⟨o, s', hstep, hpairs, ih hrest hnull⟩

/-- All pairs of a run are in order exactly when the dynptr is null before the first of them or
the first reservation does not leave it as it was. -/
theorem pairs_up_iff (pairs : List (Pair crate)) (hvalid : ∀ p ∈ pairs, p.ValidFlags)
    (s : Program) :
    Machine.AllSteps step (fun _ pair o _ => PairsUp pair o) s pairs ↔
      s.dynPtr.data = 0 ∨ ∀ first ∈ pairs.head?, ¬ Leaves first := by
  cases pairs with
  | nil => exact iff_of_true trivial (Or.inr nofun)
  | cons pair pairs =>
    obtain ⟨hfirst, hrest⟩ := List.forall_mem_cons.mp hvalid
    have hhead : (∀ first ∈ (pair :: pairs).head?, ¬ Leaves first) ↔ ¬ Leaves pair := by simp
    rw [hhead]
    constructor
    · rintro ⟨o, s', hstep, hpairs, -⟩
      by_contra hboth
      obtain ⟨hdata, hleaves⟩ := not_or.mp hboth
      exact not_pairsUp (not_not.mp hleaves) hdata hstep hpairs
    · intro h
      obtain ⟨o, s', hstep, hpairs, hnull⟩ := step_pairsUp hfirst h
      exact ⟨o, s', hstep, hpairs, allSteps_of_null pairs hrest hnull⟩

/-- A pair on a map that the kernel knows. -/
def pairOn (map : UnifiedMap (LruMapRecency.listCrate Bytes Bytes)) :
    Pair (LruMapRecency.listCrate Bytes Bytes) where
  F := plainKernel
  map := map
  ptr := 0x7000
  size := 8
  reserveFlags := 0
  discard := false
  commitFlags := 0

/-- A dynptr variable that was never written. -/
def uninitialized : Program := ⟨⟨0x1000, 0, 0⟩, fun _ => 0⟩

/-- A record on a ring, and then a reservation on an array map. -/
theorem ring_then_array_pairs_up : ∃ ring, onePageRing = .ok ring ∧
    Machine.AllSteps step (fun _ pair o _ => PairsUp pair o) uninitialized
      [pairOn ⟨.ringBuf ring, ⟨0, 0, 4096, 0⟩⟩, pairOn oneCell] := by
  obtain ⟨ring, hring⟩ : ∃ ring, onePageRing.toOption = some ring :=
    Option.isSome_iff_exists.mp (by decide +kernel)
  have hnew := onePageRing_of_toOption hring
  refine ⟨ring, hnew, (pairs_up_iff _ ?_ _).mpr (Or.inr ?_)⟩
  · intro p hp
    simp only [List.mem_cons, List.not_mem_nil, or_false] at hp
    rcases hp with rfl | rfl
    · exact (by decide : (0 : UInt64).toNat < 4)
    · exact (by decide : (0 : UInt64).toNat < 4)
  · rintro first hfirst ⟨-, ⟨e, he⟩ | ⟨-, hkind⟩⟩
    · cases hfirst
      cases he
    · cases hfirst
      cases hkind

/-- A reservation on an array map keeps what the dynptr held. -/
theorem array_map_keeps_dynptr :
    ¬ Machine.AllSteps step (fun _ pair o _ => PairsUp pair o) uninitialized [pairOn oneCell] := by
  rintro ⟨o, s', hstep, hpairs, -⟩
  refine not_pairsUp ⟨rfl, Or.inr ⟨?_, rfl⟩⟩ ?_ hstep hpairs
  · exact (by decide : (8 : UInt32) ≤ DYNPTR_MAX_SIZE)
  · exact (by decide : (0x1000 : UInt64) ≠ 0)

end ExtKtrace.Bpf.DynptrPairs
