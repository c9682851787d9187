import ExtKtrace.Bpf.RingBufQueue
import ExtKtrace.Lib.Machine

/-!
# Wake-ups of a ring buffer

One load or store of shared memory at a time: a reservation, any number of commits and the
consumer interleave between any two of them. Reservations hold the lock of the map, so there
is one at a time.
-/

namespace ExtKtrace.Bpf.RingBuf
set_option autoImplicit false

/-- How far the reservation that holds the map has come. -/
inductive Reserving where
  | idle
  | loaded (size consPos : UInt64)
  | checked (size prodPos : UInt64)
  | lenStored (size prodPos : UInt64)
  | hdrStored (size prodPos : UInt64)

/-- How far the commit of a record has come. -/
inductive Committing where
  | idle
  | loaded (len : UInt32) (flags : BpfRingbufFlags) (discard : Bool)
  | stored (flags : BpfRingbufFlags)
  | waking
  | returned

/-- Where the consumer is in its loop. -/
inductive Consumer where
  | looking
  | peeking
  | found (len : UInt32)
  | advancing (size : UInt32)
  | drowsy
  | asleep

/-- The system between two memory accesses. For the books, `taken` counts the bytes the
consumer has passed; `seen` is the number of wake-ups that are no longer pending. -/
structure Threads where
  sys : System
  taken : Nat
  reserving : Reserving
  committing : Nat → Committing
  consumer : Consumer
  seen : Nat

def Threads.start (rb : RingBuf) : Threads :=
  ⟨System.start rb, 0, .idle, fun _ => .idle, .looking, rb.wakeUps⟩

inductive Access where
  | reserve (size : UInt64)
  | check
  | storeLen
  | storePgOff
  | publish
  | write (i off : Nat) (bytes : Bytes)
  | commit (i : Nat) (flags : BpfRingbufFlags) (discard : Bool)
  | storeFinal (i : Nat)
  | compare (i : Nat)
  | wakeUp (i : Nat)
  | look
  | peek
  | take
  | advance
  | forget
  | sleep
  | resume

namespace Threads

def setRing (s : Threads) (ring : RingBuf) : Threads := { s with sys := { s.sys with ring := ring } }

def setCommitting (s : Threads) (i : Nat) (c : Committing) : Threads :=
  { s with committing := Function.update s.committing i c }

/-- The index of the header of a reservation, and its place in the data area. -/
def hdrBuf (rb : RingBuf) (prodPos : UInt64) : Option Slice :=
  rb.dataBuf.range (prodPos &&& rb.mask) ((prodPos &&& rb.mask) + BPF_RINGBUF_HDR_SZ)

def payloadBuf (rb : RingBuf) (prodPos size : UInt64) : Option Slice :=
  rb.dataBuf.range ((prodPos &&& rb.mask) + BPF_RINGBUF_HDR_SZ)
    ((prodPos &&& rb.mask) + BPF_RINGBUF_HDR_SZ + size)

/-- The place of the header at the consumer position. -/
def hdrAtConsumer (rb : RingBuf) : UInt64 := rb.dataPos + (rb.consumerPos &&& rb.mask)

/-- One access; `none` when it is nobody's turn to make it, or the code panics or follows a
wild pointer. -/
def step (s : Threads) : Access → Option Threads
  | .reserve size =>
    match s.reserving with
    | .idle =>
      if size > RINGBUF_MAX_RECORD_SZ.toUInt64 then some s
      else if alignedSize size > s.sys.ring.totalDataSize then some s
      else some { s with reserving := .loaded size s.sys.ring.consumerPos }
    | _ => none
  | .check =>
    match s.reserving with
    | .loaded size consPos =>
      let prodPos := s.sys.ring.producerPos
      if prodPos + alignedSize size - consPos > s.sys.ring.mask then
        some { s with reserving := .idle }
      else some { s with reserving := .checked size prodPos }
    | _ => none
  | .storeLen =>
    match s.reserving with
    | .checked size prodPos => do
      let hdr ← hdrBuf s.sys.ring prodPos
      some { s.setRing (s.sys.ring.storeU32 hdr.ptr (size.toUInt32 ||| BPF_RINGBUF_BUSY_BIT)) with
        reserving := .lenStored size prodPos }
    | _ => none
  | .storePgOff =>
    match s.reserving with
    | .lenStored size prodPos => do
      let hdr ← hdrBuf s.sys.ring prodPos
      let pgOff := s.sys.ring.bpfRingbufRecPgOff hdr.ptr
      some { s.setRing (s.sys.ring.storeU32 (hdr.ptr + 4) pgOff) with
        reserving := .hdrStored size prodPos }
    | _ => none
  | .publish =>
    match s.reserving with
    | .hdrStored size prodPos => do
      let sample ← payloadBuf s.sys.ring prodPos size
      some { s with
        sys := s.sys.granted (s.sys.ring.setProducerPos (prodPos + alignedSize size)) sample size
        reserving := .idle }
    | _ => none
  | .write i off bytes => do
    let r ← s.sys.records[i]?
    if r.fill = .busy ∧ off + bytes.length ≤ r.sample.len.toNat then
      some { s with sys := s.sys.written i r off bytes }
    else none
  | .commit i flags discard => do
    let r ← s.sys.records[i]?
    match s.committing i with
    | .idle =>
      let hdrPtr := r.sample.ptr - BPF_RINGBUF_HDR_SZ
      let hdr ← s.sys.ring.loadHdr hdrPtr
      if flags.contains BpfRingbufFlags.NO_WAKEUP ∨
          bpfRingbufRestoreFromRec hdrPtr hdr ≠ s.sys.ring.base then none
      else some (s.setCommitting i (.loaded hdr.len flags discard))
    | _ => none
  | .storeFinal i => do
    let r ← s.sys.records[i]?
    match s.committing i with
    | .loaded len flags discard =>
      let newLen := len &&& ~~~BPF_RINGBUF_BUSY_BIT
      let newLen := if discard then newLen ||| BPF_RINGBUF_DISCARD_BIT else newLen
      let ring := s.sys.ring.storeU32 (r.sample.ptr - BPF_RINGBUF_HDR_SZ) newLen
      some { s.setCommitting i (.stored flags) with sys := s.sys.committed ring i r discard }
    | _ => none
  | .compare i => do
    let r ← s.sys.records[i]?
    match s.committing i with
    | .stored flags =>
      let recPos := r.sample.ptr - BPF_RINGBUF_HDR_SZ - s.sys.ring.dataPos
      let consPos := s.sys.ring.consumerPos &&& s.sys.ring.mask
      if flags.contains BpfRingbufFlags.FORCE_WAKEUP then some (s.setCommitting i .waking)
      else if consPos == recPos && !flags.contains BpfRingbufFlags.NO_WAKEUP then
        some (s.setCommitting i .waking)
      else some (s.setCommitting i .returned)
    | _ => none
  | .wakeUp i =>
    match s.committing i with
    | .waking => some ((s.setRing s.sys.ring.wakeUp).setCommitting i .returned)
    | _ => none
  | .look =>
    match s.consumer with
    | .looking =>
      if s.sys.ring.consumerPos = s.sys.ring.producerPos then some { s with consumer := .drowsy }
      else some { s with consumer := .peeking }
    | _ => none
  | .peek =>
    match s.consumer with
    | .peeking =>
      let len := s.sys.ring.loadU32 (hdrAtConsumer s.sys.ring)
      if len &&& BPF_RINGBUF_BUSY_BIT ≠ 0 then some { s with consumer := .drowsy }
      else some { s with consumer := .found len }
    | _ => none
  | .take =>
    match s.consumer with
    | .found len =>
      let size := len &&& ~~~BPF_RINGBUF_DISCARD_BIT
      let payload := s.sys.ring.load (hdrAtConsumer s.sys.ring + 8) size.toNat
      let given := if len &&& BPF_RINGBUF_DISCARD_BIT = 0 then [payload] else []
      some { s with
        sys := { s.sys with obtained := s.sys.obtained ++ given }
        consumer := .advancing size }
    | _ => none
  | .advance =>
    match s.consumer with
    | .advancing size =>
      let bytes := (size.toUInt64 + 8 + 7) &&& ~~~7
      some { s with
        sys := { s.sys with
          ring := s.sys.ring.setConsumerPos (s.sys.ring.consumerPos + bytes)
          consumed := s.sys.consumed + 1 }
        taken := s.taken + bytes.toNat
        consumer := .looking }
    | _ => none
  -- a wake-up that comes while the consumer is awake may be dropped, or kept for its next sleep
  | .forget =>
    match s.consumer with
    | .looking | .peeking => some { s with seen := s.sys.ring.wakeUps }
    | _ => none
  | .sleep =>
    match s.consumer with
    | .drowsy => some { s with consumer := .asleep }
    | _ => none
  | .resume =>
    match s.consumer with
    | .asleep =>
      if s.seen < s.sys.ring.wakeUps then
        some { s with consumer := .looking, seen := s.sys.ring.wakeUps }
      else none
    | _ => none

/-- Some thread makes an access. -/
def Steps (s s' : Threads) : Prop := ∃ a, step s a = some s'

/-- A commit that is past its store and is going to call the waker. -/
def Notifying (s : Threads) (i : Nat) : Prop :=
  s.committing i = .waking ∨ ∃ r flags, s.sys.records[i]? = some r ∧
    s.committing i = .stored flags ∧ s.sys.ring.wakes r.pos flags

/-- A reservation past its check. -/
structure Roomy (sys : System) (taken : Nat) (size prodPos : UInt64) : Prop where
  small : size.toNat ≤ RINGBUF_MAX_RECORD_SZ.toNat
  fits : extent size.toNat ≤ sys.ring.size
  prodPos_eq : prodPos = .ofNat sys.reserved
  room : sys.reserved + extent size.toNat ≤ taken + sys.ring.mask.toNat

def ReservingInv (sys : System) (taken : Nat) : Reserving → Prop
  | .idle => True
  | .loaded size consPos =>
    size.toNat ≤ RINGBUF_MAX_RECORD_SZ.toNat ∧ extent size.toNat ≤ sys.ring.size ∧
      ∃ t ≤ taken, consPos = .ofNat t ∧ sys.reserved ≤ t + sys.ring.mask.toNat
  | .checked size prodPos => Roomy sys taken size prodPos
  | .lenStored size prodPos => Roomy sys taken size prodPos ∧
      Circular.read sys.ring.size sys.ring.data sys.reserved 4 =
        Endian.toLe 4 (size.toUInt32 ||| BPF_RINGBUF_BUSY_BIT).toNat
  | .hdrStored size prodPos => Roomy sys taken size prodPos ∧
      HasHdr sys.ring sys.reserved
        ⟨size.toUInt32 ||| BPF_RINGBUF_BUSY_BIT, sys.ring.pgOffAt sys.reserved⟩

def CommittingInv (records : List Record) (i : Nat) : Committing → Prop
  | .idle => ∀ r, records[i]? = some r → r.fill = .busy
  | .loaded len flags _ => flags.contains BpfRingbufFlags.NO_WAKEUP = false ∧
      ∃ r, records[i]? = some r ∧ r.fill = .busy ∧ len = r.lenWord
  | .stored flags => flags.contains BpfRingbufFlags.NO_WAKEUP = false ∧
      ∃ r, records[i]? = some r ∧ r.fill ≠ .busy
  | .waking | .returned => ∃ r, records[i]? = some r ∧ r.fill ≠ .busy

/-- The commit has yet to call the waker, or to find out whether it has to. -/
def PastStore : Committing → Prop
  | .stored _ | .waking => True
  | _ => False

/-- A consumer that looked in vain and has no wake-up pending waits for a record that is not
finished, or whose commit is past its store. -/
def ConsumerInv (records : List Record) (consumed : Nat) (committing : Nat → Committing)
    (quiet : Prop) : Consumer → Prop
  | .looking => True
  | .peeking => ∃ r, records[consumed]? = some r
  | .found len => ∃ r, records[consumed]? = some r ∧ r.fill ≠ .busy ∧ len = r.lenWord
  | .advancing size =>
    ∃ r, records[consumed]? = some r ∧ r.fill ≠ .busy ∧ size = r.sample.len.toUInt32
  | .drowsy | .asleep => quiet → ∀ r, records[consumed]? = some r → r.fill ≠ .busy →
      PastStore (committing consumed)

structure Inv (s : Threads) : Prop where
  queue : QueueInv s.taken s.sys
  reserving : ReservingInv s.sys s.taken s.reserving
  committing : ∀ i, CommittingInv s.sys.records i (s.committing i)
  consumer : ConsumerInv s.sys.records s.sys.consumed s.committing
    (s.seen = s.sys.ring.wakeUps) s.consumer
  seen : s.seen ≤ s.sys.ring.wakeUps

section
variable {sys : System} {taken : Nat} {size prodPos : UInt64}

theorem Roomy.hdrBuf (h : Roomy sys taken size prodPos) :
    hdrBuf sys.ring prodPos = some ⟨sys.ring.addrOf sys.reserved, BPF_RINGBUF_HDR_SZ⟩ := by
  have hlt : sys.reserved % sys.ring.size < sys.ring.size := Nat.mod_lt _ sys.ring.size_pos
  have hle := sys.ring.le_size
  have h8 : BPF_RINGBUF_HDR_SZ.toNat = 8 := rfl
  have hrange := dataBuf_range sys.ring.toMapping sys.reserved 0 BPF_RINGBUF_HDR_SZ (by omega)
  unfold Threads.hdrBuf
  rw [h.prodPos_eq, sys.ring.and_mask_eq]
  simpa using hrange

theorem Roomy.payloadBuf (h : Roomy sys taken size prodPos) :
    payloadBuf sys.ring prodPos size = some (sampleAt sys.ring.toMapping sys.reserved size) := by
  have hlt : sys.reserved % sys.ring.size < sys.ring.size := Nat.mod_lt _ sys.ring.size_pos
  have hext := le_extent size.toNat
  have hfits := h.fits
  unfold Threads.payloadBuf
  rw [h.prodPos_eq, sys.ring.and_mask_eq]
  exact dataBuf_range sys.ring.toMapping sys.reserved 8 size (by omega)

/-- What a reservation knows lasts while others store elsewhere and the consumer moves on. -/
theorem ReservingInv.frame {sys' : System} {taken' : Nat} {c : Reserving}
    (h : ReservingInv sys taken c) (hmap : sys'.ring.toMapping = sys.ring.toMapping)
    (hreserved : sys'.reserved = sys.reserved) (htaken : taken ≤ taken')
    (hread : sys.reserved + 8 ≤ taken + sys.ring.size → ∀ n ≤ 8,
      Circular.read sys.ring.size sys'.ring.data sys.reserved n =
        Circular.read sys.ring.size sys.ring.data sys.reserved n) :
    ReservingInv sys' taken' c := by
  have hroomy : ∀ size prodPos, Roomy sys taken size prodPos →
      Roomy sys' taken' size prodPos ∧ sys.reserved + 8 ≤ taken + sys.ring.size := by
    intro size prodPos hr
    have hroom := hr.room
    have hext := le_extent size.toNat
    have hmask : sys.ring.size = sys.ring.mask.toNat + 1 := rfl
    refine ⟨⟨hr.small, ?_, ?_, ?_⟩, by omega⟩
    · rw [hmap]
      exact hr.fits
    · rw [hreserved]
      exact hr.prodPos_eq
    · rw [hreserved, hmap]
      omega
  cases c with
  | idle => trivial
  | loaded size consPos =>
    obtain ⟨hsmall, hfits, t, ht, hcons, hroom⟩ := h
    unfold ReservingInv
    rw [hmap, hreserved]
    exact ⟨hsmall, hfits, t, Nat.le_trans ht htaken, hcons, hroom⟩
  | checked size prodPos => exact (hroomy _ _ h).1
  | lenStored size prodPos =>
    obtain ⟨hr, hfree⟩ := hroomy _ _ h.1
    refine ⟨hr, ?_⟩
    rw [hmap, hreserved, hread hfree 4 (by omega)]
    exact h.2
  | hdrStored size prodPos =>
    obtain ⟨hr, hfree⟩ := hroomy _ _ h.1
    refine ⟨hr, ?_⟩
    unfold HasHdr
    rw [hmap, hreserved, hread hfree 8 (Nat.le_refl 8)]
    exact h.2

/-- A store inside a record leaves the bytes behind the producer position. -/
theorem read_reserved_write (h : QueueInv taken sys) {r : Record} (hr : r ∈ sys.records)
    (hlive : taken ≤ r.pos) {o : Nat} {bytes : Bytes} (hin : o + bytes.length ≤ extent r.size)
    (hfree : sys.reserved + 8 ≤ taken + sys.ring.size) {n : Nat} (hn : n ≤ 8) :
    Circular.read sys.ring.size
      (Circular.write sys.ring.size sys.ring.data (r.pos + o) bytes) sys.reserved n =
        Circular.read sys.ring.size sys.ring.data sys.reserved n := by
  have hend := h.guarded.end_le hr
  have hapart : Circular.Apart sys.ring.size r.pos (extent r.size) sys.reserved n :=
    Circular.apart_of_le hend (by omega)
  exact Circular.read_write_apart (hapart.sub_left hin).symm

end

section
variable {records : List Record} {i : Nat} {r r' : Record}

theorem getElem?_concat_of_some (h : records[i]? = some r) (x : Record) :
    (records ++ [x])[i]? = some r := by
  obtain ⟨hlt, -⟩ := List.getElem?_eq_some_iff.mp h
  rw [List.getElem?_append_left hlt]
  exact h

theorem getElem?_set_self_of_some (h : records[i]? = some r) : (records.set i r')[i]? = some r' := by
  obtain ⟨hlt, -⟩ := List.getElem?_eq_some_iff.mp h
  exact List.getElem?_set_self hlt

theorem busy_of_concat (hnew : r'.fill = .busy) (h : ∀ r, records[i]? = some r → r.fill = .busy)
    (hr : (records ++ [r'])[i]? = some r) : r.fill = .busy := by
  by_cases hlt : i < records.length
  · rw [List.getElem?_append_left hlt] at hr
    exact h r hr
  · rw [List.getElem?_append_right (Nat.le_of_not_lt hlt)] at hr
    have hlast := List.mem_of_getElem? hr
    rw [List.mem_singleton.mp hlast]
    exact hnew

theorem CommittingInv.concat {c : Committing} (h : CommittingInv records i c)
    (hnew : r'.fill = .busy) : CommittingInv (records ++ [r']) i c := by
  cases c with
  | idle =>
    intro r hr
    exact busy_of_concat hnew h hr
  | loaded len flags discard =>
    obtain ⟨hflags, r, hr, hrest⟩ := h
    exact ⟨hflags, r, getElem?_concat_of_some hr r', hrest⟩
  | stored flags =>
    obtain ⟨hflags, r, hr, hrest⟩ := h
    exact ⟨hflags, r, getElem?_concat_of_some hr r', hrest⟩
  | waking =>
    obtain ⟨r, hr, hrest⟩ := h
    exact ⟨r, getElem?_concat_of_some hr r', hrest⟩
  | returned =>
    obtain ⟨r, hr, hrest⟩ := h
    exact ⟨r, getElem?_concat_of_some hr r', hrest⟩

theorem committing_update {committing : Nat → Committing}
    (h : ∀ j, CommittingInv records j (committing j)) {c : Committing}
    (hc : CommittingInv records i c) (j : Nat) :
    CommittingInv records j (Function.update committing i c j) := by
  by_cases heq : j = i
  · subst heq
    rw [Function.update_self]
    exact hc
  · rw [Function.update_of_ne heq]
    exact h j

/-- What a commit knows depends on its own record only. -/
theorem CommittingInv.set_ne {c : Committing} (h : CommittingInv records i c) {j : Nat}
    (hne : j ≠ i) : CommittingInv (records.set j r') i c := by
  have hget : (records.set j r')[i]? = records[i]? := List.getElem?_set_ne hne
  cases c <;> (unfold CommittingInv; rw [hget]; exact h)

theorem CommittingInv.set_busy {c : Committing} (h : CommittingInv records i c)
    (hr : records[i]? = some r) (hbusy : r.fill = .busy) (hbusy' : r'.fill = .busy)
    (hlen : r'.lenWord = r.lenWord) : CommittingInv (records.set i r') i c := by
  have hget : (records.set i r')[i]? = some r' := getElem?_set_self_of_some hr
  have hdone : ∀ t, records[i]? = some t → t.fill ≠ .busy → False := by
    intro t ht hne
    rw [hr] at ht
    exact hne (Option.some.inj ht ▸ hbusy)
  cases c with
  | idle =>
    intro t ht
    rw [hget] at ht
    exact Option.some.inj ht ▸ hbusy'
  | loaded len flags discard =>
    obtain ⟨hflags, t, ht, -, hword⟩ := h
    rw [hr] at ht
    refine ⟨hflags, r', hget, hbusy', ?_⟩
    rw [hword, hlen, Option.some.inj ht]
  | stored flags =>
    obtain ⟨-, t, ht, hne⟩ := h
    exact (hdone t ht hne).elim
  | waking =>
    obtain ⟨t, ht, hne⟩ := h
    exact (hdone t ht hne).elim
  | returned =>
    obtain ⟨t, ht, hne⟩ := h
    exact (hdone t ht hne).elim

end

section
variable {records records' : List Record} {consumed : Nat} {committing committing' : Nat → Committing}
  {quiet quiet' : Prop} {c : Consumer}

/-- What the consumer knows lasts as long as finished records stay, and none that it waits for
is finished without a commit past its store. -/
theorem ConsumerInv.frame (h : ConsumerInv records consumed committing quiet c)
    (hkeep : ∀ r, records[consumed]? = some r → ∃ r', records'[consumed]? = some r')
    (hfinished : ∀ r, records[consumed]? = some r → r.fill ≠ .busy →
      records'[consumed]? = some r)
    (hasleep : (quiet → ∀ r, records[consumed]? = some r → r.fill ≠ .busy →
        PastStore (committing consumed)) →
      quiet' → ∀ r, records'[consumed]? = some r → r.fill ≠ .busy →
        PastStore (committing' consumed)) :
    ConsumerInv records' consumed committing' quiet' c := by
  cases c with
  | looking => trivial
  | peeking =>
    obtain ⟨r, hr⟩ := h
    exact hkeep r hr
  | found len =>
    obtain ⟨r, hr, hfill, hlen⟩ := h
    exact ⟨r, hfinished r hr hfill, hfill, hlen⟩
  | advancing size =>
    obtain ⟨r, hr, hfill, hsize⟩ := h
    exact ⟨r, hfinished r hr hfill, hfill, hsize⟩
  | drowsy => exact hasleep h
  | asleep => exact hasleep h

theorem ConsumerInv.concat (h : ConsumerInv records consumed committing quiet c) {r' : Record}
    (hnew : r'.fill = .busy) : ConsumerInv (records ++ [r']) consumed committing quiet c := by
  refine h.frame ?_ ?_ ?_
  · intro r hr
    exact ⟨r, getElem?_concat_of_some hr r'⟩
  · intro r hr _
    exact getElem?_concat_of_some hr r'
  · intro hpast hquiet r hr hfill
    by_cases hlt : consumed < records.length
    · rw [List.getElem?_append_left hlt] at hr
      exact hpast hquiet r hr hfill
    · rw [List.getElem?_append_right (Nat.le_of_not_lt hlt)] at hr
      have hlast := List.mem_of_getElem? hr
      rw [List.mem_singleton.mp hlast] at hfill
      exact absurd hnew hfill

/-- One record changes that was busy, together with its own commit. -/
theorem ConsumerInv.set (h : ConsumerInv records consumed committing quiet c) {i : Nat}
    {r r' : Record} (hr : records[i]? = some r) (hbusy : r.fill = .busy)
    (hother : ∀ j, j ≠ i → committing' j = committing j)
    (hpast : r'.fill ≠ .busy → PastStore (committing' i)) :
    ConsumerInv (records.set i r') consumed committing' quiet c := by
  by_cases heq : consumed = i
  · subst heq
    have hget : (records.set consumed r')[consumed]? = some r' := getElem?_set_self_of_some hr
    refine h.frame ?_ ?_ ?_
    · intro t _
      exact ⟨r', hget⟩
    · intro t ht hfill
      rw [hr] at ht
      exact absurd (Option.some.inj ht ▸ hbusy) hfill
    · intro _ _ t ht hfill
      rw [hget] at ht
      exact hpast (Option.some.inj ht ▸ hfill)
  · have hget : (records.set i r')[consumed]? = records[consumed]? :=
      List.getElem?_set_ne (Ne.symm heq)
    refine h.frame ?_ ?_ ?_
    · intro t ht
      exact ⟨t, hget.trans ht⟩
    · intro t ht _
      exact hget.trans ht
    · intro hold hquiet t ht hfill
      rw [hother consumed heq]
      exact hold hquiet t (hget ▸ ht) hfill

/-- A commit goes on without a change to its record. -/
theorem ConsumerInv.update (h : ConsumerInv records consumed committing quiet c) {i : Nat}
    {step : Committing} (hquiet : quiet' → quiet)
    (hpast : quiet' → consumed = i → ∀ r, records[i]? = some r → r.fill ≠ .busy →
      PastStore (committing i) → PastStore step) :
    ConsumerInv records consumed (Function.update committing i step) quiet' c := by
  refine h.frame ?_ ?_ ?_
  · intro r hr
    exact ⟨r, hr⟩
  · intro r hr _
    exact hr
  · intro hold hq r hr hfill
    have hbefore := hold (hquiet hq) r hr hfill
    by_cases heq : consumed = i
    · subst heq
      rw [Function.update_self]
      exact hpast hq rfl r hr hfill hbefore
    · rw [Function.update_of_ne heq]
      exact hbefore

end

section
variable {s s' : Threads}

theorem Inv.reserve (h : Inv s) {size : UInt64} (hs : step s (.reserve size) = some s') :
    Inv s' := by
  simp only [step] at hs
  split at hs
  case h_2 => cases hs
  split at hs
  · exact Option.some.inj hs ▸ h
  rename_i hsmall
  split at hs
  · exact Option.some.inj hs ▸ h
  rename_i hfits
  rw [← Option.some.inj hs]
  have hmax : RINGBUF_MAX_RECORD_SZ.toUInt64.toNat = RINGBUF_MAX_RECORD_SZ.toNat := rfl
  rw [gt_iff_lt, UInt64.lt_iff_toNat_lt, hmax] at hsmall
  rw [gt_iff_lt, UInt64.lt_iff_toNat_lt, s.sys.ring.toNat_totalDataSize,
    toNat_alignedSize (Nat.le_of_not_lt hsmall)] at hfits
  exact ⟨h.queue, ⟨Nat.le_of_not_lt hsmall, Nat.le_of_not_lt hfits, s.taken, Nat.le_refl _,
    h.queue.consumer, h.queue.room⟩, h.committing, h.consumer, h.seen⟩

theorem Inv.check (h : Inv s) (hs : step s .check = some s') : Inv s' := by
  have hreserving := h.reserving
  simp only [step] at hs
  split at hs
  case h_2 => cases hs
  rename_i size consPos hstage
  rw [hstage] at hreserving
  obtain ⟨hsmall, hfits, t, ht, rfl, hroom⟩ := hreserving
  split at hs
  · rw [← Option.some.inj hs]
    exact ⟨h.queue, trivial, h.committing, h.consumer, h.seen⟩
  rename_i hcheck
  rw [← Option.some.inj hs]
  have hnew : s.sys.ring.producerPos + alignedSize size =
      .ofNat (s.sys.reserved + extent size.toNat) := by
    rw [h.queue.guarded.producer, UInt64.ofNat_add, ← toNat_alignedSize hsmall, UInt64.ofNat_toNat]
  rw [hnew, gt_iff_lt, UInt64.lt_iff_toNat_lt] at hcheck
  have htaken := h.queue.taken_le
  have hspace := QueueInv.room_for (Nat.le_trans ht htaken) hroom hfits
    (Nat.lt_succ_of_le (Nat.le_of_not_lt hcheck))
  exact ⟨h.queue, ⟨hsmall, hfits, h.queue.guarded.producer,
    Nat.le_trans hspace (Nat.add_le_add_right ht _)⟩, h.committing, h.consumer,
    h.seen⟩

/-- A header word stored where the next record will be. -/
theorem Inv.setData (h : Inv s) {size prodPos : UInt64}
    (hroomy : Roomy s.sys s.taken size prodPos) {o : Nat} {bytes : Bytes}
    (hin : o + bytes.length ≤ 8) {c : Reserving}
    (hc : ReservingInv { s.sys with ring := { s.sys.ring with
      data := Circular.write s.sys.ring.size s.sys.ring.data (s.sys.reserved + o) bytes } }
      s.taken c) :
    Inv { s.setRing { s.sys.ring with
      data := Circular.write s.sys.ring.size s.sys.ring.data (s.sys.reserved + o) bytes } with
      reserving := c } := by
  have hext := le_extent size.toNat
  have hroom := hroomy.room
  have hmask : s.sys.ring.size = s.sys.ring.mask.toNat + 1 := rfl
  exact ⟨h.queue.store (by omega), hc, h.committing, h.consumer, h.seen⟩

theorem Inv.storeLen (h : Inv s) (hs : step s .storeLen = some s') : Inv s' := by
  have hreserving := h.reserving
  simp only [step] at hs
  split at hs
  case h_2 => cases hs
  rename_i size prodPos hstage
  rw [hstage] at hreserving
  have hroomy : Roomy s.sys s.taken size prodPos := hreserving
  rw [hroomy.hdrBuf] at hs
  have hle := s.sys.ring.le_size
  have hstore : s.sys.ring.storeU32 (s.sys.ring.addrOf s.sys.reserved)
      (size.toUInt32 ||| BPF_RINGBUF_BUSY_BIT) = { s.sys.ring with
        data := Circular.write s.sys.ring.size s.sys.ring.data (s.sys.reserved + 0)
          (Endian.toLe 4 (size.toUInt32 ||| BPF_RINGBUF_BUSY_BIT).toNat) } :=
    s.sys.ring.store_addrOf s.sys.reserved _
  have hread : Circular.read s.sys.ring.size (Circular.write s.sys.ring.size s.sys.ring.data
      (s.sys.reserved + 0) (Endian.toLe 4 (size.toUInt32 ||| BPF_RINGBUF_BUSY_BIT).toNat))
      s.sys.reserved (Endian.toLe 4 (size.toUInt32 ||| BPF_RINGBUF_BUSY_BIT).toNat).length =
      Endian.toLe 4 (size.toUInt32 ||| BPF_RINGBUF_BUSY_BIT).toNat :=
    Circular.read_write (by rw [Endian.length_toLe]; omega)
  rw [Endian.length_toLe] at hread
  rw [← Option.some.inj hs, hstore]
  refine h.setData hroomy (by rw [Endian.length_toLe]; omega) ⟨?_, hread⟩
  exact ⟨hroomy.small, hroomy.fits, hroomy.prodPos_eq, hroomy.room⟩

theorem Inv.storePgOff (h : Inv s) (hs : step s .storePgOff = some s') : Inv s' := by
  have hreserving := h.reserving
  simp only [step] at hs
  split at hs
  case h_2 => cases hs
  rename_i size prodPos hstage
  rw [hstage] at hreserving
  obtain ⟨hroomy, hlen⟩ := hreserving
  rw [hroomy.hdrBuf] at hs
  have hle := s.sys.ring.le_size
  have hstore : s.sys.ring.storeU32 (s.sys.ring.addrOf s.sys.reserved + 4)
      (s.sys.ring.bpfRingbufRecPgOff (s.sys.ring.addrOf s.sys.reserved)) = { s.sys.ring with
        data := Circular.write s.sys.ring.size s.sys.ring.data (s.sys.reserved + 4)
          (Endian.toLe 4 (s.sys.ring.pgOffAt s.sys.reserved).toNat) } := by
    rw [s.sys.ring.recPgOff_addrOf]
    exact s.sys.ring.store_addrOf_add s.sys.reserved (j := 4) (by omega) _
  have hbefore : Circular.read s.sys.ring.size (Circular.write s.sys.ring.size s.sys.ring.data
      (s.sys.reserved + 4) (Endian.toLe 4 (s.sys.ring.pgOffAt s.sys.reserved).toNat))
      s.sys.reserved 4 = Circular.read s.sys.ring.size s.sys.ring.data s.sys.reserved 4 := by
    refine Circular.read_write_apart (Circular.apart_of_le (by omega) ?_)
    rw [Endian.length_toLe]
    omega
  have hread : Circular.read s.sys.ring.size (Circular.write s.sys.ring.size s.sys.ring.data
      (s.sys.reserved + 4) (Endian.toLe 4 (s.sys.ring.pgOffAt s.sys.reserved).toNat))
      (s.sys.reserved + 4) (Endian.toLe 4 (s.sys.ring.pgOffAt s.sys.reserved).toNat).length =
      Endian.toLe 4 (s.sys.ring.pgOffAt s.sys.reserved).toNat :=
    Circular.read_write (by rw [Endian.length_toLe]; omega)
  rw [Endian.length_toLe] at hread
  rw [← Option.some.inj hs, hstore]
  refine h.setData hroomy (by rw [Endian.length_toLe]) ⟨?_, ?_⟩
  · exact ⟨hroomy.small, hroomy.fits, hroomy.prodPos_eq, hroomy.room⟩
  · refine (Circular.read_append _ s.sys.reserved 4 4).trans ?_
    unfold hdrBytes
    rw [hbefore, hread, hlen]

theorem Inv.publish (h : Inv s) (hs : step s .publish = some s') : Inv s' := by
  have hreserving := h.reserving
  simp only [step] at hs
  split at hs
  case h_2 => cases hs
  rename_i size prodPos hstage
  rw [hstage] at hreserving
  obtain ⟨hroomy, hhdr⟩ := hreserving
  rw [hroomy.payloadBuf] at hs
  have hnew : prodPos + alignedSize size = .ofNat (s.sys.reserved + extent size.toNat) := by
    rw [hroomy.prodPos_eq, UInt64.ofNat_add, ← toNat_alignedSize hroomy.small,
      UInt64.ofNat_toNat]
  rw [← Option.some.inj hs, hnew]
  exact ⟨h.queue.append hhdr hroomy.small hroomy.fits hroomy.room, trivial,
    fun i => (h.committing i).concat rfl, h.consumer.concat rfl, h.seen⟩

theorem Inv.write (h : Inv s) {i off : Nat} {bytes : Bytes}
    (hs : step s (.write i off bytes) = some s') : Inv s' := by
  obtain ⟨r, hr, hs⟩ := Option.bind_eq_some_iff.mp hs
  split at hs
  case isFalse => cases hs
  rename_i hallowed
  have heffect : RingBuf.step s.sys (.write i off bytes) = some (s.sys.written i r off bytes) := by
    simp only [RingBuf.step, hr]
    exact if_pos hallowed
  have hguarded := h.queue.guarded.write (fun r b => Iff.rfl) heffect
  obtain ⟨r', hr', hbusy, hin, hwritten⟩ := h.queue.guarded.step_write heffect
  rw [hr] at hr'
  obtain rfl := Option.some.inj hr'
  rw [← Option.some.inj hs]
  rw [hwritten] at hguarded ⊢
  have hmem := List.mem_of_getElem? hr
  have hlive := h.queue.guarded.busy r hmem hbusy
  have hext := le_extent r.size
  refine ⟨h.queue.set hr hbusy rfl rfl rfl hguarded, ?_, ?_, ?_, h.seen⟩
  · refine h.reserving.frame rfl rfl (Nat.le_refl _) ?_
    intro hfree n hn
    exact read_reserved_write h.queue hmem hlive (by omega) hfree hn
  · intro j
    by_cases heq : i = j
    · subst heq
      exact (h.committing i).set_busy hr hbusy hbusy rfl
    · exact (h.committing j).set_ne heq
  · refine h.consumer.set hr hbusy (fun _ _ => rfl) ?_
    intro hne
    exact absurd hbusy hne

theorem Inv.commit (h : Inv s) {i : Nat} {flags : BpfRingbufFlags} {discard : Bool}
    (hs : step s (.commit i flags discard) = some s') : Inv s' := by
  obtain ⟨r, hr, hs⟩ := Option.bind_eq_some_iff.mp hs
  have hcommitting := h.committing i
  split at hs
  case h_2 => cases hs
  rename_i hstage
  rw [hstage] at hcommitting
  have hbusy := hcommitting r hr
  obtain ⟨-, hintact⟩ := h.queue.guarded.busy_intact hr hbusy
  simp only [hintact.hdrPtr] at hs
  obtain ⟨hdr, hhdr, hs⟩ := Option.bind_eq_some_iff.mp hs
  rw [hintact.hasHdr.loadHdr] at hhdr
  split at hs
  case isTrue => cases hs
  rename_i hallowed
  rw [← Option.some.inj hs, ← Option.some.inj hhdr]
  have hquiet : flags.contains BpfRingbufFlags.NO_WAKEUP = false := by
    simpa using fun hflag => hallowed (Or.inl hflag)
  refine ⟨h.queue, h.reserving, committing_update h.committing ⟨hquiet, r, hr, hbusy, rfl⟩,
    h.consumer.update id ?_, h.seen⟩
  intro _ _ t ht hfill
  exact absurd (hcommitting t ht) hfill

/-- The system once a commit has stored the length word anew. -/
def finished (s : Threads) (i : Nat) (r : Record) (flags : BpfRingbufFlags) (discard : Bool) :
    Threads :=
  { s.setCommitting i (.stored flags) with
    sys := s.sys.committed { s.sys.ring with
      data := Circular.write s.sys.ring.size s.sys.ring.data r.pos
        (Endian.toLe 4 (finishedLen r.lenWord discard).toNat) } i r discard }

theorem step_storeFinal {i : Nat} {r : Record} {flags : BpfRingbufFlags} {discard : Bool}
    (hintact : Intact s.sys.ring r) (hr : s.sys.records[i]? = some r)
    (hstage : s.committing i = .loaded r.lenWord flags discard) :
    step s (.storeFinal i) = some (s.finished i r flags discard) := by
  have hstore := s.sys.ring.store_addrOf r.pos
    (Endian.toLe 4 (finishedLen r.lenWord discard).toNat)
  simp only [step, hr, hstage, Option.bind_eq_bind, Option.bind_some]
  rw [hintact.hdrPtr]
  unfold finished
  rw [← hstore]
  rfl

theorem Inv.storeFinal (h : Inv s) {i : Nat} (hs : step s (.storeFinal i) = some s') : Inv s' := by
  have heffect := hs
  obtain ⟨r, hr, heffect⟩ := Option.bind_eq_some_iff.mp heffect
  have hcommitting := h.committing i
  split at heffect
  case h_2 => cases heffect
  rename_i len flags discard hstage
  rw [hstage] at hcommitting
  obtain ⟨hflags, t, ht, hbusy, rfl⟩ := hcommitting
  rw [hr] at ht
  obtain rfl := Option.some.inj ht
  obtain ⟨hlive, hintact⟩ := h.queue.guarded.busy_intact hr hbusy
  rw [step_storeFinal hintact hr hstage] at hs
  rw [← Option.some.inj hs]
  have hguarded : Guarded (s.taken ≤ ·.pos) (s.finished i r flags discard).sys :=
    h.queue.guarded.finish hr hbusy rfl rfl rfl
  have hmem := List.mem_of_getElem? hr
  have hext := le_extent r.size
  have hget : (s.sys.records.set i
      { r with fill := if discard then .discarded else .submitted })[i]? =
        some { r with fill := if discard then .discarded else .submitted } :=
    getElem?_set_self_of_some hr
  refine ⟨h.queue.set hr hbusy rfl rfl rfl hguarded, ?_, ?_, ?_, h.seen⟩
  · refine h.reserving.frame rfl rfl (Nat.le_refl _) ?_
    intro hfree n hn
    refine read_reserved_write h.queue hmem hlive (o := 0) ?_ hfree hn
    rw [Endian.length_toLe]
    omega
  · intro j
    by_cases heq : j = i
    · subst heq
      show CommittingInv _ j (Function.update s.committing j _ j)
      rw [Function.update_self]
      refine ⟨hflags, _, hget, ?_⟩
      cases discard <;> exact Fill.noConfusion
    · show CommittingInv _ j (Function.update s.committing i _ j)
      rw [Function.update_of_ne heq]
      exact (h.committing j).set_ne (Ne.symm heq)
  · refine h.consumer.set hr hbusy (fun j hne => Function.update_of_ne hne _ _) ?_
    intro _
    show PastStore (Function.update s.committing i _ i)
    rw [Function.update_self]
    trivial

/-- The masked consumer position meets the offset of the record it has reached. -/
theorem Inv.wakes (h : Inv s) {r : Record} {flags : BpfRingbufFlags}
    (hr : s.sys.records[s.sys.consumed]? = some r)
    (hflags : flags.contains BpfRingbufFlags.NO_WAKEUP = false) :
    s.sys.ring.wakes r.pos flags := by
  obtain ⟨hpos, -, -, -⟩ := h.queue.head hr
  unfold RingBuf.wakes
  rw [h.queue.consumer, s.sys.ring.and_mask_eq, hpos, hflags]
  simp

/-- The two comparisons of a commit, in one. -/
theorem step_compare {i : Nat} {r : Record} {flags : BpfRingbufFlags} (hintact : Intact s.sys.ring r)
    (hr : s.sys.records[i]? = some r) (hstage : s.committing i = .stored flags) :
    step s (.compare i) = some (s.setCommitting i
      (if s.sys.ring.wakes r.pos flags then .waking else .returned)) := by
  simp only [step, hr, hstage, Option.bind_eq_bind, Option.bind_some]
  rw [hintact.hdrPtr, addrOf_sub_dataPos]
  unfold RingBuf.wakes
  cases flags.contains BpfRingbufFlags.FORCE_WAKEUP with
  | true => rfl
  | false =>
    cases s.sys.ring.consumerPos &&& s.sys.ring.mask == UInt64.ofNat (r.pos % s.sys.ring.size) &&
      !flags.contains BpfRingbufFlags.NO_WAKEUP with
    | true => rfl
    | false => rfl

theorem Inv.compare (h : Inv s) {i : Nat} (hs : step s (.compare i) = some s') : Inv s' := by
  have hcommitting := h.committing i
  have heffect := hs
  obtain ⟨r, hr, heffect⟩ := Option.bind_eq_some_iff.mp heffect
  split at heffect
  case h_2 => cases heffect
  rename_i flags hstage
  rw [hstage] at hcommitting
  obtain ⟨hflags, hfinished⟩ := hcommitting
  have hnext : ∃ c, (c = .waking ∨ c = .returned) ∧ s' = s.setCommitting i c := by
    simp only at heffect
    split at heffect
    · exact ⟨_, Or.inl rfl, (Option.some.inj heffect).symm⟩
    split at heffect
    · exact ⟨_, Or.inl rfl, (Option.some.inj heffect).symm⟩
    · exact ⟨_, Or.inr rfl, (Option.some.inj heffect).symm⟩
  obtain ⟨c, hc, rfl⟩ := hnext
  refine ⟨h.queue, h.reserving, committing_update h.committing ?_, h.consumer.update id ?_, h.seen⟩
  · rcases hc with rfl | rfl
    · exact hfinished
    · exact hfinished
  · -- a consumer that waits for this very record makes the comparison succeed
    rintro _ rfl _ _ _ _
    have hwaking := step_compare (h.queue.head hr).2.1 hr hstage
    rw [h.wakes hr hflags, if_pos rfl, hs] at hwaking
    have hsame : Function.update s.committing s.sys.consumed c s.sys.consumed =
        Function.update s.committing s.sys.consumed .waking s.sys.consumed :=
      congrArg (fun t : Threads => t.committing s.sys.consumed) (Option.some.inj hwaking)
    rw [Function.update_self, Function.update_self] at hsame
    rw [hsame]
    trivial

theorem step_wakeUp {i : Nat} (hstage : s.committing i = .waking) :
    step s (.wakeUp i) = some ((s.setRing s.sys.ring.wakeUp).setCommitting i .returned) := by
  simp only [step, hstage]

theorem Inv.wakeUp (h : Inv s) {i : Nat} (hs : step s (.wakeUp i) = some s') : Inv s' := by
  have hcommitting := h.committing i
  simp only [step] at hs
  split at hs
  case h_2 => cases hs
  rename_i hstage
  rw [hstage] at hcommitting
  rw [← Option.some.inj hs]
  have hseen := h.seen
  refine ⟨h.queue.setRing s.sys.ring.wakeUp rfl rfl rfl rfl _, ?_,
    committing_update h.committing hcommitting,
    h.consumer.update ?_ ?_, Nat.le_succ_of_le h.seen⟩
  · exact h.reserving.frame rfl rfl (Nat.le_refl _) fun _ _ _ => rfl
  · intro hquiet
    exact absurd (hquiet ▸ hseen) (Nat.not_succ_le_self _)
  · intro hquiet
    exact absurd (hquiet ▸ hseen) (Nat.not_succ_le_self _)

theorem Inv.look (h : Inv s) (hs : step s .look = some s') : Inv s' := by
  simp only [step] at hs
  split at hs
  case h_2 => cases hs
  split at hs
  · rename_i heq
    rw [← Option.some.inj hs]
    refine ⟨h.queue, h.reserving, h.committing, ?_, h.seen⟩
    intro _ r hr _
    exact absurd heq (h.queue.head hr).2.2.1
  · rename_i hne
    rw [← Option.some.inj hs]
    exact ⟨h.queue, h.reserving, h.committing, h.queue.next hne, h.seen⟩

theorem Inv.peek (h : Inv s) (hs : step s .peek = some s') : Inv s' := by
  have hconsumer := h.consumer
  simp only [step] at hs
  split at hs
  case h_2 => cases hs
  rename_i hstage
  rw [hstage] at hconsumer
  obtain ⟨r, hr⟩ := hconsumer
  obtain ⟨haddr, hlen⟩ := h.queue.look hr
  obtain ⟨-, hintact, -, -⟩ := h.queue.head hr
  have hword : s.sys.ring.loadU32 (hdrAtConsumer s.sys.ring) = r.lenWord := by
    unfold hdrAtConsumer
    rw [haddr, hlen]
  rw [hword] at hs
  split at hs
  · rename_i hbusy
    rw [← Option.some.inj hs]
    refine ⟨h.queue, h.reserving, h.committing, ?_, h.seen⟩
    intro _ t ht hfill
    rw [hr] at ht
    rw [← Option.some.inj ht] at hfill
    exact absurd ((lenWord_busy hintact.small).mpr hfill) hbusy
  · rename_i hfree
    rw [← Option.some.inj hs]
    have hfill := (lenWord_busy hintact.small).mp (not_not.mp hfree)
    exact ⟨h.queue, h.reserving, h.committing, ⟨r, hr, hfill, rfl⟩, h.seen⟩

theorem Inv.take (h : Inv s) (hs : step s .take = some s') : Inv s' := by
  have hconsumer := h.consumer
  simp only [step] at hs
  split at hs
  case h_2 => cases hs
  rename_i len hstage
  rw [hstage] at hconsumer
  obtain ⟨r, hr, hfill, rfl⟩ := hconsumer
  obtain ⟨hsize, -, -, -, -⟩ := h.queue.yields hr hfill
  rw [← Option.some.inj hs]
  refine ⟨h.queue.setRing s.sys.ring rfl rfl rfl rfl _, ?_, h.committing, ⟨r, hr, hfill, hsize⟩, h.seen⟩
  exact h.reserving.frame rfl rfl (Nat.le_refl _) fun _ _ _ => rfl

theorem Inv.advance (h : Inv s) (hs : step s .advance = some s') : Inv s' := by
  have hconsumer := h.consumer
  simp only [step] at hs
  split at hs
  case h_2 => cases hs
  rename_i size hstage
  rw [hstage] at hconsumer
  obtain ⟨r, hr, hfill, rfl⟩ := hconsumer
  obtain ⟨-, hnat, -, hnext, -⟩ := h.queue.yields hr hfill
  obtain ⟨hpos, hintact, -, -⟩ := h.queue.head hr
  have hround := toNat_roundUp (hnat ▸ hintact.small : r.sample.len.toUInt32.toNat ≤ _)
  have htaken : s.taken + ((r.sample.len.toUInt32.toUInt64 + 8 + 7) &&& ~~~7).toNat =
      r.pos + extent r.size := by
    rw [hround, hnat, hpos]
  rw [hnext, htaken] at hs
  rw [← Option.some.inj hs]
  have hle : s.taken ≤ r.pos + extent r.size := hpos ▸ Nat.le_add_right _ _
  refine ⟨h.queue.advance hr hfill _, ?_, h.committing, trivial, h.seen⟩
  exact h.reserving.frame rfl rfl hle fun _ _ _ => rfl

theorem Inv.forget (h : Inv s) (hs : step s .forget = some s') : Inv s' := by
  have hconsumer := h.consumer
  simp only [step] at hs
  split at hs
  case h_3 => cases hs
  · rename_i hstage
    rw [← Option.some.inj hs]
    rw [hstage] at hconsumer
    refine ⟨h.queue, h.reserving, h.committing, ?_, Nat.le_refl _⟩
    show ConsumerInv _ _ _ _ s.consumer
    rw [hstage]
    trivial
  · rename_i hstage
    rw [← Option.some.inj hs]
    rw [hstage] at hconsumer
    refine ⟨h.queue, h.reserving, h.committing, ?_, Nat.le_refl _⟩
    show ConsumerInv _ _ _ _ s.consumer
    rw [hstage]
    exact hconsumer

theorem Inv.sleep (h : Inv s) (hs : step s .sleep = some s') : Inv s' := by
  have hconsumer := h.consumer
  simp only [step] at hs
  split at hs
  case h_2 => cases hs
  rename_i hstage
  rw [hstage] at hconsumer
  rw [← Option.some.inj hs]
  exact ⟨h.queue, h.reserving, h.committing, hconsumer, h.seen⟩

theorem Inv.resume (h : Inv s) (hs : step s .resume = some s') : Inv s' := by
  simp only [step] at hs
  split at hs
  case h_2 => cases hs
  split at hs
  case isFalse => cases hs
  rw [← Option.some.inj hs]
  exact ⟨h.queue, h.reserving, h.committing, trivial, Nat.le_refl _⟩

theorem Inv.steps (h : Inv s) (hs : Steps s s') : Inv s' := by
  obtain ⟨a, ha⟩ := hs
  cases a with
  | reserve size => exact h.reserve ha
  | check => exact h.check ha
  | storeLen => exact h.storeLen ha
  | storePgOff => exact h.storePgOff ha
  | publish => exact h.publish ha
  | write i off bytes => exact h.write ha
  | commit i flags discard => exact h.commit ha
  | storeFinal i => exact h.storeFinal ha
  | compare i => exact h.compare ha
  | wakeUp i => exact h.wakeUp ha
  | look => exact h.look ha
  | peek => exact h.peek ha
  | take => exact h.take ha
  | advance => exact h.advance ha
  | forget => exact h.forget ha
  | sleep => exact h.sleep ha
  | resume => exact h.resume ha

end

theorem Inv.start {rb : RingBuf} (hcons : rb.consumerPos = 0) (hprod : rb.producerPos = 0) :
    Inv (start rb) := by
  refine ⟨.start hcons hprod, trivial, ?_, trivial, Nat.le_refl _⟩
  intro i r hr
  cases hr

/-- Accesses one after the other. -/
def run (s : Threads) (as : List Access) : Option Threads := as.foldlM step s

theorem run_cons {s t s' : Threads} {a : Access} {as : List Access} (h : step s a = some t)
    (hrest : t.run as = some s') : s.run (a :: as) = some s' := by
  unfold run at hrest ⊢
  rw [List.foldlM_cons, h]
  exact hrest

section
variable {s : Threads}

/-- A reservation that passed its check fills the header and moves the producer position. -/
theorem Inv.run_checked (h : Inv s) {size prodPos : UInt64}
    (hchecked : s.reserving = .checked size prodPos) :
    s.run [.storeLen, .storePgOff, .publish] = some { s with
      sys := s.sys.granted (s.sys.ring.afterReserve s.sys.reserved size)
        (sampleAt s.sys.ring.toMapping s.sys.reserved size) size
      reserving := .idle } := by
  have hreserving := h.reserving
  rw [hchecked] at hreserving
  have hroomy : Roomy s.sys s.taken size prodPos := hreserving
  have hhdr := storeHdr_addrOf s.sys.ring s.sys.reserved
    ⟨size.toUInt32 ||| BPF_RINGBUF_BUSY_BIT, s.sys.ring.pgOffAt s.sys.reserved⟩
  have hnew : prodPos + alignedSize size = .ofNat (s.sys.reserved + extent size.toNat) := by
    rw [hroomy.prodPos_eq, UInt64.ofNat_add, ← toNat_alignedSize hroomy.small,
      UInt64.ofNat_toNat]
  refine run_cons (t := { s.setRing (s.sys.ring.storeU32 (s.sys.ring.addrOf s.sys.reserved)
    (size.toUInt32 ||| BPF_RINGBUF_BUSY_BIT)) with reserving := .lenStored size prodPos }) ?_ ?_
  · simp only [step, hchecked, hroomy.hdrBuf]
    rfl
  refine run_cons (t := { s.setRing { s.sys.ring with
    data := Circular.write s.sys.ring.size s.sys.ring.data s.sys.reserved (hdrBytes
      ⟨size.toUInt32 ||| BPF_RINGBUF_BUSY_BIT, s.sys.ring.pgOffAt s.sys.reserved⟩) } with
    reserving := .hdrStored size prodPos }) ?_ ?_
  · have hbuf : hdrBuf (s.sys.ring.storeU32 (s.sys.ring.addrOf s.sys.reserved)
        (size.toUInt32 ||| BPF_RINGBUF_BUSY_BIT)) prodPos =
        some ⟨s.sys.ring.addrOf s.sys.reserved, BPF_RINGBUF_HDR_SZ⟩ := hroomy.hdrBuf
    have hpgOff : (s.sys.ring.storeU32 (s.sys.ring.addrOf s.sys.reserved)
        (size.toUInt32 ||| BPF_RINGBUF_BUSY_BIT)).bpfRingbufRecPgOff
          (s.sys.ring.addrOf s.sys.reserved) = s.sys.ring.pgOffAt s.sys.reserved :=
      s.sys.ring.recPgOff_addrOf s.sys.reserved
    simp only [step, setRing, hbuf, Option.bind_eq_bind, Option.bind_some, hpgOff]
    rw [← hhdr]
  · have hbuf : payloadBuf { s.sys.ring with
        data := Circular.write s.sys.ring.size s.sys.ring.data s.sys.reserved (hdrBytes
          ⟨size.toUInt32 ||| BPF_RINGBUF_BUSY_BIT, s.sys.ring.pgOffAt s.sys.reserved⟩) } prodPos size =
        some (sampleAt s.sys.ring.toMapping s.sys.reserved size) := hroomy.payloadBuf
    refine run_cons ?_ rfl
    simp only [step, setRing, hbuf, Option.bind_eq_bind, Option.bind_some, hnew]
    rfl

/-- A reservation that nobody interrupts is `reserve`. -/
theorem Inv.run_reserve (h : Inv s) (hidle : s.reserving = .idle) (size : UInt64) :
    ∃ as sys, s.run as = some { s with sys := sys } ∧
      RingBuf.step s.sys (.reserve size) = some sys := by
  have hproducer := h.queue.guarded.producer
  have hmax : RINGBUF_MAX_RECORD_SZ.toUInt64.toNat = RINGBUF_MAX_RECORD_SZ.toNat := rfl
  simp only [RingBuf.step, exec_reserve hproducer]
  by_cases hbig : RINGBUF_MAX_RECORD_SZ.toNat < size.toNat
  · have hgt : size > RINGBUF_MAX_RECORD_SZ.toUInt64 := by
      rw [gt_iff_lt, UInt64.lt_iff_toNat_lt, hmax]
      exact hbig
    refine ⟨[.reserve size], s.sys, run_cons (t := s) ?_ rfl, ?_⟩
    · simp only [step, hidle]
      exact if_pos hgt
    · rw [if_pos hbig]
  have hngt : ¬ size > RINGBUF_MAX_RECORD_SZ.toUInt64 := by
    rw [gt_iff_lt, UInt64.lt_iff_toNat_lt, hmax]
    exact hbig
  have haligned := toNat_alignedSize (Nat.le_of_not_lt hbig)
  rw [if_neg hbig]
  by_cases hlarge : s.sys.ring.size < extent size.toNat
  · have hgt : alignedSize size > s.sys.ring.totalDataSize := by
      rw [gt_iff_lt, UInt64.lt_iff_toNat_lt, s.sys.ring.toNat_totalDataSize, haligned]
      exact hlarge
    refine ⟨[.reserve size], s.sys, run_cons (t := s) ?_ rfl, ?_⟩
    · simp only [step, hidle]
      rw [if_neg hngt, if_pos hgt]
    · rw [if_pos hlarge]
  have hnlarge : ¬ alignedSize size > s.sys.ring.totalDataSize := by
    rw [gt_iff_lt, UInt64.lt_iff_toNat_lt, s.sys.ring.toNat_totalDataSize, haligned]
    exact hlarge
  rw [if_neg hlarge]
  have hfirst : step s (.reserve size) =
      some { s with reserving := .loaded size s.sys.ring.consumerPos } := by
    simp only [step, hidle]
    rw [if_neg hngt, if_neg hnlarge]
  have hnew : s.sys.ring.producerPos + alignedSize size =
      .ofNat (s.sys.reserved + extent size.toNat) := by
    rw [hproducer, UInt64.ofNat_add, ← haligned, UInt64.ofNat_toNat]
  by_cases hfull : s.sys.ring.size ≤
      (UInt64.ofNat (s.sys.reserved + extent size.toNat) - s.sys.ring.consumerPos).toNat
  · have hgt : UInt64.ofNat (s.sys.reserved + extent size.toNat) - s.sys.ring.consumerPos >
        s.sys.ring.mask := by
      rw [gt_iff_lt, UInt64.lt_iff_toNat_lt]
      exact hfull
    refine ⟨[.reserve size, .check], s.sys, run_cons hfirst (run_cons (t := s) ?_ rfl), ?_⟩
    · simp only [step, hnew]
      rw [if_pos hgt, ← hidle]
    · rw [if_pos hfull]
  have hngt : ¬ UInt64.ofNat (s.sys.reserved + extent size.toNat) - s.sys.ring.consumerPos >
      s.sys.ring.mask := by
    rw [gt_iff_lt, UInt64.lt_iff_toNat_lt]
    exact hfull
  have hsecond : step { s with reserving := .loaded size s.sys.ring.consumerPos } .check =
      some { s with reserving := .checked size s.sys.ring.producerPos } := by
    simp only [step, hnew]
    rw [if_neg hngt]
  have hchecked : Inv { s with reserving := .checked size s.sys.ring.producerPos } :=
    (h.steps ⟨_, hfirst⟩).steps ⟨_, hsecond⟩
  rw [if_neg hfull]
  refine ⟨[.reserve size, .check, .storeLen, .storePgOff, .publish], _,
    run_cons hfirst (run_cons hsecond ?_), rfl⟩
  rw [hchecked.run_checked rfl, hidle]

/-- A consumer that nobody interrupts takes what `consume` takes. -/
theorem Inv.run_consume (h : Inv s) (hlooking : s.consumer = .looking) :
    ∃ as s', s.run as = some s' ∧ s'.sys = s.sys.consume := by
  by_cases heq : s.sys.ring.consumerPos = s.sys.ring.producerPos
  · refine ⟨[.look], { s with consumer := .drowsy }, run_cons ?_ rfl, (if_pos heq).symm⟩
    simp only [step, hlooking]
    exact if_pos heq
  obtain ⟨r, hr⟩ := h.queue.next heq
  obtain ⟨haddr, hlen⟩ := h.queue.look hr
  obtain ⟨-, hintact, -, -⟩ := h.queue.head hr
  have hword : s.sys.ring.loadU32 (hdrAtConsumer s.sys.ring) = r.lenWord := by
    unfold hdrAtConsumer
    rw [haddr, hlen]
  have hfirst : step s .look = some { s with consumer := .peeking } := by
    simp only [step, hlooking]
    exact if_neg heq
  by_cases hfill : r.fill = .busy
  · have hbusy : r.lenWord &&& BPF_RINGBUF_BUSY_BIT ≠ 0 := by
      intro hzero
      exact (lenWord_busy hintact.small).mp hzero hfill
    refine ⟨[.look, .peek], { s with consumer := .drowsy }, run_cons hfirst (run_cons ?_ rfl),
      (h.queue.consume_busy hr hfill).symm⟩
    simp only [step, hword]
    exact if_pos hbusy
  obtain ⟨hsize, hnat, hbody, hnext, hgiven⟩ := h.queue.yields hr hfill
  have hfree := (lenWord_busy hintact.small).mpr hfill
  refine ⟨[.look, .peek, .take, .advance], _, run_cons hfirst (run_cons
    (t := { s with consumer := .found r.lenWord }) ?_ (run_cons rfl (run_cons rfl rfl))), ?_⟩
  · simp only [step, hword]
    exact if_neg (not_not.mpr hfree)
  · have hpayload : s.sys.ring.load (hdrAtConsumer s.sys.ring + 8) r.size = r.body := by
      unfold hdrAtConsumer
      rw [haddr, hbody]
    rw [h.queue.consume_finished hr hfill, ← hgiven, ← hpayload, ← hnext, ← hnat, ← hsize]

/-- A commit that nobody interrupts is `commit`. -/
theorem Inv.run_commit (h : Inv s) {i : Nat} {r : Record} {flags : BpfRingbufFlags}
    {discard : Bool} (hidle : s.committing i = .idle) (hr : s.sys.records[i]? = some r)
    (hflags : flags.contains BpfRingbufFlags.NO_WAKEUP = false) :
    ∃ as s', s.run as = some s' ∧
      RingBuf.step s.sys (.commit i flags discard) = some s'.sys := by
  have hcommitting := h.committing i
  rw [hidle] at hcommitting
  have hbusy := hcommitting r hr
  obtain ⟨hlive, hintact⟩ := h.queue.guarded.busy_intact hr hbusy
  have hfirst : step s (.commit i flags discard) =
      some (s.setCommitting i (.loaded r.lenWord flags discard)) := by
    simp only [step, hr, hidle, hintact.hdrPtr, hintact.hasHdr.loadHdr, Option.bind_eq_bind,
      Option.bind_some, s.sys.ring.restoreFromRec_addrOf, hflags]
    exact if_neg (by simp)
  have hsecond := step_storeFinal (s := s.setCommitting i (.loaded r.lenWord flags discard)) hintact
    hr (Function.update_self i _ _)
  have hinv := (h.steps ⟨_, hfirst⟩).steps ⟨_, hsecond⟩
  have hr' : (s.sys.records.set i
      { r with fill := if discard then .discarded else .submitted })[i]? =
        some { r with fill := if discard then .discarded else .submitted } :=
    getElem?_set_self_of_some hr
  have hintact' := hinv.queue.guarded.intact _ (List.mem_of_getElem? hr') hlive
  have hstage : ((s.setCommitting i (.loaded r.lenWord flags discard)).finished i r flags
      discard).committing i = .stored flags := Function.update_self i _ _
  have hthird := step_compare hintact' hr' hstage
  have hexec := exec_commit hintact.hasHdr r.sample.len flags discard
  rw [← hintact.sample] at hexec
  simp only [RingBuf.step, hr, hbusy, if_true, hexec]
  -- the comparison reads the consumer position, which the store has left alone
  have hsame : ((s.setCommitting i (.loaded r.lenWord flags discard)).finished i r flags
      discard).sys.ring.wakes r.pos flags = s.sys.ring.wakes r.pos flags := rfl
  rw [hsame] at hthird
  unfold afterCommit
  cases hwakes : s.sys.ring.wakes r.pos flags with
  | true =>
    rw [hwakes, if_pos rfl] at hthird
    have hwaking : (((s.setCommitting i (.loaded r.lenWord flags discard)).finished i r flags
        discard).setCommitting i .waking).committing i = .waking := Function.update_self i _ _
    exact ⟨[.commit i flags discard, .storeFinal i, .compare i, .wakeUp i], _,
      run_cons hfirst (run_cons hsecond (run_cons hthird (run_cons (step_wakeUp hwaking) rfl))),
      rfl⟩
  | false =>
    exact ⟨[.commit i flags discard, .storeFinal i, .compare i], _,
      run_cons hfirst (run_cons hsecond (run_cons hthird rfl)), rfl⟩

end

/-- The record at the consumer position is there, and its busy bit is clear. -/
def CommittedAtConsumer (s : Threads) : Prop :=
  s.sys.ring.consumerPos ≠ s.sys.ring.producerPos ∧
    s.sys.ring.loadU32 (hdrAtConsumer s.sys.ring) &&& BPF_RINGBUF_BUSY_BIT = 0

/-- What is claimed of every state with the consumer asleep. -/
structure NoLostWakeUp (s : Threads) : Prop where
  /-- After the commit of the record it waits for has returned, a wake-up is pending. -/
  returned : ∀ r, s.sys.records[s.sys.consumed]? = some r →
    s.committing s.sys.consumed = .returned → s.seen < s.sys.ring.wakeUps
  /-- As soon as memory shows that record as committed, a wake-up is pending or its commit is
  on the way to the waker. -/
  committed : CommittedAtConsumer s → s.seen < s.sys.ring.wakeUps ∨ Notifying s s.sys.consumed
  /-- A commit on the way gets there without anybody's help. -/
  arrives : Notifying s s.sys.consumed → ∃ as s', s.run as = some s' ∧
    (∀ a ∈ as, a = .compare s.sys.consumed ∨ a = .wakeUp s.sys.consumed) ∧
    s'.consumer = .asleep ∧ s'.seen < s'.sys.ring.wakeUps

theorem Inv.noLostWakeUp {s : Threads} (h : Inv s) (hasleep : s.consumer = .asleep) :
    NoLostWakeUp s := by
  have hconsumer := h.consumer
  rw [hasleep] at hconsumer
  have hpast : ¬ s.seen < s.sys.ring.wakeUps → ∀ r, s.sys.records[s.sys.consumed]? = some r →
      r.fill ≠ .busy → PastStore (s.committing s.sys.consumed) := by
    intro hnot
    exact hconsumer (Nat.le_antisymm h.seen (Nat.le_of_not_lt hnot))
  have hcommitting := h.committing s.sys.consumed
  constructor
  case returned =>
    intro r hr hreturned
    by_contra hnot
    rw [hreturned] at hcommitting
    obtain ⟨t, ht, hfill⟩ := hcommitting
    have hstage := hpast hnot t ht hfill
    rw [hreturned] at hstage
    exact hstage
  case committed =>
    rintro ⟨hne, hclear⟩
    by_cases hpending : s.seen < s.sys.ring.wakeUps
    · exact Or.inl hpending
    obtain ⟨r, hr⟩ := h.queue.next hne
    obtain ⟨haddr, hlen⟩ := h.queue.look hr
    obtain ⟨-, hintact, -, -⟩ := h.queue.head hr
    unfold hdrAtConsumer at hclear
    rw [haddr, hlen] at hclear
    have hstage := hpast hpending r hr ((lenWord_busy hintact.small).mp hclear)
    right
    cases hc : s.committing s.sys.consumed with
    | idle =>
      rw [hc] at hstage
      exact hstage.elim
    | loaded len flags discard =>
      rw [hc] at hstage
      exact hstage.elim
    | stored flags =>
      rw [hc] at hcommitting
      exact Or.inr ⟨r, flags, hr, hc, h.wakes hr hcommitting.1⟩
    | waking => exact Or.inl hc
    | returned =>
      rw [hc] at hstage
      exact hstage.elim
  case arrives =>
    have hseen := h.seen
    rintro (hwaking | ⟨r, flags, hr, hstored, hwakes⟩)
    · refine ⟨[.wakeUp s.sys.consumed], _, run_cons (step_wakeUp hwaking) rfl, ?_, hasleep,
        Nat.lt_succ_of_le hseen⟩
      intro a ha
      exact Or.inr (List.mem_singleton.mp ha)
    · have hcompare := step_compare (h.queue.head hr).2.1 hr hstored
      rw [hwakes, if_pos rfl] at hcompare
      have hwaking : (s.setCommitting s.sys.consumed .waking).committing s.sys.consumed = .waking :=
        Function.update_self _ _ _
      refine ⟨[.compare s.sys.consumed, .wakeUp s.sys.consumed], _,
        run_cons hcompare (run_cons (step_wakeUp hwaking) rfl), ?_, hasleep,
        Nat.lt_succ_of_le hseen⟩
      intro a ha
      simpa using ha

/-- In every interleaving, a consumer that sleeps although the record at its position is
committed has a wake-up pending, or under way from the commit of that record. -/
theorem no_lost_wakeup (F : KernelAuxiliaryOps) (bytes : Nat → UInt8) (mapMeta : BpfMapMeta)
    (rb : RingBuf) (hnew : new F bytes mapMeta = .ok rb) (s : Threads)
    (hs : Machine.Reachable (· = start rb) Steps s) (hasleep : s.consumer = .asleep) :
    NoLostWakeUp s := by
  obtain ⟨hcons, hprod⟩ := new_positions hnew
  have hinv : Inv s := by
    refine hs.invariant ?_ fun _ _ hinv hstep => hinv.steps hstep
    rintro s₀ rfl
    exact Inv.start hcons hprod
  exact hinv.noLostWakeUp hasleep

theorem reachable_of_run {rb : RingBuf} {s s' : Threads} {as : List Access}
    (hs : Machine.Reachable (· = start rb) Steps s) (h : s.run as = some s') :
    Machine.Reachable (· = start rb) Steps s' := by
  induction as generalizing s with
  | nil =>
    cases h
    exact hs
  | cons a as ih =>
    obtain ⟨s₁, h₁, h₂⟩ := Option.bind_eq_some_iff.mp h
    exact ih (hs.next ⟨a, h₁⟩) h₂

/-- The consumer falls asleep on an empty ring, and a commit gets as far as its store. -/
def oneWait : List Access :=
  [.look, .sleep, .reserve 1, .check, .storeLen, .storePgOff, .publish, .commit 0 .empty false,
    .storeFinal 0]

def Consumer.isAsleep : Consumer → Bool
  | .asleep => true
  | _ => false

theorem no_lost_wakeup_one :
    ∃ rb s, onePageRing = .ok rb ∧ (start rb).run oneWait = some s ∧ s.consumer = .asleep ∧
      ¬ s.seen < s.sys.ring.wakeUps ∧ CommittedAtConsumer s ∧ NoLostWakeUp s := by
  have hrun : (onePageRing.toOption.bind fun rb => (start rb).run oneWait).map (fun s =>
      (Consumer.isAsleep s.consumer, decide (s.seen < s.sys.ring.wakeUps),
        decide (s.sys.ring.consumerPos = s.sys.ring.producerPos),
        s.sys.ring.loadU32 (hdrAtConsumer s.sys.ring) &&& BPF_RINGBUF_BUSY_BIT)) =
      some (true, false, false, 0) := by decide +kernel
  obtain ⟨s, hs, hvalues⟩ := Option.map_eq_some_iff.mp hrun
  obtain ⟨rb, hrb, hsteps⟩ := Option.bind_eq_some_iff.mp hs
  simp only [Prod.mk.injEq, decide_eq_false_iff_not] at hvalues
  obtain ⟨hconsumer, hseen, hpos, hclear⟩ := hvalues
  have hasleep : s.consumer = .asleep := by
    cases hc : s.consumer <;> rw [hc] at hconsumer <;> first | rfl | cases hconsumer
  have hnew := onePageRing_of_toOption hrb
  have hreach := reachable_of_run (.start rfl) hsteps
  exact ⟨rb, s, hnew, hsteps, hasleep, hseen, ⟨hpos, hclear⟩,
    no_lost_wakeup _ _ _ rb hnew s hreach hasleep⟩

end Threads

end ExtKtrace.Bpf.RingBuf
