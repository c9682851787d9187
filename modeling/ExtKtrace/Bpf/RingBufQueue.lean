import ExtKtrace.Bpf.RingBufRuns

/-!
# The part of a ring buffer that is still to be read

The records that an honest consumer has not passed lie end to end from its position to the
producer position, and the first of them is what it finds in memory.
-/

namespace ExtKtrace.Bpf.RingBuf
set_option autoImplicit false

open Tiling

/-- What the consumer is given for a record. -/
def Record.delivered (r : Record) : Option Bytes :=
  if r.fill = .submitted then some r.body else none

def System.unconsumed (s : System) : List Record := s.records.drop s.consumed

/-- The consumer has passed `taken` bytes, and its position says so modulo the word size. -/
structure QueueInv (taken : Nat) (s : System) : Prop where
  guarded : Guarded (taken ≤ ·.pos) s
  consumer : s.ring.consumerPos = .ofNat taken
  room : s.reserved ≤ taken + s.ring.mask.toNat
  consumed : s.consumed ≤ s.records.length
  unconsumed : Tiles taken (s.unconsumed.map Record.span) s.reserved
  finished : ∀ r ∈ s.records.take s.consumed, r.fill ≠ .busy

/-- The flags of a length word tell what became of the record, the rest is the length. -/
theorem lenWord_busy {r : Record} (h : r.size ≤ RINGBUF_MAX_RECORD_SZ.toNat) :
    r.lenWord &&& BPF_RINGBUF_BUSY_BIT = 0 ↔ r.fill ≠ .busy := by
  obtain ⟨hsize, hbusy, -⟩ := len_and_flag h
  have hmax : RINGBUF_MAX_RECORD_SZ.toNat = 0x3FFFFFFF := rfl
  unfold Record.lenWord
  cases r.fill with
  | busy =>
    simp only [Word.uint32_or_and_self]
    decide
  | submitted => simpa using hbusy
  | discarded =>
    have hlt : (r.sample.len.toUInt32 ||| BPF_RINGBUF_DISCARD_BIT).toNat < 2 ^ 31 := by
      rw [UInt32.toNat_or]
      refine Nat.or_lt_two_pow (by omega) ?_
      decide
    simpa using Word.uint32_and_eq_zero hlt (by decide)

theorem lenWord_finished {r : Record} (h : r.size ≤ RINGBUF_MAX_RECORD_SZ.toNat)
    (hfill : r.fill ≠ .busy) :
    r.lenWord &&& ~~~BPF_RINGBUF_DISCARD_BIT = r.sample.len.toUInt32 ∧
      (r.lenWord &&& BPF_RINGBUF_DISCARD_BIT = 0 ↔ r.fill = .submitted) := by
  obtain ⟨-, -, hdiscard⟩ := len_and_flag h
  unfold Record.lenWord
  cases hf : r.fill with
  | busy => exact absurd hf hfill
  | submitted => exact ⟨Word.uint32_and_not_of_and hdiscard, by simpa using hdiscard⟩
  | discarded =>
    refine ⟨Word.uint32_or_and_not hdiscard, ?_⟩
    simp only [Word.uint32_or_and_self]
    decide

theorem toNat_roundUp {size : UInt32} (h : size.toNat ≤ RINGBUF_MAX_RECORD_SZ.toNat) :
    ((size.toUInt64 + 8 + 7) &&& ~~~7).toNat = extent size.toNat := by
  have hmax : RINGBUF_MAX_RECORD_SZ.toNat = 0x3FFFFFFF := rfl
  have h8 : (8 : UInt64).toNat = 8 := rfl
  have h7 : (7 : UInt64).toNat = 7 := rfl
  rw [Word.uint64_and_not_seven, UInt64.toNat_add, UInt64.toNat_add, UInt32.toNat_toUInt64]
  unfold extent
  omega

namespace QueueInv
variable {taken : Nat} {s : System}

theorem taken_le (h : QueueInv taken s) : taken ≤ s.reserved := h.unconsumed.le

theorem unread (h : QueueInv taken s) {j : Nat} {r : Record} (hj : s.consumed ≤ j)
    (hr : s.records[j]? = some r) : taken ≤ r.pos := by
  have hget : s.unconsumed[j - s.consumed]? = some r := by
    unfold System.unconsumed
    rw [List.getElem?_drop, Nat.add_sub_cancel' hj]
    exact hr
  have hmem := List.mem_map_of_mem (f := Record.span) (List.mem_of_getElem? hget)
  exact (h.unconsumed.mem hmem).1

/-- Two positions less than a lap apart differ as words. -/
theorem consumerPos_ne (h : QueueInv taken s) (hlt : taken < s.reserved) :
    s.ring.consumerPos ≠ s.ring.producerPos := by
  have hsize := s.ring.size_le
  have hroom := h.room
  have hmask : s.ring.size = s.ring.mask.toNat + 1 := rfl
  intro heq
  rw [h.consumer, h.guarded.producer] at heq
  have hnat := congrArg UInt64.toNat heq
  rw [UInt64.toNat_ofNat', UInt64.toNat_ofNat'] at hnat
  omega

/-- The space check leaves room for all that was unread when the consumer position was
loaded. -/
theorem room_for {t : Nat} {n : Nat} (ht : t ≤ s.reserved)
    (hroom : s.reserved ≤ t + s.ring.mask.toNat) (hn : n ≤ s.ring.size)
    (hcheck : (UInt64.ofNat (s.reserved + n) - UInt64.ofNat t).toNat < s.ring.size) :
    s.reserved + n ≤ t + s.ring.mask.toNat := by
  have hsize := s.ring.size_le
  have hmask : s.ring.size = s.ring.mask.toNat + 1 := rfl
  have hdiff : (UInt64.ofNat (s.reserved + n) - UInt64.ofNat t).toNat = s.reserved + n - t := by
    rw [UInt64.toNat_sub, UInt64.toNat_ofNat', UInt64.toNat_ofNat']
    omega
  omega

theorem next (h : QueueInv taken s) (hne : s.ring.consumerPos ≠ s.ring.producerPos) :
    ∃ r, s.records[s.consumed]? = some r := by
  have htiles := h.unconsumed
  have hget : s.unconsumed[0]? = s.records[s.consumed]? := by
    unfold System.unconsumed
    rw [List.getElem?_drop, Nat.add_zero]
  cases hun : s.unconsumed with
  | nil =>
    rw [hun] at htiles
    have heq : taken = s.reserved := htiles
    rw [h.consumer, h.guarded.producer, heq] at hne
    exact absurd rfl hne
  | cons r rest =>
    rw [hun] at hget
    exact ⟨r, hget.symm⟩

theorem head (h : QueueInv taken s) {r : Record} (hr : s.records[s.consumed]? = some r) :
    r.pos = taken ∧ Intact s.ring r ∧ s.ring.consumerPos ≠ s.ring.producerPos ∧
      Tiles (r.pos + extent r.size) ((s.records.drop (s.consumed + 1)).map Record.span)
        s.reserved := by
  have hunread := h.unread (Nat.le_refl _) hr
  have htiles := h.unconsumed
  obtain ⟨hlt, rfl⟩ := List.getElem?_eq_some_iff.mp hr
  unfold System.unconsumed at htiles
  rw [List.drop_eq_getElem_cons hlt, List.map_cons, tiles_cons] at htiles
  have hpos : s.records[s.consumed].pos = taken := htiles.1
  have hrest := htiles.2
  rw [← hpos] at hrest
  refine ⟨hpos, h.guarded.intact _ (List.getElem_mem hlt) hunread, h.consumerPos_ne ?_, hrest⟩
  have hle := hrest.le
  have hext := le_extent s.records[s.consumed].size
  simp only [Record.span] at hle
  omega

theorem look (h : QueueInv taken s) {r : Record} (hr : s.records[s.consumed]? = some r) :
    s.ring.dataPos + (s.ring.consumerPos &&& s.ring.mask) = s.ring.addrOf r.pos ∧
      s.ring.loadU32 (s.ring.addrOf r.pos) = r.lenWord := by
  obtain ⟨hpos, hintact, -, -⟩ := h.head hr
  refine ⟨?_, loadU32_of_loadHdr hintact.hasHdr.loadHdr⟩
  rw [h.consumer, hpos, s.ring.and_mask_eq]
  rfl

/-- What a finished record yields: its length, its payload and the position behind it. -/
theorem yields (h : QueueInv taken s) {r : Record} (hr : s.records[s.consumed]? = some r)
    (hfill : r.fill ≠ .busy) :
    r.lenWord &&& ~~~BPF_RINGBUF_DISCARD_BIT = r.sample.len.toUInt32 ∧
      r.sample.len.toUInt32.toNat = r.size ∧
      s.ring.load (s.ring.addrOf r.pos + 8) r.size = r.body ∧
      s.ring.consumerPos + ((r.sample.len.toUInt32.toUInt64 + 8 + 7) &&& ~~~7) =
        .ofNat (r.pos + extent r.size) ∧
      (if r.lenWord &&& BPF_RINGBUF_DISCARD_BIT = 0 then [r.body] else []) =
        r.delivered.toList := by
  obtain ⟨hpos, hintact, -, -⟩ := h.head hr
  obtain ⟨hsize, hsubmitted⟩ := lenWord_finished hintact.small hfill
  have hnat := (len_and_flag hintact.small).1
  have hle := s.ring.le_size
  refine ⟨hsize, hnat, ?_, ?_, ?_⟩
  · exact (s.ring.load_addrOf_add r.pos (j := 8) (by omega) r.size).trans hintact.payload
  · have hround := toNat_roundUp (hnat ▸ hintact.small : r.sample.len.toUInt32.toNat ≤ _)
    rw [h.consumer, ← hpos, UInt64.ofNat_add, ← hnat, ← hround, UInt64.ofNat_toNat]
  · unfold Record.delivered
    by_cases hsub : r.fill = .submitted
    · rw [if_pos (hsubmitted.mpr hsub), if_pos hsub]
      rfl
    · rw [if_neg (fun hzero => hsub (hsubmitted.mp hzero)), if_neg hsub]
      rfl

theorem consume_busy (h : QueueInv taken s) {r : Record}
    (hr : s.records[s.consumed]? = some r) (hfill : r.fill = .busy) : s.consume = s := by
  obtain ⟨-, hintact, hne, -⟩ := h.head hr
  obtain ⟨haddr, hlen⟩ := h.look hr
  have hbusy : s.ring.loadU32 (s.ring.dataPos + (s.ring.consumerPos &&& s.ring.mask)) &&&
      BPF_RINGBUF_BUSY_BIT ≠ 0 := by
    rw [haddr, hlen]
    intro hzero
    exact (lenWord_busy hintact.small).mp hzero hfill
  unfold System.consume
  rw [if_neg hne]
  exact if_pos hbusy

theorem consume_finished (h : QueueInv taken s) {r : Record}
    (hr : s.records[s.consumed]? = some r) (hfill : r.fill ≠ .busy) :
    s.consume = { s with
      ring := s.ring.setConsumerPos (.ofNat (r.pos + extent r.size))
      consumed := s.consumed + 1
      obtained := s.obtained ++ r.delivered.toList } := by
  obtain ⟨-, hintact, hne, -⟩ := h.head hr
  obtain ⟨haddr, hlen⟩ := h.look hr
  obtain ⟨hsize, hnat, hbody, hnext, hgiven⟩ := h.yields hr hfill
  have hbusy := (lenWord_busy hintact.small).mpr hfill
  unfold System.consume
  rw [if_neg hne]
  simp only [haddr, hlen, hbusy, hsize, hnat, hbody, hnext, ne_eq, not_true_eq_false, if_false]
  rw [hgiven]

theorem store (h : QueueInv taken s) {o : Nat} {bytes : Bytes}
    (hroom : s.reserved + (o + bytes.length) ≤ taken + s.ring.size) :
    QueueInv taken { s with
      ring := { s.ring with
        data := Circular.write s.ring.size s.ring.data (s.reserved + o) bytes } } := by
  refine ⟨h.guarded.store ?_, h.consumer, h.room, h.consumed, h.unconsumed, h.finished⟩
  intro r hr hlive
  have hend := h.guarded.end_le hr
  have hle : taken ≤ r.pos := hlive
  exact Circular.apart_of_le (by omega) (by omega)

theorem append (h : QueueInv taken s) {size : UInt64}
    (hhdr : HasHdr s.ring s.reserved
      ⟨size.toUInt32 ||| BPF_RINGBUF_BUSY_BIT, s.ring.pgOffAt s.reserved⟩)
    (hsmall : size.toNat ≤ RINGBUF_MAX_RECORD_SZ.toNat) (hfits : extent size.toNat ≤ s.ring.size)
    (hroom : s.reserved + extent size.toNat ≤ taken + s.ring.mask.toNat) :
    QueueInv taken (s.granted (s.ring.setProducerPos (.ofNat (s.reserved + extent size.toNat)))
      (sampleAt s.ring.toMapping s.reserved size) size) := by
  have haligned := toNat_alignedSize hsmall
  have hmask : s.ring.size = s.ring.mask.toNat + 1 := rfl
  constructor
  case guarded =>
    refine h.guarded.append hhdr hsmall hfits ?_ ?_
    · intro r _ hlive
      have hle : taken ≤ r.pos := hlive
      omega
    · intro r hpos _
      show taken ≤ r.pos
      rw [hpos]
      exact h.taken_le
  case consumer => exact h.consumer
  case room =>
    show s.reserved + (alignedSize size).toNat ≤ _
    rw [haligned]
    exact hroom
  case consumed =>
    show s.consumed ≤ (s.records ++ [_]).length
    have hle := h.consumed
    simp only [List.length_append]
    omega
  case unconsumed =>
    show Tiles _ (((s.records ++ [_]).drop s.consumed).map Record.span) (s.reserved + _)
    rw [List.drop_append_of_le_length h.consumed, List.map_append, haligned]
    exact h.unconsumed.concat
  case finished =>
    intro r hr
    change r ∈ (s.records ++ [_]).take s.consumed at hr
    rw [List.take_append_of_le_length h.consumed] at hr
    exact h.finished r hr

/-- A reservation that ends within one buffer size of everything unread. -/
theorem granted (h : QueueInv taken s) {size : UInt64}
    (hsmall : size.toNat ≤ RINGBUF_MAX_RECORD_SZ.toNat) (hfits : extent size.toNat ≤ s.ring.size)
    (hroom : s.reserved + extent size.toNat ≤ taken + s.ring.mask.toNat) :
    QueueInv taken (s.granted (s.ring.afterReserve s.reserved size)
      (sampleAt s.ring.toMapping s.reserved size) size) := by
  have hext := le_extent size.toNat
  have hmask : s.ring.size = s.ring.mask.toNat + 1 := rfl
  have hfree : s.reserved + (0 + (hdrBytes
      ⟨size.toUInt32 ||| BPF_RINGBUF_BUSY_BIT, s.ring.pgOffAt s.reserved⟩).length) ≤
      taken + s.ring.size := by
    rw [length_hdrBytes]
    omega
  exact (h.store hfree).append (hasHdr_write s.ring s.reserved _) hsmall hfits hroom

theorem consumed_le_busy (h : QueueInv taken s) {i : Nat} {r : Record}
    (hr : s.records[i]? = some r) (hbusy : r.fill = .busy) : s.consumed ≤ i := by
  by_contra hlt
  have hget : (s.records.take s.consumed)[i]? = some r := by
    rw [List.getElem?_take_of_lt (by omega)]
    exact hr
  exact h.finished r (List.mem_of_getElem? hget) hbusy

theorem set (h : QueueInv taken s) {i : Nat} {r r' : Record} {ring : RingBuf}
    (hr : s.records[i]? = some r) (hbusy : r.fill = .busy) (hspan : r'.span = r.span)
    (hcons : ring.consumerPos = s.ring.consumerPos) (hmap : ring.toMapping = s.ring.toMapping)
    (hguarded : Guarded (taken ≤ ·.pos) { s with
      ring := ring, records := s.records.set i r' }) :
    QueueInv taken { s with ring := ring, records := s.records.set i r' } := by
  have hle := h.consumed_le_busy hr hbusy
  constructor
  case guarded => exact hguarded
  case consumer => exact hcons.trans h.consumer
  case room =>
    show s.reserved ≤ taken + ring.mask.toNat
    rw [hmap]
    exact h.room
  case consumed =>
    show s.consumed ≤ (s.records.set i r').length
    rw [List.length_set]
    exact h.consumed
  case unconsumed =>
    show Tiles taken (((s.records.set i r').drop s.consumed).map Record.span) _
    rw [List.map_drop, map_span_set hr hspan, ← List.map_drop]
    exact h.unconsumed
  case finished =>
    show ∀ t ∈ (s.records.set i r').take s.consumed, t.fill ≠ .busy
    rw [List.take_set_of_le hle]
    exact h.finished

/-- The books of the consumer and the count of wake-ups do not matter. -/
theorem setRing (h : QueueInv taken s) (ring : RingBuf)
    (hmap : ring.toMapping = s.ring.toMapping) (hdata : ring.data = s.ring.data)
    (hprod : ring.producerPos = s.ring.producerPos) (hcons : ring.consumerPos = s.ring.consumerPos)
    (obtained : List Bytes) :
    QueueInv taken { s with ring := ring, obtained := obtained } := by
  refine ⟨h.guarded.setRing ring hmap hdata hprod _ _, hcons.trans h.consumer, ?_, h.consumed,
    h.unconsumed, h.finished⟩
  show s.reserved ≤ taken + ring.mask.toNat
  rw [hmap]
  exact h.room

theorem advance (h : QueueInv taken s) {r : Record} (hr : s.records[s.consumed]? = some r)
    (hfill : r.fill ≠ .busy) (obtained : List Bytes) :
    QueueInv (r.pos + extent r.size) { s with
      ring := s.ring.setConsumerPos (.ofNat (r.pos + extent r.size))
      consumed := s.consumed + 1
      obtained := obtained } := by
  obtain ⟨hpos, -, -, hrest⟩ := h.head hr
  have hroom := h.room
  obtain ⟨hlt, hget⟩ := List.getElem?_eq_some_iff.mp hr
  have hfinished : ∀ t ∈ s.records.take (s.consumed + 1), t.fill ≠ .busy := by
    rw [← List.take_append_getElem hlt, hget]
    intro t ht
    rcases List.mem_append.mp ht with hold | hlast
    · exact h.finished t hold
    · rw [List.mem_singleton.mp hlast]
      exact hfill
  refine ⟨?_, rfl, ?_, hlt, hrest, hfinished⟩
  · refine (h.guarded.setConsumer _ _ _).mono ?_ ?_
    · intro t ht
      show taken ≤ t.pos
      omega
    · intro t ht hbusy
      have hmem : t ∈ s.records.take (s.consumed + 1) ++ s.records.drop (s.consumed + 1) := by
        rw [List.take_append_drop]
        exact ht
      rcases List.mem_append.mp hmem with hpast | hahead
      · exact absurd hbusy (hfinished t hpast)
      · exact (hrest.mem (List.mem_map_of_mem hahead)).1
  · show s.reserved ≤ r.pos + extent r.size + s.ring.mask.toNat
    omega

theorem start {rb : RingBuf} (hcons : rb.consumerPos = 0) (hprod : rb.producerPos = 0) :
    QueueInv 0 (System.start rb) := by
  refine ⟨⟨hprod, rfl, ?_, ?_, ?_⟩, hcons, Nat.zero_le _, Nat.le_refl 0, rfl, ?_⟩
  · intro r hr
    cases hr
  · intro r hr
    cases hr
  · intro r hr
    cases hr
  · intro r hr
    cases hr

end QueueInv

theorem new_positions {F : KernelAuxiliaryOps} {bytes : Nat → UInt8} {mapMeta : BpfMapMeta}
    {rb : RingBuf} (h : new F bytes mapMeta = .ok rb) :
    rb.consumerPos = 0 ∧ rb.producerPos = 0 := by
  unfold new at h
  split at h
  · cases h
  split at h
  · cases h
  simp only at h
  split at h
  · cases h
  split at h
  · cases h
  · cases h
    exact ⟨rfl, rfl⟩

def roomyKernel : KernelAuxiliaryOps where
  allocPage i := .ok (.ofNat (4096 * i))
  vmap pages := if pages.length ≤ 4096 then .ok 0x10000 else .error .ENOMEM
  vmap_aligned := by
    intro pages base h
    split at h
    · cases h
      rfl
    · cases h
  vmap_fits := by
    intro pages base h
    split at h
    · cases h
      have hbase : (0x10000 : UInt64).toNat = 0x10000 := rfl
      omega
    · cases h

def onePageRing : Except BpfError RingBuf := new roomyKernel (fun _ => 0) ⟨0, 0, 4096, 0⟩

theorem onePageRing_of_toOption {rb : RingBuf} (h : onePageRing.toOption = some rb) :
    onePageRing = .ok rb := by
  cases hring : onePageRing with
  | error e =>
    rw [hring] at h
    cases h
  | ok rb' =>
    rw [hring] at h
    cases h
    rfl

end ExtKtrace.Bpf.RingBuf
