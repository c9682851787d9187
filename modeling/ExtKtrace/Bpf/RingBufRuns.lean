import ExtKtrace.Bpf.RingBuf
import ExtKtrace.Lib.Machine
import ExtKtrace.Lib.Tiling

/-!
# Runs of a ring buffer

Producers that reserve, fill and finish records, and a consumer that either follows the
protocol or stores any number in its position.
-/

namespace ExtKtrace.Bpf.RingBuf
set_option autoImplicit false

open Tiling

inductive Fill where
  | busy | submitted | discarded
  deriving DecidableEq

/-- A reservation: the slice its producer holds, and for the books the bytes reserved before
it, what its producer has put into it and whether it is finished. -/
structure Record where
  sample : Slice
  pos : Nat
  body : Bytes
  fill : Fill

structure System where
  ring : RingBuf
  records : List Record
  reserved : Nat
  consumed : Nat
  obtained : List Bytes

def System.start (rb : RingBuf) : System := ⟨rb, [], 0, 0, []⟩

inductive Event where
  | reserve (size : UInt64)
  | write (i off : Nat) (bytes : Bytes)
  | commit (i : Nat) (flags : BpfRingbufFlags) (discard : Bool)
  | consume
  | forge (pos : UInt64)

def System.granted (s : System) (ring : RingBuf) (sample : Slice) (size : UInt64) : System :=
  { s with
    ring := ring
    records := s.records ++ [⟨sample, s.reserved, ring.load sample.ptr sample.len.toNat, .busy⟩]
    reserved := s.reserved + (alignedSize size).toNat }

def System.written (s : System) (i : Nat) (r : Record) (off : Nat) (bytes : Bytes) : System :=
  { s with
    ring := s.ring.store (r.sample.ptr + .ofNat off) bytes
    records := s.records.set i { r with body := Circular.splice r.body off bytes } }

def System.committed (s : System) (ring : RingBuf) (i : Nat) (r : Record) (discard : Bool) :
    System :=
  { s with
    ring := ring
    records := s.records.set i { r with fill := if discard then .discarded else .submitted } }

/-- The consumer looks at the record at its position, and takes it when it is finished. -/
def System.consume (s : System) : System :=
  if s.ring.consumerPos = s.ring.producerPos then s
  else
    let hdrPtr := s.ring.dataPos + (s.ring.consumerPos &&& s.ring.mask)
    let len := s.ring.loadU32 hdrPtr
    if len &&& BPF_RINGBUF_BUSY_BIT ≠ 0 then s
    else
      let size := len &&& ~~~BPF_RINGBUF_DISCARD_BIT
      let payload := s.ring.load (hdrPtr + 8) size.toNat
      { s with
        ring := s.ring.setConsumerPos (s.ring.consumerPos + ((size.toUInt64 + 8 + 7) &&& ~~~7))
        consumed := s.consumed + 1
        obtained := s.obtained ++ if len &&& BPF_RINGBUF_DISCARD_BIT = 0 then [payload] else [] }

/-- Producers write inside slices they hold and finish a record once. -/
def Allowed (s : System) : Event → Prop
  | .write i off bytes => ∃ r, s.records[i]? = some r ∧ r.fill = .busy ∧
      off + bytes.length ≤ r.sample.len.toNat
  | .commit i _ _ => ∃ r, s.records[i]? = some r ∧ r.fill = .busy
  | _ => True

/-- One event; `none` when it is not allowed, or the code panics or follows a wild pointer. -/
def step (s : System) : Event → Option System
  | .reserve size =>
    match (RingBuf.reserve size).exec s.ring with
    | none => none
    | some (.error _, ring) => some { s with ring := ring }
    | some (.ok sample, ring) => some (s.granted ring sample size)
  | .write i off bytes =>
    match s.records[i]? with
    | none => none
    | some r =>
      if r.fill = .busy ∧ off + bytes.length ≤ r.sample.len.toNat then
        some (s.written i r off bytes)
      else none
  | .commit i flags discard =>
    match s.records[i]? with
    | none => none
    | some r =>
      if r.fill = .busy then
        match (RingBuf.commit r.sample flags discard).exec s.ring with
        | some (.ok _, ring) => some (s.committed ring i r discard)
        | _ => none
      else none
  | .consume => some s.consume
  | .forge pos => some { s with ring := s.ring.setConsumerPos pos }

/-- Events one after the other. -/
def System.run (s : System) (es : List Event) : Option System := es.foldlM step s

theorem System.run_append (s : System) (es fs : List Event) :
    s.run (es ++ fs) = (s.run es).bind fun s' => s'.run fs :=
  List.foldlM_append

theorem step_of_run_concat {s s' t : System} {es : List Event} {e : Event}
    (h : s.run es = some s') (hrun : s.run (es ++ [e]) = some t) : step s' e = some t := by
  rw [System.run_append, h] at hrun
  exact (bind_pure _).symm.trans hrun

/-- Nothing is ever taken out of the books. -/
theorem step_reserved_le {s s' : System} {e : Event} (h : step s e = some s') :
    s.reserved ≤ s'.reserved := by
  cases e with
  | reserve size =>
    simp only [step] at h
    split at h
    · cases h
    · cases h
      exact Nat.le_refl _
    · cases h
      exact Nat.le_add_right _ _
  | write i off bytes =>
    simp only [step] at h
    split at h
    · cases h
    · split at h
      · cases h
        exact Nat.le_refl _
      · cases h
  | commit i flags discard =>
    simp only [step] at h
    split at h
    · cases h
    · split at h
      · split at h
        · cases h
          exact Nat.le_refl _
        · cases h
      · cases h
  | consume =>
    rw [← Option.some.inj h]
    unfold System.consume
    split
    · exact Nat.le_refl _
    · simp only
      split <;> exact Nat.le_refl _
  | forge pos => rw [← Option.some.inj h]

theorem run_reserved_le {s s' : System} {es : List Event} (h : s.run es = some s') :
    s.reserved ≤ s'.reserved := by
  unfold System.run at h
  induction es generalizing s with
  | nil =>
    cases h
    exact Nat.le_refl _
  | cons e es ih =>
    obtain ⟨s₁, h₁, h₂⟩ := Option.bind_eq_some_iff.mp h
    exact Nat.le_trans (step_reserved_le h₁) (ih h₂)

/-- The length word of a record. -/
def Record.lenWord (r : Record) : UInt32 :=
  match r.fill with
  | .busy => r.sample.len.toUInt32 ||| BPF_RINGBUF_BUSY_BIT
  | .submitted => r.sample.len.toUInt32
  | .discarded => r.sample.len.toUInt32 ||| BPF_RINGBUF_DISCARD_BIT

def Record.size (r : Record) : Nat := r.sample.len.toNat

def Record.span (r : Record) : Nat × Nat := (r.pos, extent r.size)

/-- The bytes of a record, header and payload. -/
def Record.bytes (rb : RingBuf) (r : Record) : Bytes :=
  Circular.read rb.size rb.data r.pos (8 + r.size)

/-- The slice, the header and the payload of a record are as its producer left them. -/
structure Intact (rb : RingBuf) (r : Record) : Prop where
  sample : r.sample = sampleAt rb.toMapping r.pos r.sample.len
  small : r.size ≤ RINGBUF_MAX_RECORD_SZ.toNat
  fits : extent r.size ≤ rb.size
  length : r.body.length = r.size
  bytes : r.bytes rb = hdrBytes ⟨r.lenWord, rb.pgOffAt r.pos⟩ ++ r.body

/-- The records follow each other, and those that are live lie within one buffer size of the
producer position and are intact. -/
structure Guarded (live : Record → Prop) (s : System) : Prop where
  producer : s.ring.producerPos = .ofNat s.reserved
  tiled : Tiles 0 (s.records.map Record.span) s.reserved
  busy : ∀ r ∈ s.records, r.fill = .busy → live r
  window : ∀ r ∈ s.records, live r → s.reserved ≤ r.pos + s.ring.size
  intact : ∀ r ∈ s.records, live r → Intact s.ring r

section
variable {live : Record → Prop} {s s' : System}

theorem Guarded.end_le (h : Guarded live s) {r : Record} (hr : r ∈ s.records) :
    r.pos + extent r.size ≤ s.reserved :=
  (h.tiled.mem (List.mem_map_of_mem hr)).2

theorem Guarded.apart_of_lt (h : Guarded live s) {i j : Nat} {r t : Record} (hij : i < j)
    (hr : s.records[i]? = some r) (ht : s.records[j]? = some t) (hlr : live r) :
    Circular.Apart s.ring.size r.pos (extent r.size) t.pos (extent t.size) := by
  have hwindow := h.window r (List.mem_of_getElem? hr) hlr
  have hend := h.end_le (List.mem_of_getElem? ht)
  have hpair := List.pairwise_iff_getElem.mp h.tiled.pairwise
  obtain ⟨hi, rfl⟩ := List.getElem?_eq_some_iff.mp hr
  obtain ⟨hj, rfl⟩ := List.getElem?_eq_some_iff.mp ht
  have hle := hpair i j (by simpa using hi) (by simpa using hj) hij
  simp only [List.getElem_map, Record.span] at hle
  exact Circular.apart_of_le hle (by omega)

/-- Two live records touch no common byte. -/
theorem Guarded.apart (h : Guarded live s) {i j : Nat} {r t : Record} (hij : i ≠ j)
    (hr : s.records[i]? = some r) (ht : s.records[j]? = some t) (hlr : live r) (hlt : live t) :
    Circular.Apart s.ring.size r.pos (extent r.size) t.pos (extent t.size) := by
  rcases Nat.lt_or_gt_of_ne hij with hlt' | hgt
  · exact h.apart_of_lt hlt' hr ht hlr
  · exact (h.apart_of_lt hgt ht hr hlt).symm

/-- A busy record is whole, so its slice is where it was reserved. -/
theorem Guarded.busy_intact (h : Guarded live s) {i : Nat} {r : Record}
    (hr : s.records[i]? = some r) (hbusy : r.fill = .busy) : live r ∧ Intact s.ring r := by
  have hmem := List.mem_of_getElem? hr
  have hlive := h.busy r hmem hbusy
  exact ⟨hlive, h.intact r hmem hlive⟩

theorem Intact.hasHdr {rb : RingBuf} {r : Record} (h : Intact rb r) :
    HasHdr rb r.pos ⟨r.lenWord, rb.pgOffAt r.pos⟩ := by
  have hbytes := h.bytes
  unfold Record.bytes at hbytes
  rw [Circular.read_append] at hbytes
  exact (List.append_inj hbytes (by simp)).1

/-- The header of a record stands right in front of its sample. -/
theorem Intact.hdrPtr {rb : RingBuf} {r : Record} (h : Intact rb r) :
    r.sample.ptr - BPF_RINGBUF_HDR_SZ = rb.addrOf r.pos := by
  rw [h.sample]
  exact UInt64.add_sub_cancel _ _

theorem Intact.payload {rb : RingBuf} {r : Record} (h : Intact rb r) :
    Circular.read rb.size rb.data (r.pos + 8) r.size = r.body := by
  have hbytes := h.bytes
  unfold Record.bytes at hbytes
  rw [Circular.read_append] at hbytes
  exact (List.append_inj hbytes (by simp)).2

/-- Bytes stored away from a record are not its bytes. -/
theorem Record.bytes_frame {rb rb' : RingBuf} {r : Record} {q : Nat} {bytes : Bytes}
    (hmap : rb'.toMapping = rb.toMapping)
    (hdata : rb'.data = Circular.write rb.size rb.data q bytes)
    (hapart : Circular.Apart rb.size r.pos (extent r.size) q bytes.length) :
    r.bytes rb' = r.bytes rb := by
  have hspan := le_extent r.size
  unfold Record.bytes
  rw [hmap, hdata]
  exact Circular.read_write_apart (hapart.sub_left (o := 0) (by omega))

/-- Bytes stored elsewhere leave a record as it is. -/
theorem Intact.frame {rb rb' : RingBuf} {r : Record} {q : Nat} {bytes : Bytes}
    (h : Intact rb r) (hmap : rb'.toMapping = rb.toMapping)
    (hdata : rb'.data = Circular.write rb.size rb.data q bytes)
    (hapart : Circular.Apart rb.size r.pos (extent r.size) q bytes.length) : Intact rb' r := by
  have hsame : r.bytes rb' = r.bytes rb := Record.bytes_frame hmap hdata hapart
  exact ⟨by rw [hmap]; exact h.sample, h.small, by rw [hmap]; exact h.fits, h.length,
    by rw [hsame, hmap]; exact h.bytes⟩

/-- The checks that `reserve` makes. -/
def Passes (s : System) (size : UInt64) : Prop :=
  size.toNat ≤ RINGBUF_MAX_RECORD_SZ.toNat ∧ extent size.toNat ≤ s.ring.size ∧
    (UInt64.ofNat (s.reserved + extent size.toNat) - s.ring.consumerPos).toNat < s.ring.size

/-- What a reservation does to the system: nothing, or one more record at the producer
position. -/
theorem step_reserve (hp : s.ring.producerPos = .ofNat s.reserved) {size : UInt64}
    (h : step s (.reserve size) = some s') :
    s' = s ∨ (Passes s size ∧ s' = s.granted (s.ring.afterReserve s.reserved size)
      (sampleAt s.ring.toMapping s.reserved size) size) := by
  simp only [step, exec_reserve hp] at h
  by_cases hbig : RINGBUF_MAX_RECORD_SZ.toNat < size.toNat
  · rw [if_pos hbig] at h
    exact Or.inl (Option.some.inj h).symm
  rw [if_neg hbig] at h
  by_cases hlarge : s.ring.size < extent size.toNat
  · rw [if_pos hlarge] at h
    exact Or.inl (Option.some.inj h).symm
  rw [if_neg hlarge] at h
  by_cases hfull : s.ring.size ≤
      (UInt64.ofNat (s.reserved + extent size.toNat) - s.ring.consumerPos).toNat
  · rw [if_pos hfull] at h
    exact Or.inl (Option.some.inj h).symm
  rw [if_neg hfull] at h
  exact Or.inr ⟨⟨Nat.le_of_not_lt hbig, Nat.le_of_not_lt hlarge, Nat.lt_of_not_le hfull⟩,
    (Option.some.inj h).symm⟩

theorem step_reserve_of_passes (hp : s.ring.producerPos = .ofNat s.reserved) {size : UInt64}
    (h : Passes s size) :
    step s (.reserve size) = some (s.granted (s.ring.afterReserve s.reserved size)
      (sampleAt s.ring.toMapping s.reserved size) size) := by
  obtain ⟨hsmall, hfits, hcheck⟩ := h
  simp only [step, exec_reserve hp]
  rw [if_neg (Nat.not_lt.mpr hsmall), if_neg (Nat.not_lt.mpr hfits), if_neg (Nat.not_le.mpr hcheck)]

theorem Guarded.step_write (hs : Guarded live s) {i off : Nat} {bytes : Bytes}
    (h : step s (.write i off bytes) = some s') :
    ∃ r, s.records[i]? = some r ∧ r.fill = .busy ∧ off + bytes.length ≤ r.size ∧
      s' = { s with
        ring := { s.ring with
          data := Circular.write s.ring.size s.ring.data (r.pos + (8 + off)) bytes }
        records := s.records.set i { r with body := Circular.splice r.body off bytes } } := by
  cases hr : s.records[i]? with
  | none =>
    simp only [step, hr] at h
    cases h
  | some r =>
    simp only [step, hr] at h
    split at h
    · rename_i hallowed
      refine ⟨r, rfl, hallowed.1, hallowed.2, ?_⟩
      obtain ⟨-, hintact⟩ := hs.busy_intact hr hallowed.1
      have hfits : 8 + off ≤ s.ring.size := by
        have hin := hallowed.2
        have hext := hintact.fits
        have hle := le_extent r.size
        simp only [Record.size] at *
        omega
      have hptr : r.sample.ptr + .ofNat off = s.ring.addrOf r.pos + .ofNat (8 + off) := by
        rw [hintact.sample, UInt64.ofNat_add, ← UInt64.add_assoc]
        rfl
      have hstore := s.ring.store_addrOf_add r.pos hfits bytes
      rw [← Option.some.inj h]
      unfold System.written
      rw [hptr, hstore]
    · cases h

theorem Guarded.step_commit (hs : Guarded live s) {i : Nat} {flags : BpfRingbufFlags}
    {discard : Bool} (h : step s (.commit i flags discard) = some s') :
    ∃ r, s.records[i]? = some r ∧ r.fill = .busy ∧
      s' = s.committed (s.ring.afterCommit r.pos r.lenWord flags discard) i r discard := by
  cases hr : s.records[i]? with
  | none =>
    simp only [step, hr] at h
    cases h
  | some r =>
    simp only [step, hr] at h
    split at h
    · rename_i hbusy
      refine ⟨r, rfl, hbusy, ?_⟩
      obtain ⟨-, hintact⟩ := hs.busy_intact hr hbusy
      rw [hintact.sample, exec_commit hintact.hasHdr] at h
      exact (Option.some.inj h).symm
    · cases h

theorem mem_set_cases {l : List Record} {i : Nat} {r x : Record} (h : x ∈ l.set i r) :
    x = r ∨ ∃ j, i ≠ j ∧ l[j]? = some x := by
  obtain ⟨j, hj⟩ := List.mem_iff_getElem?.mp h
  rw [List.getElem?_set] at hj
  split at hj
  · split at hj
    · exact Or.inl (Option.some.inj hj).symm
    · cases hj
  · rename_i hne
    exact Or.inr ⟨j, hne, hj⟩

theorem map_span_set {l : List Record} {i : Nat} {r r' : Record} (hr : l[i]? = some r)
    (hspan : r'.span = r.span) : (l.set i r').map Record.span = l.map Record.span := by
  obtain ⟨hlt, -⟩ := List.getElem?_eq_some_iff.mp hr
  apply List.ext_getElem?
  intro j
  rw [List.getElem?_map, List.getElem?_map, List.getElem?_set]
  split
  · rename_i heq
    subst heq
    rw [hr, Option.map_some, Option.map_some, hspan]
  · rfl

/-- A record whose header stands at the producer position, once that has moved past it. -/
theorem Intact.admitted {rb : RingBuf} {p : Nat} {size : UInt64}
    (hhdr : HasHdr rb p ⟨size.toUInt32 ||| BPF_RINGBUF_BUSY_BIT, rb.pgOffAt p⟩)
    (hsmall : size.toNat ≤ RINGBUF_MAX_RECORD_SZ.toNat) (hfits : extent size.toNat ≤ rb.size) :
    Intact rb ⟨sampleAt rb.toMapping p size, p,
      rb.load (sampleAt rb.toMapping p size).ptr size.toNat, .busy⟩ := by
  have hle := rb.le_size
  have hbody : rb.load (sampleAt rb.toMapping p size).ptr size.toNat =
      Circular.read rb.size rb.data (p + 8) size.toNat :=
    load_addrOf_add rb p (j := 8) (by omega) size.toNat
  refine ⟨rfl, hsmall, hfits, ?_, ?_⟩
  · simp only [hbody, Circular.length_read]
    rfl
  · unfold Record.bytes
    simp only [hbody]
    refine (Circular.read_append _ p 8 size.toNat).trans ?_
    exact congrArg (· ++ _) hhdr

/-- Bytes stored away from every live record. -/
theorem Guarded.store (hs : Guarded live s) {q : Nat} {bytes : Bytes}
    (hapart : ∀ r ∈ s.records, live r →
      Circular.Apart s.ring.size r.pos (extent r.size) q bytes.length) :
    Guarded live { s with
      ring := { s.ring with data := Circular.write s.ring.size s.ring.data q bytes } } := by
  refine ⟨hs.producer, hs.tiled, hs.busy, hs.window, ?_⟩
  intro r hr hlive
  exact (hs.intact r hr hlive).frame rfl rfl (hapart r hr hlive)

/-- The producer position moves past a new record that ends within one buffer size of every
live one. -/
theorem Guarded.append (hs : Guarded live s) {size : UInt64}
    (hhdr : HasHdr s.ring s.reserved
      ⟨size.toUInt32 ||| BPF_RINGBUF_BUSY_BIT, s.ring.pgOffAt s.reserved⟩)
    (hsmall : size.toNat ≤ RINGBUF_MAX_RECORD_SZ.toNat) (hfits : extent size.toNat ≤ s.ring.size)
    (hroom : ∀ r ∈ s.records, live r → s.reserved + extent size.toNat ≤ r.pos + s.ring.size)
    (hnew : ∀ r : Record, r.pos = s.reserved → r.fill = .busy → live r) :
    Guarded live (s.granted (s.ring.setProducerPos (.ofNat (s.reserved + extent size.toNat)))
      (sampleAt s.ring.toMapping s.reserved size) size) := by
  have haligned := toNat_alignedSize hsmall
  constructor
  case producer =>
    show UInt64.ofNat (s.reserved + extent size.toNat) = .ofNat (s.reserved + _)
    rw [haligned]
  case tiled =>
    show Tiles 0 ((s.records ++ [_]).map Record.span) (s.reserved + (alignedSize size).toNat)
    rw [List.map_append, haligned]
    exact hs.tiled.concat
  case busy =>
    intro r hr hbusy
    rcases List.mem_append.mp hr with hold | hlast
    · exact hs.busy r hold hbusy
    · rw [List.mem_singleton.mp hlast]
      exact hnew _ rfl rfl
  case window =>
    intro r hr hlive
    show s.reserved + (alignedSize size).toNat ≤ r.pos + s.ring.size
    rw [haligned]
    rcases List.mem_append.mp hr with hold | hlast
    · exact hroom r hold hlive
    · rw [List.mem_singleton.mp hlast]
      exact Nat.add_le_add_left hfits _
  case intact =>
    intro r hr hlive
    rcases List.mem_append.mp hr with hold | hlast
    · have hintact := hs.intact r hold hlive
      exact ⟨hintact.sample, hintact.small, hintact.fits, hintact.length, hintact.bytes⟩
    · rw [List.mem_singleton.mp hlast]
      exact Intact.admitted hhdr hsmall hfits

/-- A reservation that ends within one buffer size of every live record keeps them all. -/
theorem Guarded.granted (hs : Guarded live s) {size : UInt64}
    (hsmall : size.toNat ≤ RINGBUF_MAX_RECORD_SZ.toNat) (hfits : extent size.toNat ≤ s.ring.size)
    (hroom : ∀ r ∈ s.records, live r → s.reserved + extent size.toNat ≤ r.pos + s.ring.size)
    (hnew : ∀ r : Record, r.pos = s.reserved → r.fill = .busy → live r) :
    Guarded live (s.granted (s.ring.afterReserve s.reserved size)
      (sampleAt s.ring.toMapping s.reserved size) size) := by
  have hext := le_extent size.toNat
  have hle := s.ring.le_size
  have hapart : ∀ r ∈ s.records, live r → Circular.Apart s.ring.size r.pos (extent r.size)
      s.reserved (hdrBytes
        ⟨size.toUInt32 ||| BPF_RINGBUF_BUSY_BIT, s.ring.pgOffAt s.reserved⟩).length := by
    intro r hr hlive
    have hend := hs.end_le hr
    have hwithin := hroom r hr hlive
    rw [length_hdrBytes]
    exact Circular.apart_of_le hend (by omega)
  exact (hs.store hapart).append (hasHdr_write s.ring s.reserved _) hsmall hfits hroom hnew

/-- Another record over the same span leaves the tiling as it is. -/
theorem Guarded.tiled_set (hs : Guarded live s) {i : Nat} {r r' : Record}
    (hr : s.records[i]? = some r) (hspan : r'.span = r.span) :
    Tiles 0 ((s.records.set i r').map Record.span) s.reserved := by
  rw [map_span_set hr hspan]
  exact hs.tiled

theorem Guarded.window_set (hs : Guarded live s) {i : Nat} {r r' : Record}
    (hr : s.records[i]? = some r) (hlive : live r) (hpos : r'.pos = r.pos) :
    ∀ t ∈ s.records.set i r', live t → s.reserved ≤ t.pos + s.ring.size := by
  intro t ht hlivet
  rcases mem_set_cases ht with rfl | ⟨j, hne, hj⟩
  · rw [hpos]
    exact hs.window r (List.mem_of_getElem? hr) hlive
  · exact hs.window t (List.mem_of_getElem? hj) hlivet

theorem Guarded.write (hs : Guarded live s) {i off : Nat} {bytes : Bytes}
    (hlive : ∀ (r : Record) (b : Bytes), live { r with body := b } ↔ live r)
    (h : step s (.write i off bytes) = some s') : Guarded live s' := by
  obtain ⟨r, hr, hbusy, hin, rfl⟩ := hs.step_write h
  obtain ⟨hliver, hintact⟩ := hs.busy_intact hr hbusy
  have hlen := hintact.length
  constructor
  case producer => exact hs.producer
  case tiled => exact hs.tiled_set hr rfl
  case busy =>
    intro t ht hbusyt
    rcases mem_set_cases ht with rfl | ⟨j, hne, hj⟩
    · exact (hlive r _).mpr hliver
    · exact hs.busy t (List.mem_of_getElem? hj) hbusyt
  case window => exact hs.window_set hr hliver rfl
  case intact =>
    intro t ht hlivet
    rcases mem_set_cases ht with rfl | ⟨j, hne, hj⟩
    · refine ⟨hintact.sample, hintact.small, hintact.fits, ?_, ?_⟩
      · exact (Circular.length_splice (by omega)).trans hlen
      · have hext := le_extent r.size
        have hfits := hintact.fits
        have hbytes := hintact.bytes
        unfold Record.bytes at hbytes ⊢
        refine (Circular.read_write_inside (N := s.ring.size) (n := 8 + r.size)
          (by omega) (by omega)).trans ?_
        rw [hbytes]
        exact Circular.splice_append _ _ _ _
    · have hapart := hs.apart hne.symm hj hr hlivet hliver
      refine (hs.intact t (List.mem_of_getElem? hj) hlivet).frame rfl rfl ?_
      have hspan := le_extent r.size
      exact hapart.sub_right (by omega)

/-- A length as small as `reserve` allows leaves the two flag bits free. -/
theorem len_and_flag {r : Record} (h : r.size ≤ RINGBUF_MAX_RECORD_SZ.toNat) :
    r.sample.len.toUInt32.toNat = r.size ∧
      r.sample.len.toUInt32 &&& BPF_RINGBUF_BUSY_BIT = 0 ∧
      r.sample.len.toUInt32 &&& BPF_RINGBUF_DISCARD_BIT = 0 := by
  have hmax : RINGBUF_MAX_RECORD_SZ.toNat = 0x3FFFFFFF := rfl
  have hsize : r.sample.len.toUInt32.toNat = r.size := by
    rw [UInt64.toNat_toUInt32]
    exact Nat.mod_eq_of_lt (by simp only [Record.size] at h; omega)
  have hlt : r.sample.len.toUInt32.toNat < 2 ^ 30 := by omega
  exact ⟨hsize, Word.uint32_and_eq_zero hlt (by decide), Word.uint32_and_eq_zero hlt (by decide)⟩

theorem finishedLen_busy {r : Record} (h : r.size ≤ RINGBUF_MAX_RECORD_SZ.toNat)
    (hbusy : r.fill = .busy) (discard : Bool) :
    finishedLen r.lenWord discard =
      { r with fill := if discard then .discarded else .submitted : Record }.lenWord := by
  have hclear := Word.uint32_or_and_not (len_and_flag h).2.1
  unfold finishedLen Record.lenWord
  rw [hbusy]
  cases discard with
  | true => exact congrArg (· ||| BPF_RINGBUF_DISCARD_BIT) hclear
  | false => exact hclear

theorem splice_hdr (hdr : BpfRingBufHdr) (len : UInt32) (body : Bytes) :
    Circular.splice (hdrBytes hdr ++ body) 0 (Endian.toLe 4 len.toNat) =
      hdrBytes ⟨len, hdr.pgOff⟩ ++ body := by
  unfold Circular.splice hdrBytes
  rw [Endian.length_toLe, List.append_assoc, List.drop_append_of_le_length (by simp)]
  simp

theorem Intact.finished {rb ring : RingBuf} {r : Record} {discard : Bool} (h : Intact rb r)
    (hbusy : r.fill = .busy) (hmap : ring.toMapping = rb.toMapping)
    (hdata : ring.data = Circular.write rb.size rb.data r.pos
      (Endian.toLe 4 (finishedLen r.lenWord discard).toNat)) :
    Intact ring { r with fill := if discard then .discarded else .submitted } := by
  have hle := rb.le_size
  have hext := le_extent r.size
  have hfits := h.fits
  have hbytes := h.bytes
  have hsample : r.sample = sampleAt ring.toMapping r.pos r.sample.len := hmap ▸ h.sample
  have hsize : extent r.size ≤ ring.size := hmap ▸ h.fits
  refine ⟨hsample, h.small, hsize, h.length, ?_⟩
  unfold Record.bytes at hbytes ⊢
  rw [hmap, hdata]
  refine (Circular.read_write_inside (N := rb.size) (o := 0) (n := 8 + r.size)
    (by rw [Endian.length_toLe]; omega) (by omega)).trans ?_
  rw [hbytes, splice_hdr, finishedLen_busy h.small hbusy]

/-- The length word of a busy record is stored anew, without the busy bit. -/
theorem Guarded.finish (hs : Guarded live s) {i : Nat} {r : Record} {ring : RingBuf}
    {discard : Bool} (hr : s.records[i]? = some r) (hbusy : r.fill = .busy)
    (hmap : ring.toMapping = s.ring.toMapping) (hprod : ring.producerPos = s.ring.producerPos)
    (hdata : ring.data = Circular.write s.ring.size s.ring.data r.pos
      (Endian.toLe 4 (finishedLen r.lenWord discard).toNat)) :
    Guarded live (s.committed ring i r discard) := by
  obtain ⟨hliver, hintact⟩ := hs.busy_intact hr hbusy
  have hle := s.ring.le_size
  constructor
  case producer => exact hprod.trans hs.producer
  case tiled => exact hs.tiled_set hr rfl
  case busy =>
    intro t ht hbusyt
    rcases mem_set_cases ht with rfl | ⟨j, hne, hj⟩
    · cases discard <;> cases hbusyt
    · exact hs.busy t (List.mem_of_getElem? hj) hbusyt
  case window =>
    intro t ht hlivet
    show s.reserved ≤ t.pos + ring.size
    rw [hmap]
    refine hs.window_set hr hliver ?_ t ht hlivet
    rfl
  case intact =>
    intro t ht hlivet
    rcases mem_set_cases ht with rfl | ⟨j, hne, hj⟩
    · exact hintact.finished hbusy hmap hdata
    · have hapart := hs.apart hne.symm hj hr hlivet hliver
      refine (hs.intact t (List.mem_of_getElem? hj) hlivet).frame hmap hdata ?_
      have hspan := le_extent r.size
      rw [Endian.length_toLe]
      exact hapart.sub_right (o := 0) (by omega)

theorem Guarded.commit (hs : Guarded live s) {i : Nat} {flags : BpfRingbufFlags} {discard : Bool}
    (h : step s (.commit i flags discard) = some s') : Guarded live s' := by
  obtain ⟨r, hr, hbusy, rfl⟩ := hs.step_commit h
  exact hs.finish hr hbusy rfl rfl rfl

/-- The consumer position and the waker are no matter of the producers. -/
theorem Guarded.setRing (hs : Guarded live s) (ring : RingBuf)
    (hmap : ring.toMapping = s.ring.toMapping) (hdata : ring.data = s.ring.data)
    (hprod : ring.producerPos = s.ring.producerPos) (consumed : Nat) (obtained : List Bytes) :
    Guarded live { s with ring := ring, consumed := consumed, obtained := obtained } := by
  refine ⟨hprod.trans hs.producer, hs.tiled, hs.busy, ?_, ?_⟩
  · intro r hr hlive
    show s.reserved ≤ r.pos + ring.size
    rw [hmap]
    exact hs.window r hr hlive
  · intro r hr hlive
    have hintact := hs.intact r hr hlive
    have hbytes : r.bytes ring = r.bytes s.ring := by
      unfold Record.bytes
      rw [hmap, hdata]
    refine ⟨?_, hintact.small, ?_, hintact.length, ?_⟩
    · rw [hmap]
      exact hintact.sample
    · rw [hmap]
      exact hintact.fits
    · rw [hbytes, hmap]
      exact hintact.bytes

theorem Guarded.setConsumer (hs : Guarded live s) (pos : UInt64) (consumed : Nat)
    (obtained : List Bytes) :
    Guarded live { s with
      ring := s.ring.setConsumerPos pos, consumed := consumed, obtained := obtained } :=
  hs.setRing (s.ring.setConsumerPos pos) rfl rfl rfl consumed obtained

theorem Guarded.mono {live' : Record → Prop} (hs : Guarded live s)
    (hlive : ∀ r, live' r → live r) (hbusy : ∀ r ∈ s.records, r.fill = .busy → live' r) :
    Guarded live' s :=
  ⟨hs.producer, hs.tiled, hbusy, fun r hr hl => hs.window r hr (hlive r hl),
    fun r hr hl => hs.intact r hr (hlive r hl)⟩

/-- Every event that producers may cause is carried out: no panic, no wild pointer. -/
theorem Guarded.step_isSome (hs : Guarded live s) {e : Event} (h : Allowed s e) :
    (step s e).isSome := by
  cases e with
  | reserve size =>
    simp only [step, exec_reserve hs.producer]
    split <;> rename_i heq
    · cases heq
    · rfl
    · rfl
  | write i off bytes =>
    obtain ⟨r, hr, hbusy, hin⟩ := h
    simp only [step, hr, hbusy, hin, and_self, if_true, Option.isSome_some]
  | commit i flags discard =>
    obtain ⟨r, hr, hbusy⟩ := h
    obtain ⟨-, hintact⟩ := hs.busy_intact hr hbusy
    have hexec := exec_commit hintact.hasHdr r.sample.len flags discard
    rw [← hintact.sample] at hexec
    simp only [step, hr, hbusy, if_true, hexec, Option.isSome_some]
  | consume => rfl
  | forge pos => rfl

/-- The record an event is about. -/
def Event.target : Event → Option Nat
  | .write i _ _ => some i
  | .commit i _ _ => some i
  | _ => none

/-- An event changes no byte of a live record it is not about. -/
theorem Guarded.frame (hs : Guarded live s) {e : Event} (h : step s e = some s')
    (hroom : ∀ size, e = .reserve size → s' ≠ s →
      ∀ r ∈ s.records, live r → s.reserved + extent size.toNat ≤ r.pos + s.ring.size)
    {j : Nat} {t : Record} (ht : s.records[j]? = some t) (hlive : live t)
    (htarget : e.target ≠ some j) : t.bytes s'.ring = t.bytes s.ring := by
  have hmem := List.mem_of_getElem? ht
  cases e with
  | reserve size =>
    by_cases hsame : s' = s
    · rw [hsame]
    rcases step_reserve hs.producer h with rfl | ⟨-, rfl⟩
    · exact absurd rfl hsame
    have hend := hs.end_le hmem
    have hwithin := hroom size rfl hsame t hmem hlive
    have hext := le_extent size.toNat
    refine Record.bytes_frame rfl rfl (Circular.apart_of_le hend ?_)
    rw [length_hdrBytes]
    omega
  | write i off bytes =>
    obtain ⟨r, hr, hbusy, hin, rfl⟩ := hs.step_write h
    have hne : j ≠ i := fun heq => htarget (congrArg some heq.symm)
    have hapart := hs.apart hne ht hr hlive (hs.busy_intact hr hbusy).1
    have hext := le_extent r.size
    exact Record.bytes_frame rfl rfl (hapart.sub_right (by omega))
  | commit i flags discard =>
    obtain ⟨r, hr, hbusy, rfl⟩ := hs.step_commit h
    have hne : j ≠ i := fun heq => htarget (congrArg some heq.symm)
    have hapart := hs.apart hne ht hr hlive (hs.busy_intact hr hbusy).1
    have hext := le_extent r.size
    refine Record.bytes_frame rfl rfl (hapart.sub_right (o := 0) ?_)
    rw [Endian.length_toLe]
    omega
  | consume =>
    rw [← Option.some.inj h]
    unfold System.consume
    split
    · rfl
    · simp only
      split <;> rfl
  | forge pos =>
    rw [← Option.some.inj h]
    rfl

end

end ExtKtrace.Bpf.RingBuf
