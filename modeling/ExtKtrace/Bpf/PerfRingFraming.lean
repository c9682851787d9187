import ExtKtrace.Bpf.PerfRing
import ExtKtrace.Lib.Machine
import ExtKtrace.Lib.Tiling

/-!
# Framing of the perf event ring

What the ring is for: a bounded queue of records with a counter of the events that found no
room. The page holds such a queue as long as the positions stay below `2 ^ 64`.
-/

namespace ExtKtrace.Bpf.Perf
set_option autoImplicit false

open Tiling

/-- A record not yet read, and where it starts. -/
structure Entry where
  pos : Nat
  record : PerfRecord

def Entry.span (region : Nat) (e : Entry) : Nat × Nat := (e.pos, e.record.advance region e.pos)

structure Queue where
  tail : Nat
  head : Nat
  unread : List Entry
  lost : UInt64

namespace Queue

def empty : Queue := ⟨0, 0, [], 0⟩

/-- Whether `n` more bytes fit. -/
def room (region : Nat) (q : Queue) (n : Nat) : Bool := q.head - q.tail + n ≤ region

def push (region : Nat) (q : Queue) (r : PerfRecord) : Queue :=
  { q with
    head := q.head + r.advance region q.head
    unread := q.unread ++ [⟨q.head, r⟩] }

/-- Losses are reported as soon as the report fits. -/
def report (region : Nat) (q : Queue) : Queue :=
  if 0 < q.lost && q.room region 24 then { q.push region (.lost q.lost) with lost := 0 } else q

/-- An event is queued or counted as lost. -/
def offer (region : Nat) (q : Queue) (data : Bytes) : Queue :=
  if q.room region (12 + data.length) then q.push region (.sample data)
  else { q with lost := q.lost + 1 }

def write (region : Nat) (q : Queue) (data : Bytes) : Queue := (q.report region).offer region data

def read (region : Nat) (q : Queue) : Queue :=
  match q.unread with
  | [] => q
  | e :: rest => { q with tail := e.pos + e.record.advance region e.pos, unread := rest }

end Queue

/-- The payloads the program passes. -/
def PerfRecord.Valid : PerfRecord → Prop
  | .sample payload => 0 < payload.length ∧ payload.length ≤ 65516
  | .lost _ => True

/-- An unread record lies in the region as it was written. -/
structure Stored (page : RingPage) (e : Entry) : Prop where
  fits : HeaderFits page.region e.pos
  valid : e.record.Valid
  bytes : Circular.read page.region page.data e.pos e.record.size =
    e.record.bytes page.region e.pos

/-- The page holds the queue. -/
structure Framed (page : RingPage) (q : Queue) : Prop where
  tail : page.dataTail = .ofNat q.tail
  head : page.dataHead = .ofNat q.head
  lost : page.lost = q.lost
  round : Rounds page.region q.head
  bounded : q.head ≤ q.tail + page.region
  tiled : Tiles q.tail (q.unread.map (Entry.span page.region)) q.head
  tailFits : HeaderFits page.region q.tail
  headFits : HeaderFits page.region q.head
  stored : ∀ e ∈ q.unread, Stored page e

section
variable {page : RingPage} {q : Queue}

theorem Framed.ordered (h : Framed page q) : q.tail ≤ q.head := h.tiled.le

theorem PerfRecord.size_le_advance (region p : Nat) (r : PerfRecord) :
    r.size ≤ r.advance region p := Nat.le_add_right _ _

theorem PerfRecord.eight_le_size (r : PerfRecord) : 8 ≤ r.size := by
  cases r with
  | sample payload =>
    show 8 ≤ 12 + payload.length
    omega
  | lost count =>
    show 8 ≤ 24
    omega

/-- The free space, computed with arithmetic that wraps, is what the queue says. -/
theorem Framed.canWrite (h : Framed page q) {n : UInt64} :
    page.canWrite n page.dataTail page.dataHead = q.room page.region n.toNat := by
  have hord := h.ordered
  have hbound := h.bounded
  rw [h.tail, h.head, page.canWrite_ofNat hord hbound, Queue.room]
  exact decide_eq_decide.mpr (by omega)

/-- The end of a record read back from the queue is at most the head. -/
theorem Framed.end_le (h : Framed page q) {e : Entry} (he : e ∈ q.unread) :
    q.tail ≤ e.pos ∧ e.pos + e.record.advance page.region e.pos ≤ q.head :=
  h.tiled.mem (List.mem_map_of_mem he)

theorem Stored.frame {page' : RingPage} {e : Entry} (h : Stored page e)
    (hregion : page'.toRegion = page.toRegion)
    (hbytes : Circular.read page.region page'.data e.pos e.record.size =
      Circular.read page.region page.data e.pos e.record.size) : Stored page' e := by
  have hsame : page'.region = page.region := by
    unfold RingPage.region
    rw [hregion]
  exact ⟨by rw [hsame]; exact h.fits, h.valid, by rw [hsame, hbytes]; exact h.bytes⟩

/-- A record stored at the head, filler included, touches nothing unread. -/
theorem Framed.apart (h : Framed page q) {n : Nat} (hroom : q.room page.region n) :
    Circular.Apart page.region q.tail (q.head - q.tail) q.head n := by
  have hord := h.ordered
  have hfree : q.head - q.tail + n ≤ page.region := of_decide_eq_true hroom
  exact Circular.apart_of_le (by omega) (by omega)

theorem Framed.push (h : Framed page q) {r : PerfRecord} (hvalid : r.Valid)
    (hroom : q.room page.region r.size) (hround : Rounds page.region (q.push page.region r).head) :
    Framed ((page.appended q.head r).setDataHead (.ofNat (q.push page.region r).head))
      (q.push page.region r) := by
  have hord := h.ordered
  have hpos := page.region_pos
  have hfree : q.head - q.tail + r.size ≤ page.region := of_decide_eq_true hroom
  have hlength := r.length_bytes page.region q.head
  constructor
  case tail => exact h.tail
  case head => rfl
  case lost => exact h.lost
  case round => exact hround
  case bounded =>
    have hfits := fill_room (by omega) h.tailFits (e := q.head + r.size) (by omega)
    show q.head + r.advance page.region q.head ≤ q.tail + page.region
    unfold PerfRecord.advance
    omega
  case tiled =>
    show Tiles q.tail ((q.unread ++ [_]).map (Entry.span page.region)) _
    rw [List.map_append]
    exact h.tiled.concat
  case tailFits => exact h.tailFits
  case headFits =>
    have hfits := headerFits_fill (by omega : 8 ≤ page.region) (q.head + r.size)
    rw [Nat.add_assoc] at hfits
    exact hfits
  case stored =>
    intro e he
    rcases List.mem_append.mp he with hold | hlast
    · obtain ⟨hstart, hend⟩ := h.end_le hold
      have hsize := e.record.size_le_advance page.region e.pos
      refine (h.stored e hold).frame rfl (Circular.read_write_apart ?_)
      exact Circular.apart_of_le (by omega) (by omega)
    · rw [List.mem_singleton.mp hlast]
      refine ⟨h.headFits, hvalid, ?_⟩
      have hread : Circular.read page.region (page.appended q.head r).data q.head
          (r.bytes page.region q.head).length = r.bytes page.region q.head :=
        Circular.read_write (by omega)
      rw [hlength] at hread
      exact hread

theorem Queue.head_le_push (region : Nat) (q : Queue) (r : PerfRecord) :
    q.head + r.size ≤ (q.push region r).head :=
  Nat.add_le_add_left (r.size_le_advance region q.head) q.head

theorem Queue.room_mono {region n m : Nat} (hnm : m ≤ n) (h : q.room region n) :
    q.room region m := by
  have hle : q.head - q.tail + n ≤ region := of_decide_eq_true h
  exact decide_eq_true (by omega)

/-- What a call of `write_event` leaves behind: a page that holds the queue, with the bytes
not yet read as they were. -/
structure Writes (page page' : RingPage) (q q' : Queue) : Prop where
  region : page'.toRegion = page.toRegion
  framed : Framed page' q'
  unread : Circular.read page.region page'.data q.tail (q.head - q.tail) =
    Circular.read page.region page.data q.tail (q.head - q.tail)

theorem Framed.writes_push (h : Framed page q) {r : PerfRecord} (hvalid : r.Valid)
    (hroom : q.room page.region r.size) (hround : Rounds page.region (q.push page.region r).head) :
    Writes page ((page.appended q.head r).setDataHead (.ofNat (q.push page.region r).head))
      q (q.push page.region r) := by
  refine ⟨rfl, h.push hvalid hroom hround, Circular.read_write_apart ?_⟩
  rw [r.length_bytes page.region q.head]
  exact h.apart hroom

/-- The losses counter is no part of the framing. -/
theorem Framed.setLost (h : Framed page q) (lost : UInt64) :
    Framed (page.setLost lost) { q with lost := lost } := by
  refine ⟨h.tail, h.head, rfl, h.round, h.bounded, h.tiled, h.tailFits, h.headFits, ?_⟩
  intro e he
  have hstored := h.stored e he
  exact ⟨hstored.fits, hstored.valid, hstored.bytes⟩

theorem toNat_calculateSize {data : Bytes} (h : 12 + data.length < 2 ^ 64) :
    (RingPage.calculateSize (.ofNat data.length)).toNat = 12 + data.length := by
  have h12 : sizeOfSampleHeader.toNat = 12 := rfl
  unfold RingPage.calculateSize
  rw [UInt64.toNat_add, UInt64.toNat_ofNat', h12]
  omega

theorem Framed.skips_report (h : Framed page q)
    (hreport : (0 < q.lost && q.room page.region 24) = false) :
    (page.lost > 0 && page.canWrite sizeOfLostSamples page.dataTail page.dataHead) = false := by
  rw [h.canWrite, h.lost]
  exact hreport

/-- With no loss to report and room for the event, a sample is stored at the head. -/
theorem Framed.exec_sample (h : Framed page q) {data : Bytes} (hne : 0 < data.length)
    (hreport : (0 < q.lost && q.room page.region 24) = false)
    (hroom : q.room page.region (12 + data.length))
    (hend : Rounds page.region (q.head + (12 + data.length))) (depth : Nat) :
    (RingPage.writeEventDepth (depth + 1) data).exec page = some (.ok (),
      (page.appended q.head (.sample data)).setDataHead
        (.ofNat (q.push page.region (.sample data)).head)) := by
  have hlt := page.region_lt
  have hfree : q.head - q.tail + (12 + data.length) ≤ page.region := of_decide_eq_true hroom
  have hsize : (RingPage.calculateSize (.ofNat data.length)).toNat = 12 + data.length :=
    toNat_calculateSize (by omega)
  have hhdr : page.canWrite sizeOfPerfEventHeader page.dataTail page.dataHead := by
    rw [h.canWrite]
    exact Queue.room_mono (show 8 ≤ 12 + data.length by omega) hroom
  have hsample : page.canWrite (RingPage.calculateSize (.ofNat data.length)) page.dataTail
      page.dataHead := by
    rw [h.canWrite, hsize]
    exact hroom
  unfold RingPage.writeEventDepth
  rw [Call.exec_bind_ok (Call.exec_self page)]
  simp only [h.skips_report hreport, Bool.false_eq_true, if_false]
  rw [if_pos hhdr, if_pos hsample, h.head,
    Call.exec_bind_ok (RingPage.exec_writeSample hne (by omega) hend)]
  rfl

/-- With no loss to report, the event is queued or counted. -/
theorem Framed.exec_offer (h : Framed page q) {data : Bytes} (hvalid : (PerfRecord.sample data).Valid)
    (hround : Rounds page.region (q.offer page.region data).head)
    (hreport : (0 < q.lost && q.room page.region 24) = false) (depth : Nat) :
    ∃ page', (RingPage.writeEventDepth (depth + 1) data).exec page = some (.ok (), page') ∧
      Writes page page' q (q.offer page.region data) := by
  by_cases hroom : q.room page.region (12 + data.length)
  · have hoffer : q.offer page.region data = q.push page.region (.sample data) := if_pos hroom
    rw [hoffer] at hround ⊢
    have hend : Rounds page.region (q.head + (12 + data.length)) :=
      hround.mono (q.head_le_push page.region (.sample data))
    exact ⟨_, h.exec_sample hvalid.1 hreport hroom hend depth, h.writes_push hvalid hroom hround⟩
  · have hoffer : q.offer page.region data = { q with lost := q.lost + 1 } := if_neg hroom
    have hnosample : ¬ page.canWrite (RingPage.calculateSize (.ofNat data.length)) page.dataTail
        page.dataHead := by
      have hlen := hvalid.2
      rw [h.canWrite, toNat_calculateSize (by omega)]
      exact hroom
    refine ⟨page.setLost (page.lost + 1), ?_, ?_⟩
    · unfold RingPage.writeEventDepth
      rw [Call.exec_bind_ok (Call.exec_self page)]
      simp only [h.skips_report hreport, Bool.false_eq_true, if_false]
      rw [if_neg hnosample]
      split <;> rfl
    · rw [hoffer, h.lost]
      exact ⟨rfl, h.setLost _, rfl⟩

theorem Framed.takes_report (h : Framed page q)
    (hreport : (0 < q.lost && q.room page.region 24) = true) :
    page.canWrite sizeOfPerfEventHeader page.dataTail page.dataHead = true ∧
      (page.lost > 0 && page.canWrite sizeOfLostSamples page.dataTail page.dataHead) = true := by
  obtain ⟨-, hroom⟩ := Bool.and_eq_true_iff.mp hreport
  constructor
  · rw [h.canWrite]
    exact Queue.room_mono (by decide : 8 ≤ 24) hroom
  · rw [h.canWrite, h.lost]
    exact hreport

/-- A report goes to the head, and the call comes to the event again. -/
theorem Framed.exec_report (h : Framed page q)
    (hreport : (0 < q.lost && q.room page.region 24) = true)
    (hround : Rounds page.region (q.push page.region (.lost q.lost)).head) (depth : Nat)
    (data : Bytes) :
    (RingPage.writeEventDepth (depth + 1) data).exec page =
      (RingPage.writeEventDepth depth data).exec
        (((page.appended q.head (.lost q.lost)).setDataHead
          (.ofNat (q.push page.region (.lost q.lost)).head)).setLost 0) := by
  obtain ⟨hhdr, hdue⟩ := h.takes_report hreport
  have hend : Rounds page.region (q.head + 24) :=
    hround.mono (q.head_le_push page.region (.lost q.lost))
  conv_lhs => unfold RingPage.writeEventDepth
  rw [Call.exec_bind_ok (Call.exec_self page)]
  simp only [hhdr, hdue, if_true]
  rw [h.head, Call.exec_bind_ok (RingPage.exec_writeLost hend), h.lost,
    Call.exec_bind_ok (Call.exec_update _ _), Call.exec_bind_ok (Call.exec_update _ _)]
  rfl

theorem Queue.head_le_offer (region : Nat) (q : Queue) (data : Bytes) :
    q.head ≤ (q.offer region data).head := by
  unfold Queue.offer
  split
  · exact Nat.le_add_right _ _
  · exact Nat.le_refl _

/-- `write_event` does to the page what the queue asks for, whatever the depth left beyond
one LOST record. -/
theorem Framed.exec_writeEvent (h : Framed page q) {data : Bytes}
    (hvalid : (PerfRecord.sample data).Valid)
    (hround : Rounds page.region (q.write page.region data).head) :
    ∃ page', (RingPage.writeEvent data).exec page = some (.ok (), page') ∧
      Writes page page' q (q.write page.region data) := by
  unfold RingPage.writeEvent
  cases hreport : (0 < q.lost && q.room page.region 24 : Bool) with
  | false =>
    have hq : q.report page.region = q := if_neg (by rw [hreport]; exact Bool.false_ne_true)
    have hwrite : q.write page.region data = q.offer page.region data := by
      unfold Queue.write
      rw [hq]
    rw [hwrite] at hround ⊢
    exact h.exec_offer hvalid hround hreport 1
  | true =>
    have hq : q.report page.region = { q.push page.region (.lost q.lost) with lost := 0 } :=
      if_pos hreport
    have hwrite : q.write page.region data =
        ({ q.push page.region (.lost q.lost) with lost := 0 } : Queue).offer page.region data := by
      unfold Queue.write
      rw [hq]
    rw [hwrite] at hround ⊢
    obtain ⟨hlost, hroom⟩ := Bool.and_eq_true_iff.mp hreport
    have hmid := Queue.head_le_offer page.region
      { q.push page.region (.lost q.lost) with lost := 0 } data
    have hround' : Rounds page.region (q.push page.region (.lost q.lost)).head :=
      hround.mono hmid
    have hreported := h.writes_push (r := .lost q.lost) trivial hroom hround'
    obtain ⟨page', hexec, hoffered⟩ :=
      (hreported.framed.setLost 0).exec_offer hvalid hround rfl 0
    refine ⟨page', (h.exec_report hreport hround' 1 data).trans hexec, ?_, hoffered.framed, ?_⟩
    · exact hoffered.region.trans hreported.region
    · have hgrow := q.head_le_push page.region (.lost q.lost)
      refine Eq.trans (Circular.read_eq_of_le ?_ hoffered.unread) hreported.unread
      show q.head - q.tail ≤ (q.push page.region (.lost q.lost)).head - q.tail
      omega

/-- A record that was stored at the head has not taken the positions out of the region. -/
theorem Framed.round_push (h : Framed page q) {r : PerfRecord} (hsize : r.size < 2 ^ 64)
    (hends : Ends page.region page.dataHead r.size) :
    Rounds page.region (q.push page.region r).head := by
  have hpos := page.region_pos
  rw [h.head] at hends
  have hround := (hends.rounds h.round hsize).fill (by omega) page.aligned
  rw [Nat.add_assoc] at hround
  exact hround

theorem Framed.round_offer (h : Framed page q) {data : Bytes} {page' : RingPage}
    {r : Except BpfError Unit} (hvalid : (PerfRecord.sample data).Valid)
    (hreport : (0 < q.lost && q.room page.region 24) = false) {depth : Nat}
    (hexec : (RingPage.writeEventDepth (depth + 1) data).exec page = some (r, page')) :
    Rounds page.region (q.offer page.region data).head := by
  have hlen := hvalid.2
  have hsize : (RingPage.calculateSize (.ofNat data.length)).toNat = 12 + data.length :=
    toNat_calculateSize (by omega)
  by_cases hroom : q.room page.region (12 + data.length)
  swap
  · have hoffer : q.offer page.region data = { q with lost := q.lost + 1 } := if_neg hroom
    rw [hoffer]
    exact h.round
  have hoffer : q.offer page.region data = q.push page.region (.sample data) := if_pos hroom
  have hhdr : page.canWrite sizeOfPerfEventHeader page.dataTail page.dataHead := by
    rw [h.canWrite]
    exact Queue.room_mono (show 8 ≤ 12 + data.length by omega) hroom
  have hsample : page.canWrite (RingPage.calculateSize (.ofNat data.length)) page.dataTail
      page.dataHead := by
    rw [h.canWrite, hsize]
    exact hroom
  unfold RingPage.writeEventDepth at hexec
  rw [Call.exec_bind_ok (Call.exec_self page)] at hexec
  simp only [h.skips_report hreport, Bool.false_eq_true, if_false] at hexec
  rw [if_pos hhdr, if_pos hsample, Call.exec_bind] at hexec
  obtain ⟨⟨r', stored⟩, hwrite, -⟩ := Option.bind_eq_some_iff.mp hexec
  have hends := (RingPage.writeSample_inv hwrite).2.ends
  unfold RingPage.sampleBytes at hends
  rw [List.length_append, length_sampleHeaderBytes] at hends
  rw [hoffer]
  exact h.round_push (by show 12 + data.length < 2 ^ 64; omega) hends

theorem Framed.round_write (h : Framed page q) {data : Bytes} {page' : RingPage}
    {r : Except BpfError Unit} (hvalid : (PerfRecord.sample data).Valid)
    (hexec : (RingPage.writeEvent data).exec page = some (r, page')) :
    Rounds page.region (q.write page.region data).head := by
  unfold RingPage.writeEvent at hexec
  cases hreport : (0 < q.lost && q.room page.region 24 : Bool) with
  | false =>
    have hq : q.report page.region = q := if_neg (by rw [hreport]; exact Bool.false_ne_true)
    unfold Queue.write
    rw [hq]
    exact h.round_offer hvalid hreport hexec
  | true =>
    have hq : q.report page.region = { q.push page.region (.lost q.lost) with lost := 0 } :=
      if_pos hreport
    have hround : Rounds page.region (q.push page.region (.lost q.lost)).head := by
      obtain ⟨hhdr, hdue⟩ := h.takes_report hreport
      unfold RingPage.writeEventDepth at hexec
      rw [Call.exec_bind_ok (Call.exec_self page)] at hexec
      simp only [hhdr, hdue, if_true] at hexec
      rw [Call.exec_bind] at hexec
      obtain ⟨⟨r', stored⟩, hwrite, -⟩ := Option.bind_eq_some_iff.mp hexec
      obtain ⟨-, bytes, hlength, hstores⟩ := RingPage.writeLost_inv hwrite
      have hends := hstores.ends
      rw [hlength] at hends
      exact h.round_push (by decide : 24 < 2 ^ 64) hends
    obtain ⟨-, hroom⟩ := Bool.and_eq_true_iff.mp hreport
    have hreported := h.writes_push (r := .lost q.lost) trivial hroom hround
    rw [h.exec_report hreport hround] at hexec
    unfold Queue.write
    rw [hq]
    exact (hreported.framed.setLost 0).round_offer hvalid rfl hexec

/-- Whatever the positions, a call that comes back has done what the queue asks for. -/
theorem Framed.write_inv (h : Framed page q) {data : Bytes} {page' : RingPage}
    {r : Except BpfError Unit} (hvalid : (PerfRecord.sample data).Valid)
    (hexec : (RingPage.writeEvent data).exec page = some (r, page')) :
    r = .ok () ∧ Writes page page' q (q.write page.region data) := by
  obtain ⟨page₁, hexec₁, hwrites⟩ := h.exec_writeEvent hvalid (h.round_write hvalid hexec)
  rw [hexec] at hexec₁
  cases hexec₁
  exact ⟨rfl, hwrites⟩

theorem PerfRecord.advance_le {r : PerfRecord} (h : r.Valid) (region p : Nat) :
    r.advance region p ≤ 65535 := by
  have hfill := fill_lt region (p + r.size)
  unfold PerfRecord.advance
  cases r with
  | sample payload =>
    have hlen := h.2
    simp only [PerfRecord.size] at *
    omega
  | lost count =>
    simp only [PerfRecord.size] at *
    omega

/-- The header a record is stored with. -/
def PerfRecord.header (region p : Nat) (r : PerfRecord) : PerfEventHeader where
  type := match r with
    | .sample _ => PERF_RECORD_SAMPLE
    | .lost _ => PERF_RECORD_LOST
  misc := 0
  size := .ofNat (r.advance region p)

theorem PerfRecord.bytes_header (region p : Nat) (r : PerfRecord) :
    ∃ rest, r.bytes region p = (r.header region p).asBytes ++ rest := by
  cases r with
  | sample payload => exact ⟨_, List.append_assoc _ _ _⟩
  | lost count => exact ⟨_, List.append_assoc _ _ _⟩

/-- The header comes back in one piece. -/
theorem Stored.parseHeader {e : Entry} (h : Stored page e) (hpos : Rounds page.region e.pos) :
    page.parseHeader (.ofNat e.pos) = some (e.record.header page.region e.pos) := by
  have hsize := e.record.eight_le_size
  obtain ⟨rest, hrest⟩ := e.record.bytes_header page.region e.pos
  have hread : Circular.read page.region page.data e.pos 8 =
      (e.record.header page.region e.pos).asBytes := by
    have hall := h.bytes
    obtain ⟨k, hk⟩ := Nat.exists_eq_add_of_le hsize
    rw [hrest, hk, Circular.read_append] at hall
    exact (List.append_inj hall (by simp)).1
  apply RingPage.parseHeader_of_bytes
  rw [RingPage.contiguous_of_fits hpos h.fits, hread]

/-- The record comes back whole. -/
theorem Stored.parseRecord {e : Entry} (h : Stored page e)
    (hpos : Rounds page.region (e.pos + e.record.size)) :
    page.parseRecord (.ofNat e.pos) (e.record.header page.region e.pos) = some e.record := by
  have hat : ∀ (o n : Nat), o + n ≤ e.record.size →
      page.bytesAt (.ofNat e.pos + .ofNat o) n =
        ((e.record.bytes page.region e.pos).drop o).take n := by
    intro o n hon
    have hsum : (UInt64.ofNat e.pos + UInt64.ofNat o).toNat % page.region =
        (e.pos + o) % page.region := by
      rw [← UInt64.ofNat_add]
      exact (hpos.mono (by omega)).mod
    have hsame : page.bytesAt (.ofNat e.pos + .ofNat o) n =
        Circular.read page.region page.data (e.pos + o) n := Circular.read_of_mod_eq hsum
    obtain ⟨k, hk⟩ := Nat.exists_eq_add_of_le hon
    have hall := h.bytes
    rw [hk, Circular.read_append, Circular.read_append] at hall
    rw [hsame, ← hall, List.append_assoc, List.drop_left' (by simp), List.take_left' (by simp)]
  obtain ⟨pos, record⟩ := e
  cases record with
  | sample payload =>
    have hvalid := h.valid
    have hlen : (UInt32.ofNat payload.length).toNat = payload.length := by
      rw [UInt32.toNat_ofNat']
      exact Nat.mod_eq_of_lt (by have := hvalid.2; omega)
    have hlen4 : (UInt32.ofNat payload.length).toNat < 256 ^ 4 := UInt32.toNat_lt _
    have hcount : page.bytesAt (.ofNat pos + 8) 4 =
        Endian.toLe 4 (UInt32.ofNat payload.length).toNat := by
      refine (hat 8 4 (by simp only [PerfRecord.size]; omega)).trans ?_
      simp only [PerfRecord.bytes, SampleHeader.asBytes, List.append_assoc]
      rw [List.drop_left' (by simp)]
      exact List.take_left' (by simp)
    have hpayload : page.bytesAt (.ofNat pos + 12) payload.length = payload := by
      refine (hat 12 payload.length (Nat.le_refl _)).trans ?_
      simp only [PerfRecord.bytes]
      rw [List.drop_left' (by simp), List.take_length]
    unfold RingPage.parseRecord
    rw [if_pos (by rfl), hcount, Endian.leNat_toLe_of_lt hlen4, hlen, hpayload]
  | lost count =>
    have hcount8 : count.toNat < 256 ^ 8 := count.toNat_lt
    have hcount : page.bytesAt (.ofNat pos + 16) 8 = Endian.toLe 8 count.toNat := by
      refine (hat 16 8 (Nat.le_refl _)).trans ?_
      simp only [PerfRecord.bytes, LostSamples.asBytes]
      rw [List.drop_left' (by simp)]
      exact List.take_of_length_le (by simp)
    have htype : (PerfRecord.header page.region pos (.lost count)).type = PERF_RECORD_LOST := rfl
    unfold RingPage.parseRecord
    simp only [htype]
    rw [if_neg (by decide), if_pos trivial, hcount, Endian.leNat_toLe_of_lt hcount8,
      UInt64.ofNat_toNat]

/-- The size in a header is how far the head moved for the record. -/
theorem Stored.sized {e : Entry} (h : Stored page e) :
    (e.record.header page.region e.pos).size.toNat = e.record.advance page.region e.pos := by
  have hle := PerfRecord.advance_le h.valid page.region e.pos
  show (UInt16.ofNat _).toNat = _
  rw [UInt16.toNat_ofNat']
  exact Nat.mod_eq_of_lt (by omega)

theorem Stored.next {e : Entry} (h : Stored page e) :
    UInt64.ofNat e.pos + (e.record.header page.region e.pos).size.toUInt64 =
      .ofNat (e.pos + e.record.advance page.region e.pos) := by
  have hsized := h.sized
  have hword : (e.record.header page.region e.pos).size.toUInt64 =
      .ofNat (e.record.advance page.region e.pos) := by
    rw [← hsized, ← UInt16.toNat_toUInt64, UInt64.ofNat_toNat]
  rw [hword, UInt64.ofNat_add]

/-- The walk from record to record finds what is stored. -/
theorem parseFrom_eq {es : List Entry} {p q : Nat}
    (htiles : Tiles p (es.map (Entry.span page.region)) q) (hstored : ∀ e ∈ es, Stored page e)
    (hq : Rounds page.region q) (hnear : q - p < 2 ^ 64) (hhead : page.dataHead = .ofNat q)
    {fuel : Nat} (hfuel : q - p ≤ fuel) :
    page.parseFrom fuel (.ofNat p) = some (es.map Entry.record) := by
  induction es generalizing p fuel with
  | nil =>
    have heq : p = q := htiles
    rw [heq, ← hhead]
    cases fuel with
    | zero => exact if_pos rfl
    | succ fuel => exact if_pos rfl
  | cons e es ih =>
    have hpos : e.pos = p := htiles.1
    have he := hstored e List.mem_cons_self
    have hle := htiles.2.le
    have hsize := e.record.eight_le_size
    have hadv := e.record.size_le_advance page.region e.pos
    simp only [Entry.span] at hle
    obtain ⟨n, rfl⟩ : ∃ n, fuel = n + 1 := ⟨fuel - 1, by omega⟩
    have hne : ¬ UInt64.ofNat p = page.dataHead := by
      rw [hhead, ← UInt64.toNat_inj, UInt64.toNat_ofNat', UInt64.toNat_ofNat']
      omega
    have hfuel' : q - (p + (e.span page.region).2) ≤ n := by
      simp only [Entry.span]
      omega
    have hnear' : q - (p + (e.span page.region).2) < 2 ^ 64 := by omega
    have hrest := ih htiles.2 (fun t ht => hstored t (List.mem_cons_of_mem e ht)) hnear' hfuel'
    unfold RingPage.parseFrom
    rw [if_neg hne, ← hpos, he.parseHeader (hq.mono (by omega))]
    simp only [Option.bind_eq_bind, Option.bind_some]
    rw [he.parseRecord (hq.mono (by omega))]
    simp only [Option.bind_some]
    rw [he.next]
    simp only [Entry.span, hpos] at hrest ⊢
    rw [hrest]
    rfl

/-- The records behind a boundary come back one by one. -/
theorem Framed.recordsFrom (h : Framed page q) {es : List Entry} {p : Nat}
    (htiles : Tiles p (es.map (Entry.span page.region)) q.head)
    (hstored : ∀ e ∈ es, Stored page e) (hnear : q.head - p ≤ page.region) :
    page.recordsFrom (.ofNat p) = some (es.map Entry.record) := by
  have hle := htiles.le
  have hlt := page.region_lt
  have hfuel : (page.dataHead - UInt64.ofNat p).toNat = q.head - p := by
    rw [h.head, UInt64.toNat_sub, UInt64.toNat_ofNat', UInt64.toNat_ofNat']
    omega
  unfold RingPage.recordsFrom
  rw [hfuel]
  exact parseFrom_eq htiles hstored h.round (by omega) h.head (Nat.le_refl _)

theorem Framed.parse (h : Framed page q) : page.parse = some (q.unread.map Entry.record) := by
  have hbound := h.bounded
  unfold RingPage.parse
  rw [h.tail]
  exact h.recordsFrom h.tiled h.stored (by omega)

theorem Framed.recordAt (h : Framed page q) {e : Entry} {rest : List Entry}
    (hunread : q.unread = e :: rest) : page.recordAt page.dataTail = some e.record := by
  have htiles := h.tiled
  have hmem : e ∈ q.unread := by
    rw [hunread]
    exact List.mem_cons_self
  have hend := (h.end_le hmem).2
  have hadv := e.record.size_le_advance page.region e.pos
  rw [hunread] at htiles
  have hpos : e.pos = q.tail := htiles.1
  have hstored := h.stored e hmem
  unfold RingPage.recordAt
  rw [h.tail, ← hpos, hstored.parseHeader (h.round.mono (by omega))]
  exact hstored.parseRecord (h.round.mono (by omega))

/-- A reader passes the oldest record, and only when there is one. -/
theorem Framed.consume_eq (h : Framed page q) {e : Entry} {rest : List Entry}
    (hunread : q.unread = e :: rest) :
    page.consume = some (page.setDataTail (.ofNat (e.pos + e.record.advance page.region e.pos))) := by
  have htiles := h.tiled
  have hbound := h.bounded
  have hregion := page.region_lt
  have hmem : e ∈ q.unread := by
    rw [hunread]
    exact List.mem_cons_self
  have he := h.stored e hmem
  have hend := (h.end_le hmem).2
  have hsize := e.record.eight_le_size
  have hadv := e.record.size_le_advance page.region e.pos
  rw [hunread] at htiles
  have hpos : e.pos = q.tail := htiles.1
  have htail : page.dataTail = .ofNat e.pos := by rw [h.tail, hpos]
  have hne : page.dataTail ≠ page.dataHead := by
    rw [htail, h.head, ne_eq, ← UInt64.toNat_inj, UInt64.toNat_ofNat', UInt64.toNat_ofNat']
    omega
  unfold RingPage.consume
  rw [if_neg hne, htail, he.parseHeader (h.round.mono (by omega)), Option.map_some, he.next]

theorem Framed.consume_nil (h : Framed page q) (hunread : q.unread = []) :
    page.consume = none := by
  have htiles := h.tiled
  rw [hunread] at htiles
  have heq : q.tail = q.head := htiles
  unfold RingPage.consume
  rw [h.tail, h.head, heq]
  exact if_pos rfl

theorem Framed.read (h : Framed page q) {e : Entry} {rest : List Entry}
    (hunread : q.unread = e :: rest) :
    Framed (page.setDataTail (.ofNat (e.pos + e.record.advance page.region e.pos)))
      (q.read page.region) := by
  have htiles := h.tiled
  have hbound := h.bounded
  have hregion := page.region_pos
  have hread : q.read page.region = { q with
      tail := e.pos + e.record.advance page.region e.pos, unread := rest } := by
    unfold Queue.read
    rw [hunread]
  rw [hunread] at htiles
  have hpos : e.pos = q.tail := htiles.1
  rw [hread]
  refine ⟨rfl, h.head, h.lost, h.round, ?_, ?_, ?_, h.headFits, ?_⟩
  · show q.head ≤ e.pos + e.record.advance page.region e.pos + page.region
    omega
  · have hrest := htiles.2
    rw [← hpos] at hrest
    exact hrest
  · have hfits := headerFits_fill (by omega : 8 ≤ page.region) (e.pos + e.record.size)
    rw [Nat.add_assoc] at hfits
    exact hfits
  · intro t ht
    have hstored := h.stored t (by rw [hunread]; exact List.mem_cons_of_mem e ht)
    exact ⟨hstored.fits, hstored.valid, hstored.bytes⟩

end

/-- A page, and for the books the queue it should hold. -/
structure System where
  page : RingPage
  queue : Queue

/-- The program writes events, the reader passes records one by one. -/
inductive Step (s s' : System) : Prop where
  | write (data : Bytes) (valid : 0 < data.length ∧ data.length ≤ 65516) (page : RingPage)
      (effect : (RingPage.writeEvent data).exec s.page = some (.ok (), page))
      (next : s' = ⟨page, s.queue.write s.page.region data⟩)
  | read (page : RingPage) (effect : s.page.consume = some page)
      (next : s' = ⟨page, s.queue.read s.page.region⟩)

/-- A step after which less than `2 ^ 64` bytes have been framed in all. -/
inductive BoundedStep (s s' : System) : Prop where
  | mk (step : Step s s') (below : s'.queue.head < 2 ^ 64)

def System.start (page : RingPage) : System := ⟨page, .empty⟩

/-- What is to hold of every state of a run. -/
structure PerfFraming (s : System) : Prop where
  ordered : s.page.dataTail ≤ s.page.dataHead
  bounded : s.page.dataHead.toNat ≤ s.page.dataTail.toNat + s.page.region
  tiled : Tiles s.page.dataTail.toNat (s.queue.unread.map (Entry.span s.page.region))
    s.page.dataHead.toNat
  contiguous : ∀ e ∈ s.queue.unread, HeaderFits s.page.region e.pos
  sized : ∀ e ∈ s.queue.unread, ∃ hdr, s.page.parseHeader (.ofNat e.pos) = some hdr ∧
    hdr.size.toNat = e.record.advance s.page.region e.pos
  kept : ∀ data, 0 < data.length ∧ data.length ≤ 65516 →
    (s.queue.write s.page.region data).head < 2 ^ 64 →
    ∃ page, (RingPage.writeEvent data).exec s.page = some (.ok (), page) ∧
      Circular.read s.page.region page.data s.queue.tail (s.queue.head - s.queue.tail) =
        Circular.read s.page.region s.page.data s.queue.tail (s.queue.head - s.queue.tail)
  parsed : s.page.parse = some (s.queue.unread.map Entry.record)

theorem Framed.framing {s : System} (h : Framed s.page s.queue) (hbelow : s.queue.head < 2 ^ 64) :
    PerfFraming s := by
  have hord := h.ordered
  have htail : s.page.dataTail.toNat = s.queue.tail := by
    rw [h.tail, UInt64.toNat_ofNat']
    exact Nat.mod_eq_of_lt (by omega)
  have hhead : s.page.dataHead.toNat = s.queue.head := by
    rw [h.head, UInt64.toNat_ofNat']
    exact Nat.mod_eq_of_lt hbelow
  have hle : s.page.dataTail ≤ s.page.dataHead := by
    rw [UInt64.le_iff_toNat_le]
    omega
  constructor
  case ordered => exact hle
  case bounded =>
    rw [htail, hhead]
    exact h.bounded
  case tiled =>
    rw [htail, hhead]
    exact h.tiled
  case contiguous => exact fun e he => (h.stored e he).fits
  case sized =>
    intro e he
    have hend := (h.end_le he).2
    have hstored := h.stored e he
    exact ⟨_, hstored.parseHeader (h.round.mono (by omega)), hstored.sized⟩
  case kept =>
    intro data hvalid hnext
    obtain ⟨page, hexec, hwrites⟩ := h.exec_writeEvent hvalid (.inl hnext)
    exact ⟨page, hexec, hwrites.unread⟩
  case parsed => exact h.parse

theorem Framed.step {s s' : System} (h : Framed s.page s.queue) (hstep : Step s s') :
    Framed s'.page s'.queue := by
  cases hstep with
  | write data hvalid page heffect hnext =>
    subst hnext
    exact (h.write_inv hvalid heffect).2.framed
  | read page heffect hnext =>
    subst hnext
    cases hunread : s.queue.unread with
    | nil =>
      rw [h.consume_nil hunread] at heffect
      cases heffect
    | cons e rest =>
      rw [h.consume_eq hunread] at heffect
      cases heffect
      exact h.read hunread

theorem headerFits_zero (page : RingPage) : HeaderFits page.region 0 := by
  have hpos := page.region_pos
  unfold HeaderFits
  rw [Nat.zero_mod]
  omega

theorem Framed.start {bytes : Nat → UInt8} {size : UInt64} {page : RingPage}
    (h : RingPage.init bytes size = some page) : Framed page .empty := by
  unfold RingPage.init at h
  split at h
  swap
  · cases h
  cases h
  refine ⟨rfl, rfl, rfl, .inl (Nat.two_pow_pos 64), Nat.zero_le _, rfl, headerFits_zero _,
    headerFits_zero _, ?_⟩
  intro e he
  cases he

theorem framed_of_reachable {bytes : Nat → UInt8} {size : UInt64} {page : RingPage}
    (hinit : RingPage.init bytes size = some page) {s : System}
    (hs : Machine.Reachable (· = System.start page) BoundedStep s) :
    Framed s.page s.queue ∧ s.queue.head < 2 ^ 64 := by
  have hboth : (fun t : System => Framed t.page t.queue ∧ t.queue.head < 2 ^ 64) s := by
    apply hs.invariant
    · rintro s₀ rfl
      exact ⟨Framed.start hinit, Nat.two_pow_pos 64⟩
    · rintro t t' ⟨hframed, -⟩ ⟨hstep, hbelow⟩
      exact ⟨hframed.step hstep, hbelow⟩
  exact hboth

theorem init_two_pages : ∃ page, RingPage.init (fun _ => 0) 8192 = some page ∧
    page.region = 4096 := by
  refine ⟨_, dif_pos ?_, ?_⟩
  · decide
  · rfl

namespace Queue

/-- One event of 4068 bytes, and some losses; 16 bytes of a page are free. -/
def nearlyFull (data : Bytes) (lost : UInt64) : Queue := ⟨0, 4080, [⟨0, .sample data⟩], lost⟩

def drained (lost : UInt64) : Queue := ⟨4080, 4080, [], lost⟩

/-- The report of one loss, which runs over the end of the page, and an event of 100 bytes. -/
def caughtUp (data : Bytes) : Queue :=
  ⟨4080, 4216, [⟨4080, .lost 1⟩, ⟨4104, .sample data⟩], 0⟩

variable {first data : Bytes}

theorem write_first (hlen : data.length = 4068) : empty.write 4096 data = nearlyFull data 0 := by
  have hroom : empty.room 4096 (12 + data.length) := by
    have hfree : 0 - 0 + (12 + data.length) ≤ 4096 := by omega
    exact decide_eq_true hfree
  have hoffer : empty.offer 4096 data = empty.push 4096 (.sample data) := if_pos hroom
  have hsize : (PerfRecord.sample data).size = 4080 := congrArg (12 + ·) hlen
  have hadvance : (PerfRecord.sample data).advance 4096 0 = 4080 := by
    unfold PerfRecord.advance
    rw [hsize]
    rfl
  have hreport : empty.report 4096 = empty := rfl
  unfold write
  rw [hreport, hoffer]
  unfold push empty nearlyFull
  rw [hadvance]
  rfl

theorem write_refused (hlen : data.length = 100) :
    (nearlyFull first 0).write 4096 data = nearlyFull first 1 := by
  have hfull : ¬ (nearlyFull first 0).room 4096 (12 + data.length) := by
    intro hroom
    have hfree : 4080 - 0 + (12 + data.length) ≤ 4096 := of_decide_eq_true hroom
    omega
  exact if_neg hfull

theorem read_first (hlen : first.length = 4068) (lost : UInt64) :
    (nearlyFull first lost).read 4096 = drained lost := by
  have hsize : (PerfRecord.sample first).size = 4080 := congrArg (12 + ·) hlen
  unfold read nearlyFull drained
  simp only [PerfRecord.advance, hsize]
  rfl

theorem write_behind (hlen : data.length = 100) : (drained 1).write 4096 data = caughtUp data := by
  have hreport : (drained 1).report 4096 = ⟨4080, 4104, [⟨4080, .lost 1⟩], 0⟩ := rfl
  have hroom : (⟨4080, 4104, [⟨4080, .lost 1⟩], 0⟩ : Queue).room 4096 (12 + data.length) := by
    have hfree : 4104 - 4080 + (12 + data.length) ≤ 4096 := by omega
    exact decide_eq_true hfree
  have hsize : (PerfRecord.sample data).size = 112 := congrArg (12 + ·) hlen
  have hadvance : (PerfRecord.sample data).advance 4096 4104 = 112 := by
    unfold PerfRecord.advance
    rw [hsize]
    rfl
  unfold write
  rw [hreport]
  refine (if_pos hroom).trans ?_
  unfold push caughtUp
  simp only [hadvance, List.cons_append, List.nil_append]

end Queue

/-- A ring of one page in which the second event is lost, and the third comes after a reader. -/
structure CatchesUp (first second : Bytes) (page₀ page₁ page₂ page₃ page₄ : RingPage) : Prop where
  init : RingPage.init (fun _ => 0) 8192 = some page₀
  store : (RingPage.writeEvent first).exec page₀ = some (.ok (), page₁)
  refuse : (RingPage.writeEvent second).exec page₁ = some (.ok (), page₂)
  pass : page₂.consume = some page₃
  report : (RingPage.writeEvent second).exec page₃ = some (.ok (), page₄)
  regions : ∀ page ∈ [page₀, page₁, page₂, page₃, page₄], page.region = 4096
  full : Framed page₁ (.nearlyFull first 0)
  losing : Framed page₂ (.nearlyFull first 1)
  passed : Framed page₃ (.drained 1)
  caught : Framed page₄ (.caughtUp second)

/-- The next page of a run. -/
theorem Framed.next {page : RingPage} {q q' : Queue} (h : Framed page q)
    (hregion : page.region = 4096) {data : Bytes} (hvalid : (PerfRecord.sample data).Valid)
    (hwrite : q.write 4096 data = q') (hbelow : q'.head < 2 ^ 64) :
    ∃ page', (RingPage.writeEvent data).exec page = some (.ok (), page') ∧
      page'.region = 4096 ∧ Framed page' q' := by
  rw [← hregion] at hwrite
  obtain ⟨page', hexec, hwrites⟩ := h.exec_writeEvent hvalid (.inl (hwrite ▸ hbelow))
  have hframed := hwrites.framed
  rw [hwrite] at hframed
  refine ⟨page', hexec, ?_, hframed⟩
  unfold RingPage.region
  rw [hwrites.region]
  exact hregion

theorem exists_catchesUp {first second : Bytes} (hfirst : first.length = 4068)
    (hsecond : second.length = 100) : ∃ page₀ page₁ page₂ page₃ page₄,
    CatchesUp first second page₀ page₁ page₂ page₃ page₄ := by
  have hvalid₁ : (PerfRecord.sample first).Valid := ⟨by omega, by omega⟩
  have hvalid₂ : (PerfRecord.sample second).Valid := ⟨by omega, by omega⟩
  obtain ⟨page₀, hinit, hregion₀⟩ := init_two_pages
  obtain ⟨page₁, hexec₁, hregion₁, hframed₁⟩ :=
    (Framed.start hinit).next hregion₀ hvalid₁ (Queue.write_first hfirst) (by decide : 4080 < 2 ^ 64)
  obtain ⟨page₂, hexec₂, hregion₂, hframed₂⟩ :=
    hframed₁.next hregion₁ hvalid₂ (Queue.write_refused hsecond) (by decide : 4080 < 2 ^ 64)
  have hconsume := hframed₂.consume_eq rfl
  have hframed₃ := hframed₂.read rfl
  rw [hregion₂, Queue.read_first hfirst] at hframed₃
  obtain ⟨page₄, hexec₄, hregion₄, hframed₄⟩ :=
    hframed₃.next hregion₂ hvalid₂ (Queue.write_behind hsecond) (by decide : 4216 < 2 ^ 64)
  rw [hregion₂] at hconsume
  refine ⟨page₀, page₁, page₂, _, page₄, hinit, hexec₁, hexec₂, hconsume, hexec₄, ?_, hframed₁,
    hframed₂, hframed₃, hframed₄⟩
  intro page hpage
  simp only [List.mem_cons, List.not_mem_nil, or_false] at hpage
  rcases hpage with rfl | rfl | rfl | rfl | rfl <;> assumption

section
variable {data : Bytes} (hlen : data.length = 4080)

/-- The queue after `n` events of 4080 bytes, whose records fill a page but for four bytes, all
of them read. -/
def Queue.afterPages (n : Nat) : Queue := ⟨4096 * n, 4096 * n, [], 0⟩

include hlen

theorem advance_page (n : Nat) : (PerfRecord.sample data).advance 4096 (4096 * n) = 4096 := by
  have hsize : (PerfRecord.sample data).size = 4092 := congrArg (12 + ·) hlen
  have hmod : (4096 * n + 4092) % 4096 = 4092 := by omega
  unfold PerfRecord.advance fill
  rw [hsize, hmod]
  rfl

theorem room_page (n : Nat) : (Queue.afterPages n).room 4096 (12 + data.length) := by
  have hfree : 4096 * n - 4096 * n + (12 + data.length) ≤ 4096 := by omega
  exact decide_eq_true hfree

theorem write_page (n : Nat) :
    (Queue.afterPages n).write 4096 data =
      ⟨4096 * n, 4096 * (n + 1), [⟨4096 * n, .sample data⟩], 0⟩ := by
  have hreport : (Queue.afterPages n).report 4096 = Queue.afterPages n := rfl
  have hoffer : (Queue.afterPages n).offer 4096 data =
      (Queue.afterPages n).push 4096 (.sample data) := if_pos (room_page hlen n)
  unfold Queue.write
  rw [hreport, hoffer]
  unfold Queue.push Queue.afterPages
  simp only [advance_page hlen, List.nil_append]
  rfl

theorem valid_page : (PerfRecord.sample data).Valid := by
  unfold PerfRecord.Valid
  omega

/-- One event written and read, as often as one likes below the wrap. -/
theorem reach_pages {page : RingPage} (hinit : RingPage.init (fun _ => 0) 8192 = some page)
    (hregion : page.region = 4096) (n : Nat) (hn : 4096 * n < 2 ^ 64) :
    ∃ s, Machine.Reachable (· = System.start page) BoundedStep s ∧ Framed s.page s.queue ∧
      s.page.region = 4096 ∧ s.queue = Queue.afterPages n := by
  induction n with
  | zero => exact ⟨System.start page, .start rfl, Framed.start hinit, hregion, rfl⟩
  | succ n ih =>
    obtain ⟨s, hs, hframed, hsize, hqueue⟩ := ih (by omega)
    have hwrite : s.queue.write s.page.region data =
        ⟨4096 * n, 4096 * (n + 1), [⟨4096 * n, .sample data⟩], 0⟩ := by
      rw [hqueue, hsize]
      exact write_page hlen n
    obtain ⟨page₁, hexec, hwrites⟩ := hframed.exec_writeEvent (valid_page hlen)
      (by rw [hwrite]; exact .inl hn)
    have hframed₁ := hwrites.framed
    have hsize₁ : page₁.region = 4096 := by
      unfold RingPage.region
      rw [hwrites.region]
      exact hsize
    have hbelow₁ : (s.queue.write s.page.region data).head < 2 ^ 64 := by
      rw [hwrite]
      exact hn
    have hs₁ := hs.next ⟨.write data (valid_page hlen) page₁ hexec rfl, hbelow₁⟩
    rw [hwrite] at hframed₁ hs₁
    have hread := hframed₁.read rfl
    have hs₂ := hs₁.next ⟨.read _ (hframed₁.consume_eq rfl) rfl, hn⟩
    refine ⟨_, hs₂, hread, hsize₁, ?_⟩
    show (⟨4096 * n + (PerfRecord.sample data).advance page₁.region (4096 * n),
      4096 * (n + 1), [], 0⟩ : Queue) = _
    rw [hsize₁, advance_page hlen]
    rfl

end

end ExtKtrace.Bpf.Perf
