import ExtKtrace.Bpf.Map
import ExtKtrace.Lib.Circular
import ExtKtrace.Lib.Endian

/-!
# The perf event ring

A control page with the two positions and a data region of whole pages behind it. Positions
and sizes are `usize` of 64 bits, whose arithmetic wraps.
-/

namespace ExtKtrace.Bpf.Perf
set_option autoImplicit false

def PAGE_SIZE : UInt64 := 4096
def PERF_RECORD_LOST : UInt32 := 2
def PERF_RECORD_SAMPLE : UInt32 := 9

structure PerfEventHeader where
  type : UInt32
  misc : UInt16
  size : UInt16
  deriving DecidableEq

structure SampleHeader where
  header : PerfEventHeader
  size : UInt32

structure LostSamples where
  header : PerfEventHeader
  id : UInt64
  count : UInt64

def sizeOfPerfEventHeader : UInt64 := 8
def sizeOfSampleHeader : UInt64 := 12
def sizeOfLostSamples : UInt64 := 24

def PerfEventHeader.asBytes (h : PerfEventHeader) : Bytes :=
  Endian.toLe 4 h.type.toNat ++ Endian.toLe 2 h.misc.toNat ++ Endian.toLe 2 h.size.toNat

def SampleHeader.asBytes (h : SampleHeader) : Bytes :=
  h.header.asBytes ++ Endian.toLe 4 h.size.toNat

def LostSamples.asBytes (l : LostSamples) : Bytes :=
  l.header.asBytes ++ Endian.toLe 8 l.id.toNat ++ Endian.toLe 8 l.count.toNat

/-- The size of a data region: whole pages, at least one. -/
structure Region where
  dataRegionSize : UInt64
  positive : 0 < dataRegionSize.toNat
  aligned : dataRegionSize.toNat % 4096 = 0

structure RingPage extends Region where
  lost : UInt64
  dataTail : UInt64
  dataHead : UInt64
  /-- The bytes of the data region by offset. -/
  data : Nat → UInt8

namespace RingPage

/-- `init` on pages that held `bytes`; the asserts are a panic. -/
def init (bytes : Nat → UInt8) (size : UInt64) : Option RingPage :=
  if h : size.toNat % 4096 = 0 ∧ 2 ≤ size.toNat / 4096 then
    have hsize : (size - PAGE_SIZE).toNat = size.toNat - 4096 := by
      have hle : PAGE_SIZE ≤ size := by
        rw [UInt64.le_iff_toNat_le]
        show 4096 ≤ size.toNat
        omega
      exact UInt64.toNat_sub_of_le _ _ hle
    some {
      dataRegionSize := size - PAGE_SIZE
      positive := by omega
      aligned := by omega
      lost := 0
      dataTail := 0
      dataHead := 0
      data := bytes }
  else none

def canWrite (page : RingPage) (dataSize dataTail dataHead : UInt64) : Bool :=
  let capacity := page.dataRegionSize - dataHead + dataTail
  dataSize ≤ capacity

/-- `data_region[start..stop].copy_from_slice(bytes)`: panics outside the region and when the
lengths differ. -/
def copyRange (start stop : UInt64) (bytes : Bytes) : Call BpfError RingPage Unit := do
  let page ← Call.self
  if start ≤ stop ∧ stop ≤ page.dataRegionSize ∧ (stop - start).toNat = bytes.length then
    Call.update fun page => { page with
      data := Circular.write page.dataRegionSize.toNat page.data start.toNat bytes }
  else Call.stuck

/-- `data[..n]` and `data[n..]`. -/
def splitAt (data : Bytes) (n : UInt64) : Option (Bytes × Bytes) :=
  if n.toNat ≤ data.length then some (data.take n.toNat, data.drop n.toNat) else none

def writeAny (data : Bytes) (dataHead : UInt64) : Call BpfError RingPage Unit := do
  let dataRegionLen := (← Call.self).dataRegionSize
  let dataLen : UInt64 := .ofNat data.length
  let start := dataHead % dataRegionLen
  let stop := (dataHead + dataLen) % dataRegionLen
  if start < stop then
    copyRange start stop data
  else
    let firstLen := dataRegionLen - start
    let (first, rest) ← Call.orPanic (splitAt data firstLen)
    copyRange start (start + firstLen) first
    copyRange 0 stop rest

def fillSize (page : RingPage) (dataHeadMod : UInt64) : UInt64 :=
  if page.dataRegionSize - dataHeadMod < sizeOfPerfEventHeader then
    page.dataRegionSize - dataHeadMod
  else 0

/-- `PerfSample::calculate_size`. -/
def calculateSize (valueSize : UInt64) : UInt64 := sizeOfSampleHeader + valueSize

def writeSample (data : Bytes) (dataHead : UInt64) : Call BpfError RingPage UInt64 := do
  let page ← Call.self
  let dataLen : UInt64 := .ofNat data.length
  let sampleSize := calculateSize dataLen
  let maybeEnd := (dataHead + sampleSize) % page.dataRegionSize
  let fillSize := page.fillSize maybeEnd
  let sHdr : SampleHeader := {
    header := {
      type := PERF_RECORD_SAMPLE
      misc := 0
      size := sizeOfSampleHeader.toUInt16 + dataLen.toUInt16 + fillSize.toUInt16 }
    size := dataLen.toUInt32 }
  writeAny sHdr.asBytes dataHead
  writeAny data (dataHead + sizeOfSampleHeader)
  return dataHead + sampleSize + fillSize

def writeLost (dataHead : UInt64) : Call BpfError RingPage UInt64 := do
  let page ← Call.self
  let maybeEnd := (dataHead + sizeOfLostSamples) % page.dataRegionSize
  let fillSize := page.fillSize maybeEnd
  let lost : LostSamples := {
    header := {
      type := PERF_RECORD_LOST
      misc := 0
      size := sizeOfLostSamples.toUInt16 + fillSize.toUInt16 }
    id := 0
    count := page.lost }
  writeAny lost.asBytes dataHead
  return dataHead + sizeOfLostSamples + fillSize

def setDataHead (dataHead : UInt64) (page : RingPage) : RingPage :=
  { page with dataHead := dataHead }

def setDataTail (dataTail : UInt64) (page : RingPage) : RingPage :=
  { page with dataTail := dataTail }

def setLost (lost : UInt64) (page : RingPage) : RingPage := { page with lost := lost }

/-- `write_event`, which calls itself after a LOST record. -/
def writeEventDepth : Nat → Bytes → Call BpfError RingPage Unit
  | 0, _ => Call.stuck
  | depth + 1, data => do
    let page ← Call.self
    let canWritePerfHeader := page.canWrite sizeOfPerfEventHeader page.dataTail page.dataHead
    if canWritePerfHeader then
      let canWriteLostRecord := page.canWrite sizeOfLostSamples page.dataTail page.dataHead
      if page.lost > 0 && canWriteLostRecord then
        let newDataHead ← writeLost page.dataHead
        Call.update (setDataHead newDataHead)
        Call.update (setLost 0)
        writeEventDepth depth data
      else
        let sampleSize := calculateSize (.ofNat data.length)
        let canWriteSample := page.canWrite sampleSize page.dataTail page.dataHead
        if canWriteSample then
          let newDataHead ← writeSample data page.dataHead
          Call.update (setDataHead newDataHead)
        else
          Call.update (setLost (page.lost + 1))
    else
      Call.update (setLost (page.lost + 1))

def writeEvent (data : Bytes) : Call BpfError RingPage Unit := writeEventDepth 2 data

def readable (page : RingPage) : Bool := page.dataTail != page.dataHead

end RingPage

namespace RingPage

/-- Bytes of the region that lie in one piece from a position on. -/
def contiguous (page : RingPage) (pos : UInt64) (n : Nat) : Option Bytes :=
  let start := (pos % page.dataRegionSize).toNat
  if start + n ≤ page.dataRegionSize.toNat then
    some (Circular.read page.dataRegionSize.toNat page.data start n)
  else none

def parseHeader (page : RingPage) (pos : UInt64) : Option PerfEventHeader :=
  (page.contiguous pos 8).map fun bytes => {
    type := .ofNat (Endian.leNat (bytes.take 4))
    misc := .ofNat (Endian.leNat ((bytes.drop 4).take 2))
    size := .ofNat (Endian.leNat (bytes.drop 6)) }

/-- The bytes of a record, which may run over the end of the region. -/
def bytesAt (page : RingPage) (pos : UInt64) (n : Nat) : Bytes :=
  Circular.read page.dataRegionSize.toNat page.data pos.toNat n

end RingPage

inductive PerfRecord where
  | sample (payload : Bytes)
  | lost (count : UInt64)
  deriving DecidableEq

namespace RingPage

/-- What a reader makes of the record at a position. -/
def parseRecord (page : RingPage) (pos : UInt64) (hdr : PerfEventHeader) : Option PerfRecord :=
  if hdr.type = PERF_RECORD_SAMPLE then
    some (.sample (page.bytesAt (pos + 12) (Endian.leNat (page.bytesAt (pos + 8) 4))))
  else if hdr.type = PERF_RECORD_LOST then
    some (.lost (.ofNat (Endian.leNat (page.bytesAt (pos + 16) 8))))
  else none

/-- The records from a position to the head, each found by the size in the header before. -/
def parseFrom (page : RingPage) : Nat → UInt64 → Option (List PerfRecord)
  | 0, pos => if pos = page.dataHead then some [] else none
  | fuel + 1, pos =>
    if pos = page.dataHead then some []
    else do
      let hdr ← page.parseHeader pos
      let record ← page.parseRecord pos hdr
      let rest ← page.parseFrom fuel (pos + hdr.size.toUInt64)
      return record :: rest

/-- All that is between a position and the head; a record takes at least one byte. -/
def recordsFrom (page : RingPage) (pos : UInt64) : Option (List PerfRecord) :=
  page.parseFrom (page.dataHead - pos).toNat pos

def parse (page : RingPage) : Option (List PerfRecord) := page.recordsFrom page.dataTail

/-- The record at a position. -/
def recordAt (page : RingPage) (pos : UInt64) : Option PerfRecord := do
  let hdr ← page.parseHeader pos
  page.parseRecord pos hdr

/-- The reader passes one record. -/
def consume (page : RingPage) : Option RingPage :=
  if page.dataTail = page.dataHead then none
  else (page.parseHeader page.dataTail).map fun hdr =>
    page.setDataTail (page.dataTail + hdr.size.toUInt64)

end RingPage

/-- The filler behind a record that ends at position `e`: what is left of the region when no
header fits there. -/
def fill (size e : Nat) : Nat := if size - e % size < 8 then size - e % size else 0

namespace PerfRecord

def size : PerfRecord → Nat
  | .sample payload => 12 + payload.length
  | .lost _ => 24

/-- The bytes a record at position `p` takes, filler included. -/
def advance (region p : Nat) (r : PerfRecord) : Nat := r.size + fill region (p + r.size)

/-- What is stored for a record at position `p`. -/
def bytes (region p : Nat) : PerfRecord → Bytes
  | .sample payload =>
    SampleHeader.asBytes ⟨⟨PERF_RECORD_SAMPLE, 0,
      .ofNat ((PerfRecord.sample payload).advance region p)⟩, .ofNat payload.length⟩ ++ payload
  | .lost count =>
    LostSamples.asBytes ⟨⟨PERF_RECORD_LOST, 0,
      .ofNat ((PerfRecord.lost count).advance region p)⟩, 0, count⟩

end PerfRecord

@[simp] theorem length_headerBytes (h : PerfEventHeader) : h.asBytes.length = 8 := by
  simp [PerfEventHeader.asBytes]

@[simp] theorem length_sampleHeaderBytes (h : SampleHeader) : h.asBytes.length = 12 := by
  simp [SampleHeader.asBytes]

@[simp] theorem length_lostBytes (l : LostSamples) : l.asBytes.length = 24 := by
  simp [LostSamples.asBytes]

theorem PerfRecord.length_bytes (region p : Nat) (r : PerfRecord) :
    (r.bytes region p).length = r.size := by
  cases r <;> simp [PerfRecord.bytes, PerfRecord.size]

/-- The 64 low bits of a position find the same byte of the region. -/
def Rounds (region p : Nat) : Prop := p < 2 ^ 64 ∨ region ∣ 2 ^ 64

section
variable {region p : Nat}

theorem Rounds.mono {q : Nat} (h : Rounds region q) (hle : p ≤ q) : Rounds region p := by
  rcases h with hbelow | hdvd
  · exact .inl (by omega)
  · exact .inr hdvd

theorem Rounds.mod (h : Rounds region p) : (UInt64.ofNat p).toNat % region = p % region := by
  rw [UInt64.toNat_ofNat']
  rcases h with hbelow | hdvd
  · rw [Nat.mod_eq_of_lt hbelow]
  · exact Nat.mod_mod_of_dvd p hdvd

/-- The position `n` bytes on is the same modulo the region with and without the 64-bit wrap. -/
def Ends (region : Nat) (p : UInt64) (n : Nat) : Prop :=
  (p + .ofNat n).toNat % region = (p.toNat + n) % region

theorem ends_iff {n : Nat} (hn : n < 2 ^ 64) (p : UInt64) :
    Ends region p n ↔ p.toNat + n < 2 ^ 64 ∨ region ∣ 2 ^ 64 := by
  have hp := p.toNat_lt
  have hsum : (p + .ofNat n).toNat = (p.toNat + n) % 2 ^ 64 := by
    rw [UInt64.toNat_add, UInt64.toNat_ofNat', Nat.mod_eq_of_lt hn]
  unfold Ends
  rw [hsum]
  rcases Nat.lt_or_ge (p.toNat + n) (2 ^ 64) with hbelow | hround
  · rw [Nat.mod_eq_of_lt hbelow]
    exact ⟨fun _ => .inl hbelow, fun _ => rfl⟩
  · obtain ⟨k, hk⟩ := Nat.exists_eq_add_of_le hround
    have hrest : (p.toNat + n) % 2 ^ 64 = k := by omega
    rw [hrest, hk]
    constructor
    · intro heq
      have hdvd : region ∣ 2 ^ 64 + k - k := (Nat.modEq_iff_dvd' (by omega)).mp heq
      rw [Nat.add_sub_cancel] at hdvd
      exact .inr hdvd
    · rintro (hbelow | hdvd)
      · omega
      · rw [← Nat.mod_add_mod, Nat.mod_eq_zero_of_dvd hdvd, Nat.zero_add]

theorem Ends.rounds {n : Nat} (h : Ends region (.ofNat p) n) (hp : Rounds region p)
    (hn : n < 2 ^ 64) : Rounds region (p + n) := by
  rcases (ends_iff hn _).mp h with hsum | hdvd
  · rcases hp with hbelow | hdvd
    · rw [UInt64.toNat_ofNat', Nat.mod_eq_of_lt hbelow] at hsum
      exact .inl hsum
    · exact .inr hdvd
  · exact .inr hdvd

end

/-- A header fits between the position and the end of the region. -/
def HeaderFits (region p : Nat) : Prop := p % region + 8 ≤ region

theorem fill_lt (region e : Nat) : fill region e < 8 := by
  unfold fill
  split <;> omega

/-- Filler takes the position to the end of the region, which is 2^64 only where the region
divides it. -/
theorem Rounds.fill {region e : Nat} (h : Rounds region e) (hregion : 0 < region)
    (haligned : region % 4096 = 0) : Rounds region (e + fill region e) := by
  rcases h with hbelow | hdvd
  swap
  · exact .inr hdvd
  have hlt := fill_lt region e
  rcases Nat.lt_or_ge (e + Perf.fill region e) (2 ^ 64) with hsum | hround
  · exact .inl hsum
  have hend : e + Perf.fill region e = region * (e / region + 1) := by
    have hdiv := Nat.div_add_mod e region
    have hmod := Nat.mod_lt e hregion
    unfold Perf.fill at hround ⊢
    rw [Nat.mul_add, Nat.mul_one]
    split at hround <;> split <;> omega
  have hpages : 4096 ∣ e + Perf.fill region e := by
    rw [hend]
    exact Nat.dvd_mul_right_of_dvd (Nat.dvd_of_mod_eq_zero haligned) _
  have hexact : e + Perf.fill region e = 2 ^ 64 := by omega
  rw [hexact] at hend
  exact .inr ⟨_, hend⟩

theorem headerFits_fill {region : Nat} (h : 8 ≤ region) (e : Nat) :
    HeaderFits region (e + fill region e) := by
  have hlt : e % region < region := Nat.mod_lt e (by omega)
  unfold HeaderFits fill
  split
  · have hsum : e + (region - e % region) = region * (e / region + 1) := by
      have hdiv := Nat.div_add_mod e region
      rw [Nat.mul_add, Nat.mul_one]
      omega
    rw [hsum, Nat.mul_mod_right]
    omega
  · simp only [Nat.add_zero]
    omega

/-- The filler fits when the record does: the reader's position is no place for a header to be
cut either. -/
theorem fill_room {region tail e : Nat} (hpos : 0 < region) (htail : HeaderFits region tail)
    (he : e ≤ tail + region) : e + fill region e ≤ tail + region := by
  have hlt : e % region < region := Nat.mod_lt e hpos
  unfold HeaderFits at htail
  unfold fill
  split
  swap
  · exact he
  rename_i hshort
  by_contra hover
  have hdive := Nat.div_add_mod e region
  have hdivt := Nat.div_add_mod tail region
  -- the reader would stand in the same round as the end of the record, and behind it
  have hround : tail / region < e / region := by
    rw [Nat.div_lt_iff_lt_mul hpos, Nat.mul_comm]
    omega
  have hmul : region * (tail / region + 1) ≤ region * (e / region) :=
    Nat.mul_le_mul_left region hround
  rw [Nat.mul_add, Nat.mul_one] at hmul
  omega

namespace RingPage

/-- The size of the data region as a number. -/
def region (page : RingPage) : Nat := page.dataRegionSize.toNat

theorem region_pos (page : RingPage) : 4096 ≤ page.region := by
  have hpos := page.positive
  have halign := page.aligned
  unfold region
  omega

theorem region_lt (page : RingPage) : page.region < 2 ^ 64 := page.dataRegionSize.toNat_lt

/-- The free space, computed with arithmetic that wraps, is right for positions in order,
however far they have come. -/
theorem canWrite_ofNat (page : RingPage) {tail head : Nat} (hord : tail ≤ head)
    (hbound : head ≤ tail + page.region) (n : UInt64) :
    page.canWrite n (.ofNat tail) (.ofNat head) =
      decide (n.toNat ≤ page.region - (head - tail)) := by
  have hlt := page.region_lt
  have hregion : page.dataRegionSize.toNat = page.region := rfl
  have hcapacity : (page.dataRegionSize - .ofNat head + .ofNat tail).toNat =
      page.region - (head - tail) := by
    rw [UInt64.toNat_add, UInt64.toNat_sub, hregion, UInt64.toNat_ofNat', UInt64.toNat_ofNat']
    omega
  unfold canWrite
  simp only [UInt64.le_iff_toNat_le, hcapacity]

theorem canWrite_eq (page : RingPage) {dataTail dataHead : UInt64} (hord : dataTail ≤ dataHead)
    (hbound : dataHead.toNat ≤ dataTail.toNat + page.region) (n : UInt64) :
    page.canWrite n dataTail dataHead =
      decide (n.toNat ≤ page.region - (dataHead.toNat - dataTail.toNat)) := by
  have hnat := page.canWrite_ofNat (UInt64.le_iff_toNat_le.mp hord) hbound n
  rw [UInt64.ofNat_toNat, UInt64.ofNat_toNat] at hnat
  exact hnat

/-- The page with bytes stored from a position on. -/
def stored (page : RingPage) (p : Nat) (bytes : Bytes) : RingPage :=
  { page with data := Circular.write page.region page.data p bytes }

theorem exec_copyRange {page : RingPage} {start stop : UInt64} {bytes : Bytes}
    (hlen : start.toNat + bytes.length = stop.toNat) (hstop : stop.toNat ≤ page.region) :
    (copyRange start stop bytes).exec page = some (.ok (), page.stored start.toNat bytes) := by
  have hle : start ≤ stop := by
    rw [UInt64.le_iff_toNat_le]
    omega
  have hsub : (stop - start).toNat = bytes.length := by
    rw [UInt64.toNat_sub_of_le _ _ hle]
    omega
  unfold copyRange
  rw [Call.exec_bind_ok (Call.exec_self page), if_pos ⟨hle, hstop, hsub⟩]
  rfl

theorem stored_append (page : RingPage) (p : Nat) (xs ys : Bytes) :
    (page.stored p xs).stored (p + xs.length) ys = page.stored p (xs ++ ys) := by
  unfold stored
  rw [Circular.write_append]
  rfl

theorem stored_of_mod_eq (page : RingPage) {p q : Nat} (bytes : Bytes)
    (h : q % page.region = p % page.region) : page.stored q bytes = page.stored p bytes := by
  unfold stored
  rw [Circular.write_of_mod_eq h]

/-- The piece up to the end of the region and the piece from its start make one. -/
theorem stored_split (page : RingPage) {p : Nat} {data : Bytes}
    (h : page.region - p % page.region ≤ data.length) :
    (page.stored (p % page.region) (data.take (page.region - p % page.region))).stored 0
      (data.drop (page.region - p % page.region)) = page.stored p data := by
  have hpos := page.region_pos
  have hmod : p % page.region < page.region := Nat.mod_lt p (by omega)
  have hsame : p % page.region % page.region = p % page.region := Nat.mod_mod _ _
  have hwrap : page.region % page.region = 0 % page.region := by
    rw [Nat.mod_self, Nat.zero_mod]
  have hjoin := stored_append page (p % page.region)
    (data.take (page.region - p % page.region)) (data.drop (page.region - p % page.region))
  rw [List.take_append_drop, List.length_take, Nat.min_eq_left h,
    Nat.add_sub_cancel' (Nat.le_of_lt hmod), stored_of_mod_eq page data hsame] at hjoin
  rw [← hjoin]
  exact (stored_of_mod_eq
    (page.stored (p % page.region) (data.take (page.region - p % page.region)))
    (data.drop (page.region - p % page.region)) hwrap).symm

/-- `write_any` stores the bytes from the position on, in two pieces when they run over the
end of the region. -/
theorem exec_writeAny {page : RingPage} {data : Bytes} {p : Nat} (hne : 0 < data.length)
    (hlen : data.length ≤ page.region) (hp : Rounds page.region (p + data.length)) :
    (writeAny data (.ofNat p)).exec page = some (.ok (), page.stored p data) := by
  have hpos := page.region_pos
  have hlt := page.region_lt
  have hmod : p % page.region < page.region := Nat.mod_lt p (by omega)
  have hstart : (UInt64.ofNat p % page.dataRegionSize).toNat = p % page.region := by
    rw [UInt64.toNat_mod]
    exact (hp.mono (Nat.le_add_right p data.length)).mod
  have hstop : ((UInt64.ofNat p + .ofNat data.length) % page.dataRegionSize).toNat =
      (p + data.length) % page.region := by
    rw [UInt64.toNat_mod, ← UInt64.ofNat_add]
    exact hp.mod
  have hsame : p % page.region % page.region = p % page.region := Nat.mod_mod _ _
  unfold writeAny
  simp only [Call.exec_bind_ok (Call.exec_self page)]
  by_cases hfits : p % page.region + data.length < page.region
  · have hend : (p + data.length) % page.region = p % page.region + data.length := by
      rw [← Nat.mod_add_mod, Nat.mod_eq_of_lt hfits]
    have hlt : UInt64.ofNat p % page.dataRegionSize <
        (UInt64.ofNat p + .ofNat data.length) % page.dataRegionSize := by
      rw [UInt64.lt_iff_toNat_lt]
      omega
    rw [if_pos hlt, exec_copyRange (by omega) (by omega), hstart, stored_of_mod_eq page data hsame]
  · have hend : (p + data.length) % page.region = p % page.region + data.length - page.region := by
      rw [← Nat.mod_add_mod, Nat.mod_eq_sub_mod (by omega), Nat.mod_eq_of_lt (by omega)]
    have hge : ¬ UInt64.ofNat p % page.dataRegionSize <
        (UInt64.ofNat p + .ofNat data.length) % page.dataRegionSize := by
      rw [UInt64.lt_iff_toNat_lt]
      omega
    have hfirst : (page.dataRegionSize - UInt64.ofNat p % page.dataRegionSize).toNat =
        page.region - p % page.region := by
      rw [UInt64.toNat_sub_of_le, hstart]
      · rfl
      · rw [UInt64.le_iff_toNat_le, hstart]
        exact Nat.le_of_lt hmod
    have hwhole : (UInt64.ofNat p % page.dataRegionSize +
        (page.dataRegionSize - UInt64.ofNat p % page.dataRegionSize)).toNat = page.region := by
      rw [UInt64.toNat_add, hfirst, hstart]
      omega
    have hsplit : splitAt data (page.dataRegionSize - UInt64.ofNat p % page.dataRegionSize) =
        some (data.take (page.region - p % page.region),
          data.drop (page.region - p % page.region)) := by
      unfold splitAt
      rw [hfirst, if_pos (by omega)]
    have htake : (data.take (page.region - p % page.region)).length =
        page.region - p % page.region := by
      rw [List.length_take]
      omega
    have hdrop : (data.drop (page.region - p % page.region)).length =
        ((UInt64.ofNat p + .ofNat data.length) % page.dataRegionSize).toNat := by
      rw [List.length_drop, hstop, hend]
      omega
    rw [if_neg hge, Call.exec_bind, Call.exec_orPanic, hsplit]
    simp only [Option.map_some, Option.bind_some]
    rw [Call.exec_bind_ok (exec_copyRange (by omega) (by omega)),
      exec_copyRange (by show 0 + _ = _; omega) (by show _ ≤ page.region; omega), hstart]
    have hlong : page.region - p % page.region ≤ data.length := by omega
    rw [← page.stored_split hlong]
    rfl

/-- The page after a record has been stored at a position. -/
def appended (page : RingPage) (p : Nat) (r : PerfRecord) : RingPage :=
  page.stored p (r.bytes page.region p)

theorem fillSize_eq (page : RingPage) {e : Nat} (he : Rounds page.region e) :
    (page.fillSize (.ofNat e % page.dataRegionSize)) = .ofNat (fill page.region e) := by
  have hpos := page.region_pos
  have hlt := page.region_lt
  have hmod : e % page.region < page.region := Nat.mod_lt e (by omega)
  have hm : (UInt64.ofNat e % page.dataRegionSize).toNat = e % page.region := by
    rw [UInt64.toNat_mod]
    exact he.mod
  have hsub : (page.dataRegionSize - .ofNat e % page.dataRegionSize).toNat =
      page.region - e % page.region := by
    rw [UInt64.toNat_sub_of_le, hm]
    · rfl
    · rw [UInt64.le_iff_toNat_le, hm]
      exact Nat.le_of_lt hmod
  have h8 : sizeOfPerfEventHeader.toNat = 8 := rfl
  unfold fillSize fill
  simp only [UInt64.lt_iff_toNat_lt, hsub, h8]
  split
  · rw [← UInt64.toNat_inj, hsub, UInt64.toNat_ofNat']
    exact (Nat.mod_eq_of_lt (by omega)).symm
  · rfl

theorem exec_writeSample {page : RingPage} {data : Bytes} {p : Nat} (hne : 0 < data.length)
    (hfits : 12 + data.length ≤ page.region)
    (hp : Rounds page.region (p + (12 + data.length))) :
    (writeSample data (.ofNat p)).exec page =
      some (.ok (.ofNat (p + (PerfRecord.sample data).advance page.region p)),
        page.appended p (.sample data)) := by
  have hfill := page.fillSize_eq hp
  have hsize : calculateSize (.ofNat data.length) = .ofNat (12 + data.length) := by
    rw [UInt64.ofNat_add]
    rfl
  have hhdrSize : sizeOfSampleHeader.toUInt16 + (UInt64.ofNat data.length).toUInt16 +
      (UInt64.ofNat (fill page.region (p + (12 + data.length)))).toUInt16 =
        .ofNat ((PerfRecord.sample data).advance page.region p) := by
    rw [UInt64.toUInt16_ofNat', UInt64.toUInt16_ofNat', PerfRecord.advance, UInt16.ofNat_add,
      PerfRecord.size, UInt16.ofNat_add]
    rfl
  have hlen : (UInt64.ofNat data.length).toUInt32 = .ofNat data.length :=
    UInt64.toUInt32_ofNat' _
  unfold writeSample
  simp only [Call.exec_bind_ok (Call.exec_self page), hsize, ← UInt64.ofNat_add, hfill, hhdrSize,
    hlen]
  have hheader : Rounds page.region (p + (SampleHeader.asBytes ⟨⟨PERF_RECORD_SAMPLE, 0,
      .ofNat ((PerfRecord.sample data).advance page.region p)⟩, .ofNat data.length⟩).length) := by
    rw [length_sampleHeaderBytes]
    exact hp.mono (by omega)
  have hpayload : Rounds page.region (p + 12 + data.length) := hp.mono (by omega)
  rw [Call.exec_bind_ok (exec_writeAny (by simp) (by simp; omega) hheader)]
  have hnext : UInt64.ofNat p + sizeOfSampleHeader = .ofNat (p + 12) := by
    rw [UInt64.ofNat_add]
    rfl
  rw [hnext, Call.exec_bind_ok (@exec_writeAny (page.stored p _) _ _ hne
    (by show _ ≤ page.region; omega) hpayload)]
  have hjoin := stored_append page p
    (SampleHeader.asBytes ⟨⟨PERF_RECORD_SAMPLE, 0,
      .ofNat ((PerfRecord.sample data).advance page.region p)⟩, .ofNat data.length⟩) data
  rw [length_sampleHeaderBytes] at hjoin
  rw [hjoin, Nat.add_assoc]
  rfl

theorem exec_writeLost {page : RingPage} {p : Nat} (hp : Rounds page.region (p + 24)) :
    (writeLost (.ofNat p)).exec page =
      some (.ok (.ofNat (p + (PerfRecord.lost page.lost).advance page.region p)),
        page.appended p (.lost page.lost)) := by
  have hpos := page.region_pos
  have hfill := page.fillSize_eq hp
  have hend : UInt64.ofNat p + sizeOfLostSamples = .ofNat (p + 24) := by
    rw [UInt64.ofNat_add]
    rfl
  have hhdrSize : sizeOfLostSamples.toUInt16 +
      (UInt64.ofNat (fill page.region (p + 24))).toUInt16 =
        .ofNat ((PerfRecord.lost page.lost).advance page.region p) := by
    rw [UInt64.toUInt16_ofNat', PerfRecord.advance, UInt16.ofNat_add]
    rfl
  unfold writeLost
  simp only [Call.exec_bind_ok (Call.exec_self page), hend, hfill, hhdrSize, ← UInt64.ofNat_add]
  have hall : Rounds page.region (p + (LostSamples.asBytes ⟨⟨PERF_RECORD_LOST, 0,
      .ofNat ((PerfRecord.lost page.lost).advance page.region p)⟩, 0, page.lost⟩).length) := by
    rw [length_lostBytes]
    exact hp
  rw [Call.exec_bind_ok (exec_writeAny (by simp) (by simp; omega) hall), Nat.add_assoc]
  rfl

section
variable {page page' : RingPage}

theorem copyRange_inv {start stop : UInt64} {bytes : Bytes} {r : Except BpfError Unit}
    (h : (copyRange start stop bytes).exec page = some (r, page')) :
    r = .ok () ∧ start.toNat + bytes.length = stop.toNat ∧
      page' = page.stored start.toNat bytes := by
  unfold copyRange at h
  rw [Call.exec_bind_ok (Call.exec_self page)] at h
  split at h
  · rename_i hguard
    obtain ⟨hle, -, hlen⟩ := hguard
    rw [UInt64.toNat_sub_of_le _ _ hle] at hlen
    rw [UInt64.le_iff_toNat_le] at hle
    cases h
    exact ⟨rfl, by omega, rfl⟩
  · cases h

/-- The bytes lie from the position on, and they end where the 64-bit sum says, even when that
has come round. -/
structure Stores (page : RingPage) (bytes : Bytes) (p : UInt64) (page' : RingPage) : Prop where
  stored : page' = page.stored p.toNat bytes
  ends : Ends page.region p bytes.length

theorem Stores.region {bytes : Bytes} {p : UInt64} (h : Stores page bytes p page') :
    page'.toRegion = page.toRegion := by
  rw [h.stored]
  rfl

theorem writeAny_inv {data : Bytes} {p : UInt64} {r : Except BpfError Unit}
    (h : (writeAny data p).exec page = some (r, page')) :
    r = .ok () ∧ Stores page data p page' := by
  have hpos := page.region_pos
  have hmod : p.toNat % page.region < page.region := Nat.mod_lt _ (by omega)
  have hstart : (p % page.dataRegionSize).toNat = p.toNat % page.region := UInt64.toNat_mod _ _
  have hstop : ((p + .ofNat data.length) % page.dataRegionSize).toNat =
      (p + .ofNat data.length).toNat % page.region := UInt64.toNat_mod _ _
  have hsame : p.toNat % page.region % page.region = p.toNat % page.region := Nat.mod_mod _ _
  unfold writeAny at h
  rw [Call.exec_bind_ok (Call.exec_self page)] at h
  dsimp only at h
  split at h
  · obtain ⟨hr, hlen, hpage⟩ := copyRange_inv h
    rw [hstart, hstop] at hlen
    refine ⟨hr, ?_, ?_⟩
    · rw [hpage, hstart, stored_of_mod_eq page data hsame]
    · unfold Ends
      rw [← Nat.mod_add_mod p.toNat, hlen, Nat.mod_mod]
  · rw [Call.exec_bind, Call.exec_orPanic] at h
    have hfirst : (page.dataRegionSize - p % page.dataRegionSize).toNat =
        page.region - p.toNat % page.region := by
      rw [UInt64.toNat_sub_of_le, hstart]
      · rfl
      · rw [UInt64.le_iff_toNat_le, hstart]
        exact Nat.le_of_lt hmod
    unfold splitAt at h
    rw [hfirst] at h
    split at h
    swap
    · cases h
    rename_i hlong
    rw [Option.map_some, Option.bind_some] at h
    dsimp only at h
    rw [Call.exec_bind] at h
    obtain ⟨⟨r₁, page₁⟩, hcopy, hrest⟩ := Option.bind_eq_some_iff.mp h
    obtain ⟨rfl, -, hpage₁⟩ := copyRange_inv hcopy
    obtain ⟨hr, hlen, hpage⟩ := copyRange_inv hrest
    rw [hstop, List.length_drop] at hlen
    have hzero : (0 : UInt64).toNat = 0 := rfl
    rw [hzero, Nat.zero_add] at hlen
    refine ⟨hr, ?_, ?_⟩
    · rw [hpage, hpage₁, hstart]
      exact page.stored_split hlong
    · have hsum : p.toNat % page.region + data.length =
          page.region + (p + .ofNat data.length).toNat % page.region := by omega
      unfold Ends
      rw [← Nat.mod_add_mod p.toNat, hsum, Nat.add_mod_left, Nat.mod_mod]

theorem Stores.append {mid : RingPage} {xs ys : Bytes} {p : UInt64} (h₁ : Stores page xs p mid)
    (h₂ : Stores mid ys (p + .ofNat xs.length) page') : Stores page (xs ++ ys) p page' := by
  have hends := h₁.ends
  have hregion : mid.region = page.region := by
    rw [h₁.stored]
    rfl
  have hends' := h₂.ends
  rw [hregion] at hends'
  have hnext : (p + .ofNat xs.length).toNat % mid.region =
      (p.toNat + xs.length) % mid.region := by
    rw [hregion]
    exact hends
  refine ⟨?_, ?_⟩
  · rw [h₂.stored, stored_of_mod_eq mid ys hnext, h₁.stored, stored_append]
  · unfold Ends at hends hends' ⊢
    rw [List.length_append, UInt64.ofNat_add, ← UInt64.add_assoc, hends', ← Nat.mod_add_mod, hends,
      Nat.mod_add_mod, Nat.add_assoc]

/-- The bytes a SAMPLE takes at a position: header, payload and filler. -/
def recordLength (region : Nat) (p : UInt64) (data : Bytes) : Nat :=
  12 + data.length + fill region (p + .ofNat (12 + data.length)).toNat

/-- What `write_sample` stores: the length is cut to 16 bits. -/
def sampleBytes (region : Nat) (p : UInt64) (data : Bytes) : Bytes :=
  SampleHeader.asBytes ⟨⟨PERF_RECORD_SAMPLE, 0, .ofNat (recordLength region p data)⟩,
    .ofNat data.length⟩ ++ data

theorem writeSample_inv {data : Bytes} {p : UInt64} {r : Except BpfError UInt64}
    (h : (writeSample data p).exec page = some (r, page')) :
    r = .ok (p + .ofNat (recordLength page.region p data)) ∧
      Stores page (sampleBytes page.region p data) p page' := by
  have hsize : calculateSize (.ofNat data.length) = .ofNat (12 + data.length) := by
    rw [UInt64.ofNat_add]
    rfl
  have hfill : page.fillSize ((p + .ofNat (12 + data.length)) % page.dataRegionSize) =
      .ofNat (fill page.region (p + .ofNat (12 + data.length)).toNat) := by
    have hnat := page.fillSize_eq (.inl (p + .ofNat (12 + data.length)).toNat_lt)
    rw [UInt64.ofNat_toNat] at hnat
    exact hnat
  have hhdrSize : sizeOfSampleHeader.toUInt16 + (UInt64.ofNat data.length).toUInt16 +
      (UInt64.ofNat (fill page.region (p + .ofNat (12 + data.length)).toNat)).toUInt16 =
        .ofNat (recordLength page.region p data) := by
    unfold recordLength
    rw [UInt64.toUInt16_ofNat', UInt64.toUInt16_ofNat', UInt16.ofNat_add (12 + data.length),
      UInt16.ofNat_add]
    rfl
  have hlen : (UInt64.ofNat data.length).toUInt32 = .ofNat data.length :=
    UInt64.toUInt32_ofNat' _
  unfold writeSample at h
  simp only [Call.exec_bind_ok (Call.exec_self page), hsize, hfill, hhdrSize, hlen] at h
  rw [Call.exec_bind] at h
  obtain ⟨⟨r₁, mid⟩, hhdr, hrest⟩ := Option.bind_eq_some_iff.mp h
  obtain ⟨rfl, hfirst⟩ := writeAny_inv hhdr
  dsimp only at hrest
  rw [Call.exec_bind] at hrest
  obtain ⟨⟨r₂, stored⟩, hvalue, hlast⟩ := Option.bind_eq_some_iff.mp hrest
  obtain ⟨rfl, hsecond⟩ := writeAny_inv hvalue
  cases hlast
  have hnext : p + sizeOfSampleHeader = p + .ofNat (SampleHeader.asBytes ⟨⟨PERF_RECORD_SAMPLE, 0,
      .ofNat (recordLength page.region p data)⟩, .ofNat data.length⟩).length := by
    rw [length_sampleHeaderBytes]
    rfl
  rw [hnext] at hsecond
  refine ⟨congrArg Except.ok ?_, hfirst.append hsecond⟩
  unfold recordLength
  rw [UInt64.add_assoc, UInt64.ofNat_add (12 + data.length)]

theorem writeLost_inv {p : UInt64} {r : Except BpfError UInt64}
    (h : (writeLost p).exec page = some (r, page')) :
    r = .ok (p + sizeOfLostSamples +
        page.fillSize ((p + sizeOfLostSamples) % page.dataRegionSize)) ∧
      ∃ bytes, bytes.length = 24 ∧ Stores page bytes p page' := by
  unfold writeLost at h
  rw [Call.exec_bind_ok (Call.exec_self page)] at h
  dsimp only at h
  rw [Call.exec_bind] at h
  obtain ⟨⟨r₁, stored⟩, hwrite, hlast⟩ := Option.bind_eq_some_iff.mp h
  obtain ⟨rfl, hstores⟩ := writeAny_inv hwrite
  cases hlast
  exact ⟨rfl, _, length_lostBytes _, hstores⟩

end

theorem contiguous_of_fits {page : RingPage} {p : Nat} (hp : Rounds page.region p)
    (h : HeaderFits page.region p) :
    page.contiguous (.ofNat p) 8 = some (Circular.read page.region page.data p 8) := by
  have hstart : (UInt64.ofNat p % page.dataRegionSize).toNat = p % page.region := by
    rw [UInt64.toNat_mod]
    exact hp.mod
  have hfits : p % page.region + 8 ≤ page.region := h
  have hsame : Circular.read page.region page.data (p % page.region) 8 =
      Circular.read page.region page.data p 8 := Circular.read_of_mod_eq (Nat.mod_mod _ _)
  unfold contiguous
  simp only [hstart]
  rw [← hsame]
  exact if_pos hfits

theorem parseHeader_of_bytes {page : RingPage} {pos : UInt64} {hdr : PerfEventHeader}
    (h : page.contiguous pos 8 = some hdr.asBytes) : page.parseHeader pos = some hdr := by
  have htype : hdr.type.toNat < 256 ^ 4 := hdr.type.toNat_lt
  have hmisc : hdr.misc.toNat < 256 ^ 2 := hdr.misc.toNat_lt
  have hsize : hdr.size.toNat < 256 ^ 2 := hdr.size.toNat_lt
  have htake : hdr.asBytes.take 4 = Endian.toLe 4 hdr.type.toNat := by
    unfold PerfEventHeader.asBytes
    rw [List.append_assoc]
    exact List.take_left' (by simp)
  have hdrop : hdr.asBytes.drop 4 = Endian.toLe 2 hdr.misc.toNat ++ Endian.toLe 2 hdr.size.toNat := by
    unfold PerfEventHeader.asBytes
    rw [List.append_assoc]
    exact List.drop_left' (by simp)
  have hmid : (hdr.asBytes.drop 4).take 2 = Endian.toLe 2 hdr.misc.toNat := by
    rw [hdrop]
    exact List.take_left' (by simp)
  have hlast : hdr.asBytes.drop 6 = Endian.toLe 2 hdr.size.toNat := by
    unfold PerfEventHeader.asBytes
    exact List.drop_left' (by simp)
  unfold parseHeader
  rw [h]
  simp only [Option.map_some, htake, hmid, hlast, Endian.leNat_toLe_of_lt, htype, hmisc, hsize,
    UInt32.ofNat_toNat, UInt16.ofNat_toNat]

end RingPage

end ExtKtrace.Bpf.Perf
