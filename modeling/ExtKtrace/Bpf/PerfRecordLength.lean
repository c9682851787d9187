import ExtKtrace.Bpf.PerfRingFraming

/-!
# The length in a SAMPLE header

`write_sample` adds up header, payload and filler in 16 bits, and moves the head by the same
sum in 64. A reader skips by the first. Nothing is assumed here of the positions: the reader
may leave any tail, and the head may come round.
-/

namespace ExtKtrace.Bpf.Perf
set_option autoImplicit false

namespace RingPage

def sizeAt (page : RingPage) (pos : UInt64) : UInt16 :=
  .ofNat (Endian.leNat ((page.bytesAt pos 8).drop 6))

/-- The head as `write_event` comes to the event: behind a LOST record, when one is due and
fits. -/
def sampleHead (page : RingPage) : UInt64 :=
  if page.canWrite sizeOfPerfEventHeader page.dataTail page.dataHead ∧
      (page.lost > 0 && page.canWrite sizeOfLostSamples page.dataTail page.dataHead) then
    page.dataHead + sizeOfLostSamples +
      page.fillSize ((page.dataHead + sizeOfLostSamples) % page.dataRegionSize)
  else page.dataHead

variable {page page' : RingPage}

theorem sampleHead_of_lost_eq_zero (h : page.lost = 0) : page.sampleHead = page.dataHead := by
  refine if_neg ?_
  rintro ⟨-, hdue⟩
  rw [h] at hdue
  exact absurd hdue (by simp)

theorem Stores.sizeAt {data : Bytes} {p : UInt64}
    (h : Stores page (sampleBytes page.region p data) p page')
    (hfits : 12 + data.length ≤ page.region) :
    page'.sizeAt p = .ofNat (recordLength page.region p data) := by
  have hsize : (UInt16.ofNat (recordLength page.region p data)).toNat < 256 ^ 2 := UInt16.toNat_lt _
  have hlength : (sampleBytes page.region p data).length = 8 + (4 + data.length) := by
    unfold sampleBytes
    rw [List.length_append, length_sampleHeaderBytes]
    omega
  have hread : Circular.read page.region page'.data p.toNat (8 + (4 + data.length)) =
      sampleBytes page.region p data := by
    rw [h.stored, ← hlength]
    exact Circular.read_write (by omega)
  have hheader : page'.bytesAt p 8 = (PerfEventHeader.asBytes ⟨PERF_RECORD_SAMPLE, 0,
      .ofNat (recordLength page.region p data)⟩) := by
    have hregion : page'.region = page.region := by
      rw [h.stored]
      rfl
    rw [Circular.read_append] at hread
    have hsplit := hread.trans (List.append_assoc _ _ _)
    have hfront := (List.append_inj hsplit (by simp)).1
    show Circular.read page'.region page'.data p.toNat 8 = _
    rw [hregion]
    exact hfront
  unfold RingPage.sizeAt
  rw [hheader]
  unfold PerfEventHeader.asBytes
  rw [List.drop_left' (by simp), Endian.leNat_toLe_of_lt hsize, UInt16.ofNat_toNat]

/-- A call of `write_event` leaves the head in front of the event, or stores it there. -/
theorem writeEventDepth_inv {data : Bytes} {depth : Nat}
    (h : (writeEventDepth depth data).exec page = some (.ok (), page')) :
    page'.toRegion = page.toRegion ∧ (page'.dataHead = page.sampleHead ∨
      ∃ mid stored, mid.toRegion = page.toRegion ∧
        Stores mid (sampleBytes page.region page.sampleHead data) page.sampleHead stored ∧
        page' = stored.setDataHead
          (page.sampleHead + .ofNat (recordLength page.region page.sampleHead data))) := by
  induction depth generalizing page with
  | zero => cases h
  | succ depth ih =>
    unfold writeEventDepth at h
    rw [Call.exec_bind_ok (Call.exec_self page)] at h
    dsimp only at h
    split at h
    swap
    · rename_i hfull
      cases h
      refine ⟨rfl, .inl ?_⟩
      exact (if_neg fun hdue => hfull hdue.1).symm
    rename_i hhdr
    split at h
    · rename_i hreport
      rw [Call.exec_bind] at h
      obtain ⟨⟨r, reported⟩, hlost, hrest⟩ := Option.bind_eq_some_iff.mp h
      obtain ⟨rfl, bytes, -, hstores⟩ := writeLost_inv hlost
      have hdue : page.sampleHead = page.dataHead + sizeOfLostSamples +
          page.fillSize ((page.dataHead + sizeOfLostSamples) % page.dataRegionSize) :=
        if_pos ⟨hhdr, hreport⟩
      dsimp only at hrest
      rw [Call.exec_bind_ok (Call.exec_update _ _), Call.exec_bind_ok (Call.exec_update _ _),
        ← hdue] at hrest
      obtain ⟨hsame, hrun⟩ := ih hrest
      -- with the counter at zero the event comes next
      have hnone : ((reported.setDataHead page.sampleHead).setLost 0).sampleHead =
          page.sampleHead := sampleHead_of_lost_eq_zero rfl
      have hsize : ((reported.setDataHead page.sampleHead).setLost 0).region = page.region := by
        unfold region
        rw [← hstores.region]
        rfl
      rw [hnone, hsize] at hrun
      refine ⟨hsame.trans hstores.region, ?_⟩
      rcases hrun with hcounted | ⟨mid, stored, hmid, hsample, heq⟩
      · exact .inl hcounted
      · exact .inr ⟨mid, stored, hmid.trans hstores.region, hsample, heq⟩
    · rename_i hreport
      have hhead : page.sampleHead = page.dataHead := if_neg fun hdue => hreport hdue.2
      split at h
      · rw [Call.exec_bind] at h
        obtain ⟨⟨r, stored⟩, hsample, hlast⟩ := Option.bind_eq_some_iff.mp h
        obtain ⟨rfl, hstores⟩ := writeSample_inv hsample
        cases hlast
        refine ⟨hstores.region, .inr ⟨page, stored, rfl, ?_, ?_⟩⟩
        · rw [hhead]
          exact hstores
        · rw [hhead]
      · cases h
        exact ⟨rfl, .inl hhead.symm⟩

end RingPage

structure Sample where
  pos : UInt64
  payload : Bytes
  size : UInt16
  next : UInt64

/-- `header.size` is how far the head has moved, so a reader that skips by it lands where the
next record goes. -/
structure Sample.Skippable (w : Sample) : Prop where
  sized : w.size.toUInt64 = w.next - w.pos
  lands : w.pos + w.size.toUInt64 = w.next

/-- The SAMPLE of a call of `write_event`: none when the event was counted as lost. -/
def newSamples (page page' : RingPage) (data : Bytes) : List Sample :=
  if page'.dataHead = page.sampleHead then []
  else [⟨page.sampleHead, data, page'.sizeAt page.sampleHead, page'.dataHead⟩]

/-- A page, and every SAMPLE there has been. -/
structure History where
  page : RingPage
  samples : List Sample

namespace History

def start (page : RingPage) : History := ⟨page, []⟩

inductive Step (s s' : History) : Prop where
  | write (data : Bytes) (page : RingPage)
      (effect : (RingPage.writeEvent data).exec s.page = some (.ok (), page))
      (next : s' = ⟨page, s.samples ++ newSamples s.page page data⟩)
  | read (tail : UInt64) (next : s' = ⟨s.page.setDataTail tail, s.samples⟩)

/-- A SAMPLE that fits the region has its length whole in the head and cut to 16 bits in the
header. -/
def Measured (region : Nat) (w : Sample) : Prop :=
  12 + w.payload.length ≤ region →
    w.next = w.pos + .ofNat (RingPage.recordLength region w.pos w.payload) ∧
      w.size = .ofNat (RingPage.recordLength region w.pos w.payload)

theorem Measured.of_write {page page' : RingPage} {data : Bytes}
    (h : (RingPage.writeEvent data).exec page = some (.ok (), page')) {w : Sample}
    (hw : w ∈ newSamples page page' data) : Measured page.region w := by
  obtain ⟨-, hrun⟩ := RingPage.writeEventDepth_inv h
  unfold newSamples at hw
  split at hw
  · cases hw
  rename_i hmoved
  cases List.mem_singleton.mp hw
  rcases hrun with hcounted | ⟨mid, stored, hmid, hstores, heq⟩
  · exact absurd hcounted hmoved
  intro hfits
  have hregion : mid.region = page.region := by
    unfold RingPage.region
    rw [hmid]
  rw [← hregion] at hstores hfits
  have hsize := hstores.sizeAt hfits
  rw [hregion] at hsize
  rw [heq]
  exact ⟨rfl, hsize⟩

structure AllMeasured (page : RingPage) (s : History) : Prop where
  region : s.page.toRegion = page.toRegion
  samples : ∀ w ∈ s.samples, Measured page.region w

theorem AllMeasured.step {page : RingPage} {s s' : History} (h : AllMeasured page s)
    (hstep : Step s s') : AllMeasured page s' := by
  cases hstep with
  | write data page' heffect hnext =>
    subst hnext
    refine ⟨(RingPage.writeEventDepth_inv heffect).1.trans h.region, ?_⟩
    intro w hw
    rcases List.mem_append.mp hw with hold | hnew
    · exact h.samples w hold
    · have hmeasured := Measured.of_write heffect hnew
      have hsame : s.page.region = page.region := by
        unfold RingPage.region
        rw [h.region]
      rw [hsame] at hmeasured
      exact hmeasured
  | read tail hnext =>
    subst hnext
    exact ⟨h.region, h.samples⟩

theorem allMeasured {page : RingPage} {s : History}
    (hs : Machine.Reachable (· = start page) Step s) : AllMeasured page s := by
  refine hs.invariant ?_ fun _ _ h hstep => AllMeasured.step h hstep
  rintro s rfl
  exact ⟨rfl, fun w hw => absurd hw List.not_mem_nil⟩

theorem Measured.skippable_iff {page : RingPage} {w : Sample} (h : Measured page.region w)
    (hfits : 12 + w.payload.length ≤ page.region) :
    w.Skippable ↔ RingPage.recordLength page.region w.pos w.payload < 2 ^ 16 := by
  obtain ⟨hnext, hsize⟩ := h hfits
  have hlt := page.region_lt
  have halign := page.aligned
  have hbelow : RingPage.recordLength page.region w.pos w.payload < 2 ^ 64 := by
    have hfill := fill_lt page.region (w.pos + .ofNat (12 + w.payload.length)).toNat
    unfold RingPage.recordLength
    unfold RingPage.region at *
    omega
  have hmoved : w.next - w.pos = .ofNat (RingPage.recordLength page.region w.pos w.payload) := by
    rw [hnext, UInt64.add_comm, UInt64.add_sub_cancel]
  have hcut : w.size.toUInt64 = w.next - w.pos ↔
      RingPage.recordLength page.region w.pos w.payload < 2 ^ 16 := by
    rw [hmoved, hsize, ← UInt64.toNat_inj, UInt16.toNat_toUInt64, UInt16.toNat_ofNat',
      UInt64.toNat_ofNat', Nat.mod_eq_of_lt hbelow]
    constructor
    · intro heq
      rw [← heq]
      exact Nat.mod_lt _ (by decide)
    · exact Nat.mod_eq_of_lt
  constructor
  · exact fun hskip => hcut.mp hskip.sized
  · intro hshort
    have hsized := hcut.mpr hshort
    refine ⟨hsized, ?_⟩
    rw [hsized, UInt64.add_comm, UInt64.sub_add_cancel]

/-- The first event of a ring is stored at its start when it fits. -/
theorem first_sample {bytes : Nat → UInt8} {size : UInt64} {page : RingPage}
    (hinit : RingPage.init bytes size = some page) {data : Bytes} (hne : 0 < data.length)
    (hfits : 12 + data.length ≤ page.region) :
    ∃ s w, Machine.Reachable (· = start page) Step s ∧ w ∈ s.samples ∧ w.pos = 0 ∧
      w.payload = data := by
  have hlt := page.region_lt
  have halign : page.region % 4096 = 0 := page.aligned
  have hframed := Framed.start hinit
  have hroom : Queue.empty.room page.region (12 + data.length) := by
    have hfree : 0 - 0 + (12 + data.length) ≤ page.region := by omega
    exact decide_eq_true hfree
  have hend : 0 + (12 + data.length) < 2 ^ 64 := by omega
  obtain ⟨page', hexec, hnext⟩ : ∃ page',
      (RingPage.writeEvent data).exec page = some (.ok (), page') ∧
      page'.dataHead = .ofNat (Queue.empty.push page.region (.sample data)).head :=
    ⟨_, hframed.exec_sample hne rfl hroom (.inl hend) 1, rfl⟩
  have hhead : page.sampleHead = 0 := by
    rw [RingPage.sampleHead_of_lost_eq_zero hframed.lost, hframed.head]
    rfl
  have hmoved : ¬ page'.dataHead = page.sampleHead := by
    have hfill := fill_lt page.region (0 + (12 + data.length))
    have hpush : (Queue.empty.push page.region (.sample data)).head =
        12 + data.length + fill page.region (0 + (12 + data.length)) := Nat.zero_add _
    rw [hnext, hhead, hpush, ← UInt64.toNat_inj, UInt64.toNat_ofNat', UInt64.toNat_zero]
    omega
  have hstored : newSamples page page' data =
      [⟨page.sampleHead, data, page'.sizeAt page.sampleHead, page'.dataHead⟩] := if_neg hmoved
  have hstep : Step (start page) ⟨page', [] ++ newSamples page page' data⟩ :=
    .write data page' hexec rfl
  have hstart : Machine.Reachable (· = start page) Step (start page) := .start rfl
  have hrun := hstart.next hstep
  rw [hstored] at hrun
  exact ⟨_, _, hrun, List.mem_singleton_self _, hhead, rfl⟩

/-- The reader finds the next record by `header.size` exactly when header, payload and filler
come to less than 64 KiB. -/
theorem sample_skippable_iff (page : RingPage) (s : History)
    (hs : Machine.Reachable (· = start page) Step s) (w : Sample) (hw : w ∈ s.samples)
    (hfits : 12 + w.payload.length ≤ page.region) :
    w.Skippable ↔ RingPage.recordLength page.region w.pos w.payload < 2 ^ 16 :=
  ((allMeasured hs).samples w hw).skippable_iff hfits

theorem one_byte_skippable :
    ∃ page s w, RingPage.init (fun _ => 0) 8192 = some page ∧
      Machine.Reachable (· = start page) Step s ∧ w ∈ s.samples ∧ w.payload = [7] ∧
      w.Skippable := by
  obtain ⟨page, hinit, hregion⟩ := init_two_pages
  have hfits : 12 + ([7] : Bytes).length ≤ page.region := by
    rw [hregion]
    decide
  obtain ⟨s, w, hs, hw, hpos, hpayload⟩ := first_sample hinit (by decide) hfits
  refine ⟨page, s, w, hinit, hs, hw, hpayload, ?_⟩
  refine (sample_skippable_iff page s hs w hw (by rw [hpayload]; exact hfits)).mpr ?_
  rw [hregion, hpos, hpayload]
  decide

theorem init_seventeen_pages : ∃ page, RingPage.init (fun _ => 0) 69632 = some page ∧
    page.region = 65536 := by
  refine ⟨_, dif_pos ?_, ?_⟩
  · decide
  · rfl

/-- An event of 65524 bytes fills a region of 16 pages, and its header says 0. -/
theorem full_region_not_skippable :
    ∃ page s w, RingPage.init (fun _ => 0) 69632 = some page ∧
      Machine.Reachable (· = start page) Step s ∧ w ∈ s.samples ∧ w.payload.length = 65524 ∧
      12 + w.payload.length ≤ page.region ∧ w.size = 0 ∧ w.next - w.pos = 65536 ∧
      ¬ w.Skippable := by
  obtain ⟨data, hlen⟩ : ∃ data : Bytes, data.length = 65524 := ⟨_, List.length_replicate (a := 0)⟩
  obtain ⟨page, hinit, hregion⟩ := init_seventeen_pages
  have hfits : 12 + data.length ≤ page.region := by omega
  obtain ⟨s, w, hs, hw, hpos, hpayload⟩ := first_sample hinit (by omega) hfits
  have hmeasured := (allMeasured hs).samples w hw
  subst hpayload
  have hlength : RingPage.recordLength page.region w.pos w.payload = 65536 := by
    unfold RingPage.recordLength
    rw [hregion, hpos, hlen]
    decide
  obtain ⟨hnext, hsize⟩ := hmeasured hfits
  rw [hlength] at hnext hsize
  refine ⟨page, s, w, hinit, hs, hw, hlen, hfits, hsize, ?_, ?_⟩
  · rw [hnext, hpos]
    rfl
  · intro hskip
    have hshort := (hmeasured.skippable_iff hfits).mp hskip
    omega

end History

end ExtKtrace.Bpf.Perf
