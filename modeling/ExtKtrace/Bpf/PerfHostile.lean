import ExtKtrace.Bpf.PerfLossOrder
import ExtKtrace.Bpf.PerfRecordLength

/-!
# A perf ring with a hostile reader

`data_tail` is mapped by user space, which may store any value there. `can_write` believes it:
with a tail far ahead of the head the ring seems to have more room than bytes.
-/

namespace ExtKtrace.Bpf.Perf
set_option autoImplicit false

namespace RingPage
variable {page : RingPage}

theorem copyRange_comesBack {start stop : UInt64} {bytes : Bytes} :
    (copyRange start stop bytes).ComesBack page ↔
      start.toNat + bytes.length = stop.toNat ∧ stop.toNat ≤ page.region := by
  constructor
  · rintro ⟨r, page', h⟩
    obtain ⟨-, hlen, -⟩ := copyRange_inv h
    refine ⟨hlen, ?_⟩
    unfold copyRange at h
    rw [Call.exec_bind_ok (Call.exec_self page)] at h
    split at h
    · rename_i hguard
      exact hguard.2.1
    · cases h
  · rintro ⟨hlen, hstop⟩
    exact ⟨_, _, exec_copyRange hlen hstop⟩

/-- The two copies of bytes that run over the end of the region. -/
theorem copyTwice_comesBack {start stop : UInt64} {data : Bytes} (hstart : start.toNat < page.region)
    (hstop : stop.toNat ≤ page.region) :
    (do
      let (first, rest) ← Call.orPanic (splitAt data (page.dataRegionSize - start))
      copyRange start (start + (page.dataRegionSize - start)) first
      copyRange 0 stop rest : Call BpfError RingPage Unit).ComesBack page ↔
        page.region - start.toNat ≤ data.length ∧
          data.length - (page.region - start.toNat) = stop.toNat := by
  have hbelow := page.region_lt
  have hfirst : (page.dataRegionSize - start).toNat = page.region - start.toNat :=
    UInt64.toNat_sub_of_le _ _ (UInt64.le_iff_toNat_le.mpr (Nat.le_of_lt hstart))
  have hwhole : (start + (page.dataRegionSize - start)).toNat = page.region := by
    rw [UInt64.toNat_add, hfirst]
    omega
  unfold splitAt
  rw [Call.comesBack_orPanic_bind, hfirst]
  by_cases hlong : page.region - start.toNat ≤ data.length
  · have hpiece : (data.take (page.region - start.toNat)).length = page.region - start.toNat :=
      List.length_take_of_le hlong
    have hcopy : (copyRange start (start + (page.dataRegionSize - start))
        (data.take (page.region - start.toNat))).exec page = some (.ok (),
          page.stored start.toNat (data.take (page.region - start.toNat))) :=
      exec_copyRange (by omega) (Nat.le_of_eq hwhole)
    have hrest : (copyRange 0 stop (data.drop (page.region - start.toNat))).ComesBack
        (page.stored start.toNat (data.take (page.region - start.toNat))) ↔
          data.length - (page.region - start.toNat) = stop.toNat := by
      rw [copyRange_comesBack, List.length_drop, UInt64.toNat_zero, Nat.zero_add]
      exact and_iff_left hstop
    rw [if_pos hlong]
    constructor
    · rintro ⟨-, ⟨⟩, hrun⟩
      exact ⟨hlong, hrest.mp ((Call.comesBack_bind_ok hcopy).mp hrun)⟩
    · rintro ⟨-, hend⟩
      exact ⟨_, rfl, (Call.comesBack_bind_ok hcopy).mpr (hrest.mpr hend)⟩
  · rw [if_neg hlong]
    constructor
    · rintro ⟨-, ⟨⟩, -⟩
    · exact fun h => absurd h.1 hlong

theorem writeAny_comesBack {data : Bytes} {p : UInt64} :
    (writeAny data p).ComesBack page ↔
      0 < data.length ∧ data.length ≤ page.region ∧ Ends page.region p data.length := by
  have hpos := page.region_pos
  have hstart : (p % page.dataRegionSize).toNat = p.toNat % page.region := UInt64.toNat_mod _ _
  have hstop : ((p + .ofNat data.length) % page.dataRegionSize).toNat =
      (p + .ofNat data.length).toNat % page.region := UInt64.toNat_mod _ _
  have hstartlt : p.toNat % page.region < page.region := Nat.mod_lt _ (by omega)
  have hstoplt : (p + .ofNat data.length).toNat % page.region < page.region :=
    Nat.mod_lt _ (by omega)
  unfold writeAny Ends
  apply Call.comesBack_self_bind.trans
  dsimp only
  rw [← Nat.mod_add_mod p.toNat]
  split
  · rename_i hfits
    rw [UInt64.lt_iff_toNat_lt, hstart, hstop] at hfits
    rw [copyRange_comesBack, hstart, hstop]
    exact (and_iff_left (Nat.le_of_lt hstoplt)).trans (Circular.ends_at_iff_of_lt hfits hstoplt)
  · rename_i hruns
    rw [UInt64.lt_iff_toNat_lt, hstart, hstop, Nat.not_lt] at hruns
    rw [← hstart] at hstartlt
    rw [← hstop] at hstoplt
    apply (copyTwice_comesBack hstartlt (Nat.le_of_lt hstoplt)).trans
    rw [hstart] at hstartlt ⊢
    rw [hstop]
    exact Circular.ends_at_iff_of_le hruns hstartlt

/-- What follows a copy depends on the size of the region alone. -/
theorem writeAny_bind_comesBack {data : Bytes} {p : UInt64} {α : Type}
    {f : Unit → Call BpfError RingPage α} {Q : Prop}
    (hf : ∀ stored : RingPage, stored.toRegion = page.toRegion → ((f ()).ComesBack stored ↔ Q)) :
    (writeAny data p >>= f).ComesBack page ↔ (writeAny data p).ComesBack page ∧ Q := by
  constructor
  · intro h
    obtain ⟨r, stored, hexec⟩ := h.left
    obtain ⟨rfl, hstores⟩ := writeAny_inv hexec
    exact ⟨⟨_, _, hexec⟩, (hf stored hstores.region).mp ((Call.comesBack_bind_ok hexec).mp h)⟩
  · rintro ⟨⟨r, stored, hexec⟩, hq⟩
    obtain ⟨rfl, hstores⟩ := writeAny_inv hexec
    exact (Call.comesBack_bind_ok hexec).mpr ((hf stored hstores.region).mpr hq)

theorem writeLost_comesBack {p : UInt64} :
    (writeLost p).ComesBack page ↔ Ends page.region p 24 := by
  have hpos := page.region_pos
  unfold writeLost
  apply Call.comesBack_self_bind.trans
  dsimp only
  refine (writeAny_bind_comesBack (Q := True) ?_).trans ?_
  · exact fun stored _ => ⟨fun _ => trivial, fun _ => Call.comesBack_pure _ stored⟩
  rw [writeAny_comesBack, length_lostBytes]
  constructor
  · exact fun h => h.1.2.2
  · exact fun h => ⟨⟨by omega, by omega, h⟩, trivial⟩

/-- The place of a SAMPLE at a position: the payload is no longer than the region, and neither
header nor payload runs into the wrap of the positions. -/
structure Holds (region : Nat) (data : Bytes) (p : UInt64) : Prop where
  fits : data.length ≤ region
  header : Ends region p 12
  payload : Ends region (p + sizeOfSampleHeader) data.length

theorem writeSample_comesBack {data : Bytes} {p : UInt64} (hne : 0 < data.length) :
    (writeSample data p).ComesBack page ↔ Holds page.region data p := by
  have hpos := page.region_pos
  unfold writeSample
  apply Call.comesBack_self_bind.trans
  have hpayload : ∀ stored : RingPage, stored.toRegion = page.toRegion →
      ((writeAny data (p + sizeOfSampleHeader)).ComesBack stored ↔
        data.length ≤ page.region ∧ Ends page.region (p + sizeOfSampleHeader) data.length) := by
    intro stored hregion
    have hsame : stored.region = page.region := by
      unfold region
      rw [hregion]
    rw [writeAny_comesBack, hsame]
    exact ⟨fun h => h.2, fun h => ⟨hne, h⟩⟩
  dsimp only
  refine (writeAny_bind_comesBack (Q := data.length ≤ page.region ∧
    Ends page.region (p + sizeOfSampleHeader) data.length) ?_).trans ?_
  · intro stored hregion
    refine (writeAny_bind_comesBack (Q := True) ?_).trans ?_
    · exact fun last _ => ⟨fun _ => trivial, fun _ => Call.comesBack_pure _ last⟩
    · rw [hpayload stored hregion]
      exact and_iff_left trivial
  · rw [writeAny_comesBack, length_sampleHeaderBytes]
    constructor
    · rintro ⟨⟨-, -, hheader⟩, hfits, hends⟩
      exact ⟨hfits, hheader, hends⟩
    · rintro ⟨hfits, hheader, hends⟩
      exact ⟨⟨by omega, by omega, hheader⟩, hfits, hends⟩

/-- `write_event` with `again` in place of its call of itself. -/
def writeEventBody (again : Bytes → Call BpfError RingPage Unit) (data : Bytes) :
    Call BpfError RingPage Unit := do
  let page ← Call.self
  let canWritePerfHeader := page.canWrite sizeOfPerfEventHeader page.dataTail page.dataHead
  if canWritePerfHeader then
    let canWriteLostRecord := page.canWrite sizeOfLostSamples page.dataTail page.dataHead
    if page.lost > 0 && canWriteLostRecord then
      let newDataHead ← writeLost page.dataHead
      Call.update (setDataHead newDataHead)
      Call.update (setLost 0)
      again data
    else
      let sampleSize := calculateSize (.ofNat data.length)
      let canWriteSample := page.canWrite sampleSize page.dataTail page.dataHead
      if canWriteSample then
        let newDataHead ← writeSample data page.dataHead
        Call.update (setDataHead newDataHead)
      else
        Call.update (setLost (page.lost + 1))
  else
    Call.update (setLost (page.lost + 1))

theorem writeEventDepth_succ (depth : Nat) (data : Bytes) :
    writeEventDepth (depth + 1) data = writeEventBody (writeEventDepth depth) data := rfl

section
variable {data : Bytes} {again again' : Bytes → Call BpfError RingPage Unit}

theorem writeEventBody_quiet (hquiet : page.reports = false) :
    (writeEventBody again data).exec page = (writeEventBody again' data).exec page := by
  unfold reports at hquiet
  unfold writeEventBody
  rw [Call.exec_bind_ok (Call.exec_self page), Call.exec_bind_ok (Call.exec_self page)]
  dsimp only
  rw [hquiet]
  rfl

/-- Behind a LOST record there is nothing to report. -/
theorem writeEventBody_report (hreport : page.reports = true) :
    (writeEventBody again data).exec page =
      ((writeLost page.dataHead >>= fun newDataHead => do
        Call.update (setDataHead newDataHead)
        Call.update (setLost 0)
        again data) : Call BpfError RingPage Unit).exec page := by
  have hheader := header_of_reports hreport
  unfold reports at hreport
  unfold writeEventBody
  rw [Call.exec_bind_ok (Call.exec_self page)]
  dsimp only
  rw [hheader, hreport]
  rfl

/-- The call within the call is the last one: what another one would do makes no difference. -/
theorem writeEvent_terminates (again : Bytes → Call BpfError RingPage Unit) :
    (writeEventBody (writeEventBody again) data).exec page = (writeEvent data).exec page := by
  unfold writeEvent
  rw [writeEventDepth_succ]
  cases hreport : page.reports with
  | false => exact writeEventBody_quiet hreport
  | true =>
    rw [writeEventBody_report hreport, writeEventBody_report hreport, Call.exec_bind,
      Call.exec_bind]
    apply congrArg
    funext ⟨r, reported⟩
    cases r with
    | error e => rfl
    | ok newDataHead => exact writeEventBody_quiet rfl

/-- There is room for the event at the head that the call comes to it with. -/
def admits (page : RingPage) (data : Bytes) : Bool :=
  page.canWrite sizeOfPerfEventHeader page.dataTail page.sampleHead &&
    page.canWrite (calculateSize (.ofNat data.length)) page.dataTail page.sampleHead

/-- The records that the free space admits lie in the region. -/
structure Survives (page : RingPage) (data : Bytes) : Prop where
  report : page.reports = true → Ends page.region page.dataHead 24
  sample : page.admits data = true → Holds page.region data page.sampleHead

theorem sampleHead_of_quiet (hquiet : page.reports = false) : page.sampleHead = page.dataHead := by
  refine if_neg ?_
  rintro ⟨-, hdue⟩
  cases hquiet.symm.trans hdue

theorem writeEventBody_comesBack (hne : 0 < data.length) (hquiet : page.reports = false) :
    (writeEventBody again data).ComesBack page ↔
      (page.admits data = true → Holds page.region data page.dataHead) := by
  unfold admits
  rw [sampleHead_of_quiet hquiet]
  unfold reports at hquiet
  unfold writeEventBody
  apply Call.comesBack_self_bind.trans
  dsimp only
  rw [hquiet]
  cases page.canWrite sizeOfPerfEventHeader page.dataTail page.dataHead with
  | false =>
    constructor
    · rintro - ⟨⟩
    · exact fun _ => Call.comesBack_update _ _
  | true =>
    cases page.canWrite (calculateSize (.ofNat data.length)) page.dataTail page.dataHead with
    | false =>
      constructor
      · rintro - ⟨⟩
      · exact fun _ => Call.comesBack_update _ _
    | true =>
      constructor
      · exact fun h _ => (writeSample_comesBack hne).mp h.left
      · intro h
        obtain ⟨r, stored, hexec⟩ := (writeSample_comesBack hne).mpr (h rfl)
        obtain ⟨rfl, -⟩ := writeSample_inv hexec
        exact (Call.comesBack_bind_ok hexec).mpr (Call.comesBack_update _ _)

theorem writeEvent_comesBack (hne : 0 < data.length) :
    (writeEvent data).ComesBack page ↔ Survives page data := by
  unfold writeEvent
  rw [writeEventDepth_succ]
  cases hreport : page.reports with
  | false =>
    rw [writeEventBody_comesBack hne hreport]
    constructor
    · intro h
      constructor
      · intro hdue
        cases hreport.symm.trans hdue
      · rw [sampleHead_of_quiet hreport]
        exact h
    · intro h
      have hsample := h.sample
      rw [sampleHead_of_quiet hreport] at hsample
      exact hsample
  | true =>
    have hhead : page.sampleHead = page.dataHead + sizeOfLostSamples +
        page.fillSize ((page.dataHead + sizeOfLostSamples) % page.dataRegionSize) :=
      if_pos ⟨header_of_reports hreport, hreport⟩
    -- the report moves the head and the counter, and nothing else that counts
    have hnext : ∀ bytes p,
        (writeEventDepth 1 data).ComesBack
          (((page.stored p bytes).setDataHead page.sampleHead).setLost 0) ↔
        (page.admits data = true → Holds page.region data page.sampleHead) := by
      intro bytes p
      have hquiet : (((page.stored p bytes).setDataHead page.sampleHead).setLost 0).reports =
          false := rfl
      have hbody : (writeEventDepth 1 data).ComesBack _ ↔ _ := writeEventBody_comesBack hne hquiet
      unfold admits at hbody
      rw [sampleHead_of_quiet hquiet] at hbody
      exact hbody
    unfold Call.ComesBack
    rw [writeEventBody_report hreport]
    constructor
    · intro hrun
      obtain ⟨r, reported, hexec⟩ := Call.ComesBack.left hrun
      obtain ⟨rfl, bytes, -, hstores⟩ := writeLost_inv hexec
      have hback := (Call.comesBack_bind_ok hexec).mp hrun
      rw [← hhead, Call.comesBack_update_bind, Call.comesBack_update_bind, hstores.stored] at hback
      exact ⟨fun _ => writeLost_comesBack.mp ⟨_, _, hexec⟩, (hnext _ _).mp hback⟩
    · intro h
      obtain ⟨r, reported, hexec⟩ := writeLost_comesBack.mpr (h.report hreport)
      obtain ⟨rfl, bytes, -, hstores⟩ := writeLost_inv hexec
      apply (Call.comesBack_bind_ok hexec).mpr
      rw [← hhead, Call.comesBack_update_bind, Call.comesBack_update_bind, hstores.stored]
      exact (hnext _ _).mpr h.sample

end

theorem writeAny_infallible (data : Bytes) (p : UInt64) : (writeAny data p).Infallible := by
  have hcopy : ∀ start stop bytes, (copyRange start stop bytes).Infallible := by
    intro start stop bytes
    unfold copyRange
    exact .bind .self fun page => .ite (.update _) .stuck
  unfold writeAny
  refine .bind .self fun page => .ite (hcopy _ _ _) ?_
  exact .bind (.orPanic _) fun pieces => .bind (hcopy _ _ _) fun _ => hcopy _ _ _

theorem writeEventDepth_infallible (depth : Nat) (data : Bytes) :
    (writeEventDepth depth data).Infallible := by
  induction depth with
  | zero => exact .stuck
  | succ depth ih =>
    unfold writeEventDepth writeLost writeSample
    refine .bind .self fun page => .ite (.ite ?_ (.ite ?_ (.update _))) (.update _)
    · refine .bind ?_ fun newDataHead => .bind (.update _) fun _ => .bind (.update _) fun _ => ih
      exact .bind .self fun _ => .bind (writeAny_infallible _ _) fun _ => .pure _
    · refine .bind ?_ fun newDataHead => .update _
      refine .bind .self fun _ => .bind (writeAny_infallible _ _) fun _ => ?_
      exact .bind (writeAny_infallible _ _) fun _ => .pure _

/-- The size, the tail, and the memory behind the data region. -/
def surroundings (page : RingPage) : Region × UInt64 × (Nat → UInt8) :=
  (page.toRegion, page.dataTail, fun i => page.data (page.region + i))

theorem copyRange_keeps (start stop : UInt64) (bytes : Bytes) :
    Call.Keeps surroundings (copyRange start stop bytes) := by
  unfold copyRange
  refine .bind .self fun page => .ite ?_ .stuck
  apply Call.Keeps.update
  intro stored
  have hpos := stored.region_pos
  have hbehind : ∀ i, Circular.write stored.region stored.data start.toNat bytes
      (stored.region + i) = stored.data (stored.region + i) := by
    intro i
    apply Circular.write_of_not_covers
    rintro ⟨k, -, hk⟩
    have hlt := Nat.mod_lt (start.toNat + k) (show 0 < stored.region by omega)
    omega
  exact congrArg (fun behind => (stored.toRegion, stored.dataTail, behind)) (funext hbehind)

theorem writeAny_keeps (data : Bytes) (p : UInt64) : Call.Keeps surroundings (writeAny data p) := by
  unfold writeAny
  refine .bind .self fun page => .ite (copyRange_keeps _ _ _) ?_
  refine .bind (.orPanic _) fun pieces => ?_
  exact .bind (copyRange_keeps _ _ _) fun _ => copyRange_keeps _ _ _

theorem writeEventDepth_keeps (depth : Nat) (data : Bytes) :
    Call.Keeps surroundings (writeEventDepth depth data) := by
  induction depth with
  | zero => exact .stuck
  | succ depth ih =>
    unfold writeEventDepth writeLost writeSample
    refine .bind .self fun page => .ite (.ite ?_ (.ite ?_ ?_)) ?_
    · refine .bind ?_ fun newDataHead => ?_
      · exact .bind .self fun _ => .bind (writeAny_keeps _ _) fun _ => .pure _
      · exact .bind (.update fun _ => rfl) fun _ => .bind (.update fun _ => rfl) fun _ => ih
    · refine .bind ?_ fun newDataHead => .update fun _ => rfl
      refine .bind .self fun _ => .bind (writeAny_keeps _ _) fun _ => ?_
      exact .bind (writeAny_keeps _ _) fun _ => .pure _
    · exact .update fun _ => rfl
    · exact .update fun _ => rfl

/-- The memory from the control page on: the two positions at bytes 1024 and 1032 of it, and the
data region behind. -/
def memory (control : Nat → UInt8) (page : RingPage) (i : Nat) : UInt8 :=
  if 1024 ≤ i ∧ i < 1032 then (Endian.toLe 8 page.dataHead.toNat).getD (i - 1024) 0
  else if 1032 ≤ i ∧ i < 1040 then (Endian.toLe 8 page.dataTail.toNat).getD (i - 1032) 0
  else if i < 4096 then control i
  else page.data (i - 4096)

/-- The bytes of `data_head` and of the data region. -/
def Writable (page : RingPage) (i : Nat) : Prop :=
  (1024 ≤ i ∧ i < 1032) ∨ (4096 ≤ i ∧ i < 4096 + page.region)

/-- Of the memory nothing else has changed. -/
def Confined (page page' : RingPage) : Prop :=
  ∀ control i, ¬ page.Writable i → memory control page' i = memory control page i

theorem confined_of_keeps {page' : RingPage} (h : page'.surroundings = page.surroundings) :
    Confined page page' := by
  have hregion : page'.toRegion = page.toRegion := congrArg Prod.fst h
  have htail : page'.dataTail = page.dataTail := congrArg (fun s => s.2.1) h
  have hsame : page'.region = page.region := by
    unfold region
    rw [hregion]
  intro control i hi
  unfold Writable at hi
  unfold memory
  rw [htail]
  split
  · rename_i hhead
    exact absurd (.inl hhead) hi
  · split
    · rfl
    · split
      · rfl
      · have hbehind : page'.data (page'.region + (i - 4096 - page.region)) =
            page.data (page.region + (i - 4096 - page.region)) :=
          congrFun (congrArg (fun s => s.2.2) h) _
        have hat : page.region + (i - 4096 - page.region) = i - 4096 := by omega
        rw [hsame, hat] at hbehind
        exact hbehind

end RingPage

namespace Hostile

/-- The program writes an event that is not empty, or user space stores a tail. -/
inductive Input where
  | write (data : { data : Bytes // 0 < data.length })
  | poke (tail : UInt64)

def step (page : RingPage) : Input → Option (Except BpfError Unit × RingPage)
  | .write data => (RingPage.writeEvent data.1).exec page
  | .poke tail => some (.ok (), page.setDataTail tail)

/-- What is asked of a step that comes back: `write_event` succeeds, does not call itself again
and again, and keeps to its part of the memory. -/
def Safe (page : RingPage) (i : Input) (r : Except BpfError Unit) (page' : RingPage) : Prop :=
  match i with
  | .write data => r = .ok () ∧ page.Confined page' ∧
      ∀ again, (RingPage.writeEventBody (RingPage.writeEventBody again) data.1).exec page =
        some (r, page')
  | .poke _ => True

/-- The condition on the page before a write. -/
def Admissible (page : RingPage) (i : Input) : Prop :=
  match i with
  | .write data => RingPage.Survives page data.1
  | .poke _ => True

theorem step_safe_iff (page : RingPage) (i : Input) :
    (∃ r page', step page i = some (r, page') ∧ Safe page i r page') ↔ Admissible page i := by
  cases i with
  | poke tail => exact ⟨fun _ => trivial, fun _ => ⟨_, _, rfl, trivial⟩⟩
  | write data =>
    apply Iff.trans _ (RingPage.writeEvent_comesBack data.2)
    constructor
    · rintro ⟨r, page', hstep, -⟩
      exact ⟨r, page', hstep⟩
    · rintro ⟨r, page', hexec⟩
      have hok : r = .ok () := by
        cases r with
        | ok _ => rfl
        | error e => exact absurd ⟨e, page', hexec⟩ (RingPage.writeEventDepth_infallible 2 data.1 page)
      refine ⟨r, page', hexec, hok, ?_, ?_⟩
      · exact RingPage.confined_of_keeps (RingPage.writeEventDepth_keeps 2 data.1 page r page' hexec)
      · intro again
        rw [RingPage.writeEvent_terminates again]
        exact hexec

/-- Whatever is stored in `data_tail` between the calls, a run of `write_event` neither panics
nor writes elsewhere, exactly as long as what the free space admits lies in the region. -/
theorem hostile_run_safe_iff (page : RingPage) (run : List Input) :
    Machine.AllSteps step Safe page run ↔ Machine.Along step Admissible page run :=
  Machine.allSteps_iff_along step_safe_iff run page

/-- With the tail a region ahead, 5000 bytes seem to fit a region of 4096. -/
theorem tail_ahead_panics : ∃ page data, RingPage.init (fun _ => 0) 8192 = some page ∧
    data.1.length = 5000 ∧ (RingPage.writeEvent data.1).exec (page.setDataTail 4096) = none ∧
    ¬ Machine.AllSteps step Safe page [.poke 4096, .write data] := by
  obtain ⟨bytes, hlen⟩ : ∃ bytes : Bytes, bytes.length = 5000 := ⟨_, List.length_replicate (a := 0)⟩
  obtain ⟨data, rfl⟩ : ∃ data : { data : Bytes // 0 < data.length }, data.1 = bytes :=
    ⟨⟨bytes, by omega⟩, rfl⟩
  obtain ⟨page, hinit, hregion⟩ := init_two_pages
  have hframed := Framed.start hinit
  have hsize : page.dataRegionSize = 4096 := UInt64.toNat_inj.mp hregion
  have hhead : page.dataHead = 0 := hframed.head
  have hlost : (page.setDataTail 4096).lost = 0 := hframed.lost
  have hquiet : (page.setDataTail 4096).sampleHead = 0 :=
    (RingPage.sampleHead_of_lost_eq_zero hlost).trans hhead
  have hroom : ∀ n : UInt64, n ≤ 8192 → (page.setDataTail 4096).canWrite n 4096 0 = true := by
    intro n hn
    have hcapacity : (4096 : UInt64) - 0 + 4096 = 8192 := by decide
    have hsize' : (page.setDataTail 4096).dataRegionSize = 4096 := hsize
    unfold RingPage.canWrite
    rw [hsize', hcapacity, decide_eq_true_iff]
    exact hn
  have hadmits : (page.setDataTail 4096).admits data.1 = true := by
    unfold RingPage.admits
    rw [hquiet, hlen]
    exact Bool.and_eq_true_iff.mpr ⟨hroom _ (by decide), hroom _ (by decide)⟩
  have hpanics : (RingPage.writeEvent data.1).exec (page.setDataTail 4096) = none := by
    cases hexec : (RingPage.writeEvent data.1).exec (page.setDataTail 4096) with
    | none => rfl
    | some result =>
      have hfits := (((RingPage.writeEvent_comesBack data.2).mp ⟨_, _, hexec⟩).sample hadmits).fits
      have hshort : data.1.length ≤ page.region := hfits
      omega
  refine ⟨page, data, hinit, hlen, hpanics, ?_⟩
  rintro ⟨r, page₁, hpoke, -, r', page₂, hwrite, -⟩
  cases hpoke
  cases hpanics.symm.trans hwrite

end Hostile

end ExtKtrace.Bpf.Perf
