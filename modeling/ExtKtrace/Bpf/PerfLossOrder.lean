import ExtKtrace.Bpf.PerfRingConserved
import ExtKtrace.Lib.Past

/-!
# Losses and later samples

`write_event` means to report losses before it stores another event, but it asks for the room of
the two records one after the other. An event of less than twelve bytes fits where the report
does not.
-/

namespace ExtKtrace.Bpf.Perf
set_option autoImplicit false

namespace RingPage

variable {page : RingPage}

/-- A reader leaves the counter alone. -/
theorem consume_lost {page' : RingPage} (h : page.consume = some page') : page'.lost = page.lost := by
  unfold consume at h
  split at h
  · cases h
  · obtain ⟨hdr, -, rfl⟩ := Option.map_eq_some_iff.mp h
    rfl

end RingPage

/-- A call of `write_event`, with the pages before and after it. -/
structure Write where
  page : RingPage
  data : Bytes
  after : RingPage

inductive Mark where
  | record (r : PerfRecord)
  /-- an event that was not stored -/
  | gap

namespace Mark

def IsGap (m : Mark) : Prop := m = .gap
def IsLost (m : Mark) : Prop := ∃ count, m = .record (.lost count)
def IsSample (m : Mark) : Prop := ∃ data, m = .record (.sample data)

/-- A call that has appended no SAMPLE leaves a gap. -/
def ofCall (appended : List PerfRecord) : List Mark :=
  appended.map .record ++ if appended.any PerfRecord.isSample then [] else [.gap]

end Mark

/-- There is a gap that no LOST record has reported. -/
def Unreported (l : List Mark) : Prop := Past.Since Mark.IsGap Mark.IsLost l

/-- Between a gap and any later SAMPLE there is a LOST record. -/
def GapsReported (l : List Mark) : Prop := Past.Answered Mark.IsGap Mark.IsLost Mark.IsSample l

section
variable (l : List Mark)

theorem unreported_sample (data : Bytes) :
    Unreported (l ++ [.record (.sample data)]) ↔ Unreported l := by
  apply (Past.since_concat l _).trans
  constructor
  · rintro (h | ⟨h, -⟩)
    · cases h
    · exact h
  · intro h
    refine .inr ⟨h, ?_⟩
    rintro ⟨count, hlost⟩
    cases hlost

theorem not_unreported_lost (count : UInt64) : ¬ Unreported (l ++ [.record (.lost count)]) := by
  intro h
  rcases (Past.since_concat l _).mp h with hgap | ⟨-, hnot⟩
  · cases hgap
  · exact hnot ⟨count, rfl⟩

theorem gapsReported_sample (data : Bytes) :
    GapsReported (l ++ [.record (.sample data)]) ↔ GapsReported l ∧ ¬ Unreported l := by
  apply (Past.answered_concat l _).trans
  constructor
  · rintro ⟨hold, hlast⟩
    exact ⟨hold, hlast ⟨data, rfl⟩⟩
  · rintro ⟨hold, hlast⟩
    exact ⟨hold, fun _ => hlast⟩

/-- Only a SAMPLE can break the order. -/
theorem gapsReported_concat {m : Mark} (hm : ¬ m.IsSample) :
    GapsReported (l ++ [m]) ↔ GapsReported l := by
  apply (Past.answered_concat l m).trans
  constructor
  · exact fun h => h.1
  · exact fun h => ⟨h, fun hsample => absurd hsample hm⟩

theorem gapsReported_lost (count : UInt64) :
    GapsReported (l ++ [.record (.lost count)]) ↔ GapsReported l := by
  apply gapsReported_concat
  rintro ⟨data, h⟩
  cases h

theorem gapsReported_gap : GapsReported (l ++ [.gap]) ↔ GapsReported l := by
  apply gapsReported_concat
  rintro ⟨data, h⟩
  cases h

variable {l}

/-- A call that keeps the order leaves a counter that tells of the gaps not reported yet. -/
theorem Mark.ofCall_reported {page : RingPage} {data : Bytes} {appended : List PerfRecord}
    {lost : UInt64} (hpending : Unreported l → page.lost ≠ 0) (hreported : GapsReported l)
    (hout : RingPage.Outcome page data appended lost)
    (horder : (∃ payload, .sample payload ∈ appended) → lost = 0)
    (hround : page.reports = false → page.accepts data = false → page.lost + 1 ≠ 0) :
    (Unreported (l ++ ofCall appended) → lost ≠ 0) ∧ GapsReported (l ++ ofCall appended) := by
  cases hout with
  | stored hquiet hfits =>
    have hzero : page.lost = 0 := horder ⟨_, List.mem_singleton_self _⟩
    have hnone : ¬ Unreported l := fun hgap => hpending hgap hzero
    constructor
    · exact fun hgap => absurd ((unreported_sample l data).mp hgap) hnone
    · exact (gapsReported_sample l data).mpr ⟨hreported, hnone⟩
  | counted hquiet hfull =>
    constructor
    · exact fun _ => hround hquiet hfull
    · exact (gapsReported_gap l).mpr hreported
  | reportedStored hreport =>
    have hmarks : l ++ ofCall [.lost page.lost, .sample data] =
        l ++ [.record (.lost page.lost)] ++ [.record (.sample data)] :=
      (List.append_assoc l [.record (.lost page.lost)] [.record (.sample data)]).symm
    have hnone := not_unreported_lost l page.lost
    rw [hmarks]
    constructor
    · exact fun hgap => absurd ((unreported_sample _ data).mp hgap) hnone
    · exact (gapsReported_sample _ data).mpr ⟨(gapsReported_lost l _).mpr hreported, hnone⟩
  | reportedCounted hreport =>
    have hmarks : l ++ ofCall [.lost page.lost] = l ++ [.record (.lost page.lost)] ++ [.gap] :=
      (List.append_assoc l [.record (.lost page.lost)] [.gap]).symm
    rw [hmarks]
    constructor
    · rintro - hzero
      cases hzero
    · exact (gapsReported_gap _).mpr ((gapsReported_lost l _).mpr hreported)

end

namespace Write

/-- What a reader finds behind the old head. -/
def found (w : Write) : Option (List PerfRecord) := w.after.recordsFrom w.page.dataHead

def appended (w : Write) : List PerfRecord := w.found.getD []

def marks (w : Write) : List Mark := Mark.ofCall w.appended

/-- When a SAMPLE is appended the counter is 0. A SAMPLE is the last record of a call, and
storing it leaves the counter alone. -/
def InOrder (w : Write) : Prop := (∃ payload, .sample payload ∈ w.appended) → w.after.lost = 0

/-- The event fits where the report of the losses before it does not. -/
def Overtakes (w : Write) : Prop :=
  0 < w.page.lost.toNat ∧ 12 + w.data.length ≤ w.page.free ∧ w.page.free < 24

/-- The counter comes round to 0. -/
def Wraps (w : Write) : Prop :=
  w.page.lost.toNat + 1 = 2 ^ 64 ∧ w.page.free < 12 + w.data.length ∧ w.page.free < 24

/-- The records of a call come back, and they are what `write_event` has to append. -/
structure Recorded (w : Write) : Prop where
  short : w.data.length ≤ 65516
  found : w.found.isSome
  outcome : RingPage.Outcome w.page w.data w.appended w.after.lost

theorem recorded_of_found {w : Write} {new : List PerfRecord} (hlen : w.data.length ≤ 65516)
    (hfound : w.found = some new) (hout : RingPage.Outcome w.page w.data new w.after.lost) :
    w.Recorded := by
  refine ⟨hlen, Option.isSome_of_eq_some hfound, ?_⟩
  unfold appended
  rw [hfound]
  exact hout

theorem Recorded.inOrder_iff {w : Write} (h : w.Recorded) : w.InOrder ↔ ¬ w.Overtakes := by
  have hlen : 12 + w.data.length < 2 ^ 64 := by
    have hshort := h.short
    omega
  have hfits : w.page.accepts w.data = true ↔ 12 + w.data.length ≤ w.page.free :=
    RingPage.accepts_iff hlen
  have hreports : w.page.reports = true ↔ 0 < w.page.lost.toNat ∧ 24 ≤ w.page.free :=
    RingPage.reports_iff
  have hout := h.outcome
  unfold InOrder Overtakes
  generalize w.appended = appended, w.after.lost = lost at hout
  cases hout with
  | stored hquiet haccepts =>
    rw [hquiet] at hreports
    rw [haccepts] at hfits
    have hroom := hfits.mp rfl
    constructor
    · intro hzero
      have hlost : w.page.lost = 0 := hzero ⟨_, List.mem_singleton_self _⟩
      rw [hlost]
      rintro ⟨hpos, -⟩
      exact absurd hpos (Nat.lt_irrefl 0)
    · intro hnot _
      by_contra hne
      have hpos : 0 < w.page.lost.toNat := by
        apply Nat.pos_of_ne_zero
        exact fun hzero => hne (UInt64.toNat_inj.mp hzero)
      have hshort : ¬ 24 ≤ w.page.free := fun hlong => by cases hreports.mpr ⟨hpos, hlong⟩
      exact hnot ⟨hpos, hroom, by omega⟩
  | counted hquiet hfull =>
    rw [hfull] at hfits
    constructor
    · rintro - ⟨-, hroom, -⟩
      cases hfits.mpr hroom
    · rintro - ⟨payload, hmem⟩
      cases hmem
  | reportedStored hreport =>
    have hroom := (hreports.mp hreport).2
    constructor
    · rintro - ⟨-, -, hshort⟩
      omega
    · exact fun _ _ => rfl
  | reportedCounted hreport =>
    have hroom := (hreports.mp hreport).2
    constructor
    · rintro - ⟨-, -, hshort⟩
      omega
    · rintro - ⟨payload, hmem⟩
      cases List.mem_singleton.mp hmem

/-- Where an event that is lost takes the counter to 0, it was at its largest. -/
theorem wraps_of_counted {w : Write} (hlen : 12 + w.data.length < 2 ^ 64)
    (hquiet : w.page.reports = false) (hfull : w.page.accepts w.data = false)
    (hround : w.page.lost + 1 = 0) : w.Wraps := by
  have hlast : w.page.lost.toNat + 1 = 2 ^ 64 := by
    have hsum := congrArg UInt64.toNat hround
    rw [UInt64.toNat_add] at hsum
    have hlt := w.page.lost.toNat_lt
    have hone : (1 : UInt64).toNat = 1 := rfl
    have hnil : (0 : UInt64).toNat = 0 := rfl
    omega
  refine ⟨hlast, ?_, ?_⟩
  · apply Nat.lt_of_not_le
    intro hroom
    cases hfull.symm.trans ((RingPage.accepts_iff hlen).mpr hroom)
  · apply Nat.lt_of_not_le
    intro hroom
    cases hquiet.symm.trans (RingPage.reports_iff.mpr ⟨by omega, hroom⟩)

end Write

/-- A page, and the calls of `write_event` so far. -/
structure Stream where
  page : RingPage
  writes : List Write

namespace Stream

def start (page : RingPage) : Stream := ⟨page, []⟩

/-- The program writes events, the reader passes records one by one. -/
inductive Step : Stream → Stream → Prop
  | write (s : Stream) (data : Bytes) (valid : 0 < data.length ∧ data.length ≤ 65516)
      (page : RingPage) (effect : (RingPage.writeEvent data).exec s.page = some (.ok (), page)) :
      Step s ⟨page, s.writes ++ [⟨s.page, data, page⟩]⟩
  | read (s : Stream) (page : RingPage) (effect : s.page.consume = some page) :
      Step s { s with page := page }

def marks (s : Stream) : List Mark := s.writes.flatMap Write.marks

/-- No event has overtaken a report, and the counter has not come round. -/
def Sound (s : Stream) : Prop := ∀ w ∈ s.writes, ¬ w.Overtakes ∧ ¬ w.Wraps

theorem marks_append (page : RingPage) (writes : List Write) (w : Write) :
    marks ⟨page, writes ++ [w]⟩ = writes.flatMap Write.marks ++ w.marks := by
  unfold marks
  rw [List.flatMap_append, List.flatMap_singleton]

/-- A gap not reported yet is in the counter. -/
structure Tracked (s : Stream) : Prop where
  pending : Unreported s.marks → s.page.lost ≠ 0
  reported : GapsReported s.marks

theorem Tracked.write {s : Stream} {page : RingPage} {data : Bytes} (h : Tracked s)
    (hrecorded : Write.Recorded ⟨s.page, data, page⟩)
    (hovertakes : ¬ Write.Overtakes ⟨s.page, data, page⟩)
    (hwraps : ¬ Write.Wraps ⟨s.page, data, page⟩) :
    Tracked ⟨page, s.writes ++ [⟨s.page, data, page⟩]⟩ := by
  have hlen : 12 + data.length < 2 ^ 64 := by
    have hshort : data.length ≤ 65516 := hrecorded.short
    omega
  have horder := hrecorded.inOrder_iff.mpr hovertakes
  obtain ⟨hpending, hreported⟩ := Mark.ofCall_reported h.pending h.reported hrecorded.outcome horder
    fun hquiet hfull hround => hwraps (Write.wraps_of_counted hlen hquiet hfull hround)
  constructor
  · rw [marks_append]
    exact hpending
  · rw [marks_append]
    exact hreported

/-- The ring holds a queue, every write did what `write_event` does, and as long as the run is
sound, gaps are tracked. -/
structure Kept (s : Stream) : Prop where
  framed : ∃ q, Framed s.page q
  recorded : ∀ w ∈ s.writes, w.Recorded
  tracked : s.Sound → Tracked s

theorem Kept.step {s s' : Stream} (h : Kept s) (hstep : Step s s') : Kept s' := by
  obtain ⟨⟨q, hframed⟩, hrecorded, htracked⟩ := h
  cases hstep with
  | write data hvalid page heffect =>
    obtain ⟨q', new, hframed', -, hfound, hout⟩ := hframed.outcome hvalid heffect
    have hnew : Write.Recorded ⟨s.page, data, page⟩ :=
      Write.recorded_of_found hvalid.2 hfound hout
    refine ⟨⟨q', hframed'⟩, ?_, ?_⟩
    · intro w hw
      rcases List.mem_append.mp hw with hold | hlast
      · exact hrecorded w hold
      · exact List.mem_singleton.mp hlast ▸ hnew
    · intro hsound
      have hbefore : s.Sound := fun w hw => hsound w (List.mem_append_left _ hw)
      obtain ⟨hovertakes, hwraps⟩ := hsound _ List.mem_concat_self
      exact (htracked hbefore).write hnew hovertakes hwraps
  | read page heffect =>
    have hlost : page.lost = s.page.lost := RingPage.consume_lost heffect
    refine ⟨?_, hrecorded, ?_⟩
    · cases hunread : q.unread with
      | nil =>
        rw [hframed.consume_nil hunread] at heffect
        cases heffect
      | cons e rest =>
        rw [hframed.consume_eq hunread] at heffect
        cases heffect
        exact ⟨_, hframed.read hunread⟩
    · intro hsound
      have hold := htracked hsound
      exact ⟨fun hgap => hlost ▸ hold.pending hgap, hold.reported⟩

/-- What a call appends can be read at the head it found. A SAMPLE is appended with the counter
at 0 exactly as long as no event of less than twelve bytes meets a loss with room for it and
none for the report; then, and until the counter comes round, every gap is reported before the
next SAMPLE. -/
theorem losses_before_samples (bytes : Nat → UInt8) (size : UInt64) (page : RingPage)
    (hinit : RingPage.init bytes size = some page) (s : Stream)
    (hs : Machine.Reachable (· = start page) Step s) :
    (∀ w ∈ s.writes, w.found.isSome) ∧
      ((∀ w ∈ s.writes, w.InOrder) ↔ ∀ w ∈ s.writes, ¬ w.Overtakes) ∧
      (s.Sound → GapsReported s.marks) := by
  have hkept : Kept s := by
    refine hs.invariant ?_ fun _ _ h hstep => Kept.step h hstep
    rintro s₀ rfl
    refine ⟨⟨_, Framed.start hinit⟩, ?_, ?_⟩
    · rintro w ⟨⟩
    · exact fun _ => ⟨fun hgap => absurd hgap Past.not_since_nil, Past.answered_nil⟩
  refine ⟨fun w hw => (hkept.recorded w hw).found, ?_, fun hsound => (hkept.tracked hsound).reported⟩
  exact forall₂_congr fun w hw => (hkept.recorded w hw).inOrder_iff

section
variable {first second : Bytes} {page₀ page₁ page₂ page₃ page₄ : RingPage}

/-- The writes of a run that catches up, by what is found in the ring. -/
theorem found_of_catchesUp (h : CatchesUp first second page₀ page₁ page₂ page₃ page₄) :
    Write.found ⟨page₀, first, page₁⟩ = some [.sample first] ∧
      Write.found ⟨page₁, second, page₂⟩ = some [] ∧
      Write.found ⟨page₃, second, page₄⟩ = some [.lost 1, .sample second] := by
  have hstart := (Framed.start h.init).head
  refine ⟨?_, ?_, ?_⟩
  · have hhead : page₀.dataHead = page₁.dataTail := hstart.trans h.full.tail.symm
    unfold Write.found
    rw [hhead]
    exact h.full.parse
  · have hhead : page₁.dataHead = page₂.dataHead := h.full.head.trans h.losing.head.symm
    unfold Write.found RingPage.recordsFrom
    rw [hhead, UInt64.sub_self]
    exact if_pos rfl
  · have hhead : page₃.dataHead = page₄.dataTail := h.passed.head.trans h.caught.tail.symm
    unfold Write.found
    rw [hhead]
    exact h.caught.parse

theorem losses_before_samples_caught_up : ∃ (page : RingPage) (s : Stream) (first second : Bytes),
    RingPage.init (fun _ => 0) 8192 = some page ∧
      s.marks = [.record (.sample first), .gap, .record (.lost 1), .record (.sample second)] ∧
      (∀ w ∈ s.writes, w.InOrder) ∧ GapsReported s.marks := by
  obtain ⟨first, hfirst⟩ : ∃ data : Bytes, data.length = 4068 := ⟨_, List.length_replicate (a := 0)⟩
  obtain ⟨second, hsecond⟩ : ∃ data : Bytes, data.length = 100 := ⟨_, List.length_replicate (a := 0)⟩
  obtain ⟨page₀, page₁, page₂, page₃, page₄, h⟩ := exists_catchesUp hfirst hsecond
  have hreach : Machine.Reachable (· = start page₀) Step ⟨page₄, [⟨page₀, first, page₁⟩,
      ⟨page₁, second, page₂⟩, ⟨page₃, second, page₄⟩]⟩ := by
    have hstart : Machine.Reachable (· = start page₀) Step (start page₀) := .start rfl
    have hlost := (hstart.next (.write _ first ⟨by omega, by omega⟩ page₁ h.store)).next
      (.write _ second ⟨by omega, by omega⟩ page₂ h.refuse)
    exact (hlost.next (.read _ page₃ h.pass)).next
      (.write _ second ⟨by omega, by omega⟩ page₄ h.report)
  have hsound : Sound ⟨page₄, [⟨page₀, first, page₁⟩, ⟨page₁, second, page₂⟩,
      ⟨page₃, second, page₄⟩]⟩ := by
    have hquiet : ∀ {page : RingPage} {data : Bytes} {after : RingPage}, page.lost = 0 →
        ¬ Write.Overtakes ⟨page, data, after⟩ ∧ ¬ Write.Wraps ⟨page, data, after⟩ := by
      intro page data after hlost
      unfold Write.Overtakes Write.Wraps
      rw [hlost]
      constructor
      · rintro ⟨hpos, -⟩
        exact absurd hpos (Nat.lt_irrefl 0)
      · rintro ⟨hlast, -⟩
        cases hlast
    have hroom : 24 ≤ page₃.free := by
      have hreports := h.passed.reports_eq
      rw [h.regions page₃ (by simp)] at hreports
      exact (RingPage.reports_iff.mp hreports).2
    intro w hw
    simp only [List.mem_cons, List.not_mem_nil, or_false] at hw
    rcases hw with rfl | rfl | rfl
    · exact hquiet (Framed.start h.init).lost
    · exact hquiet h.full.lost
    · constructor
      · rintro ⟨-, -, hshort⟩
        have hshort' : page₃.free < 24 := hshort
        omega
      · rintro ⟨-, -, hshort⟩
        have hshort' : page₃.free < 24 := hshort
        omega
  have hmarks : marks ⟨page₄, [⟨page₀, first, page₁⟩, ⟨page₁, second, page₂⟩,
      ⟨page₃, second, page₄⟩]⟩ =
        [.record (.sample first), .gap, .record (.lost 1), .record (.sample second)] := by
    obtain ⟨h₁, h₂, h₃⟩ := found_of_catchesUp h
    unfold marks Write.marks Write.appended
    simp only [List.flatMap_cons, List.flatMap_nil, h₁, h₂, h₃]
    rfl
  obtain ⟨-, horder, hreported⟩ := losses_before_samples _ _ page₀ h.init _ hreach
  exact ⟨page₀, _, first, second, h.init, hmarks, horder.mpr fun w hw => (hsound w hw).1,
    hreported hsound⟩

/-- With 16 bytes free, an event of 100 bytes is lost and one byte is stored behind it: the
counter is 1, and nothing tells of the gap. -/
theorem one_byte_overtakes : ∃ page s, RingPage.init (fun _ => 0) 8192 = some page ∧
    Machine.Reachable (· = start page) Step s ∧
    (∃ w ∈ s.writes, .sample w.data ∈ w.appended ∧ w.after.lost = 1) ∧ ¬ GapsReported s.marks := by
  obtain ⟨first, hfirst⟩ : ∃ data : Bytes, data.length = 4068 := ⟨_, List.length_replicate (a := 0)⟩
  obtain ⟨second, hsecond⟩ : ∃ data : Bytes, data.length = 100 := ⟨_, List.length_replicate (a := 0)⟩
  obtain ⟨page₀, page₁, page₂, page₃, page₄, h⟩ := exists_catchesUp hfirst hsecond
  have hvalid : (PerfRecord.sample [7]).Valid := ⟨by decide, by decide⟩
  have hregion := h.regions page₂ (by simp)
  -- one byte fits, and the report does not
  obtain ⟨page, hexec, -⟩ := h.losing.exec_writeEvent hvalid
    (by rw [hregion]; exact .inl (by decide : 4096 < 2 ^ 64))
  have hquiet : page₂.reports = false := by
    rw [h.losing.reports_eq, hregion]
    rfl
  have hfits : page₂.accepts [7] = true := by
    rw [h.losing.accepts_eq (by decide), hregion]
    rfl
  obtain ⟨-, new, -, -, hfound, hout⟩ := h.losing.outcome hvalid hexec
  obtain ⟨rfl, hlost⟩ := hout.of_accepts hquiet hfits
  have hlast : Write.found ⟨page₂, [7], page⟩ = some [.sample [7]] := hfound
  have hreach : Machine.Reachable (· = start page₀) Step ⟨page, [⟨page₀, first, page₁⟩,
      ⟨page₁, second, page₂⟩, ⟨page₂, [7], page⟩]⟩ := by
    have hstart : Machine.Reachable (· = start page₀) Step (start page₀) := .start rfl
    have hfull := (hstart.next (.write _ first ⟨by omega, by omega⟩ page₁ h.store)).next
      (.write _ second ⟨by omega, by omega⟩ page₂ h.refuse)
    exact hfull.next (.write _ [7] hvalid page hexec)
  refine ⟨page₀, _, h.init, hreach, ?_, ?_⟩
  · refine ⟨⟨page₂, [7], page⟩, by simp, ?_, hlost.trans h.losing.lost⟩
    unfold Write.appended
    rw [hlast]
    exact List.mem_singleton_self _
  · intro hreported
    have hmarks : marks ⟨page, [⟨page₀, first, page₁⟩, ⟨page₁, second, page₂⟩,
        ⟨page₂, [7], page⟩]⟩ = [.record (.sample first)] ++ [.gap] ++ [.record (.sample [7])] := by
      obtain ⟨h₁, h₂, -⟩ := found_of_catchesUp h
      unfold marks Write.marks Write.appended
      simp only [List.flatMap_cons, List.flatMap_nil, h₁, h₂, hlast]
      rfl
    rw [hmarks] at hreported
    refine ((gapsReported_sample _ _).mp hreported).2 ?_
    exact (Past.since_concat _ _).mpr (.inl rfl)

end

end Stream

end ExtKtrace.Bpf.Perf
