import ExtKtrace.Bpf.PerfRingFraming

/-!
# Conservation of perf events

Every call of `write_event` stores the event as a SAMPLE record or adds one to the loss counter,
and the counter goes into a LOST record before it is reset. The records are those that a reader
finds in the ring. The account is kept in `usize`, so it is exact until the counter wraps.
-/

namespace ExtKtrace.Bpf.Perf
set_option autoImplicit false

namespace RingPage

/-- The free space as `can_write` has it. -/
def free (page : RingPage) : Nat :=
  (page.dataRegionSize - page.dataHead + page.dataTail).toNat

/-- A LOST record is due, and fits. -/
def reports (page : RingPage) : Bool :=
  page.lost > 0 && page.canWrite sizeOfLostSamples page.dataTail page.dataHead

def accepts (page : RingPage) (data : Bytes) : Bool :=
  page.canWrite (calculateSize (.ofNat data.length)) page.dataTail page.dataHead

/-- The records that a call of `write_event` appends, and the counter behind it. -/
inductive Outcome (page : RingPage) (data : Bytes) : List PerfRecord → UInt64 → Prop
  | stored (quiet : page.reports = false) (fits : page.accepts data = true) :
      Outcome page data [.sample data] page.lost
  | counted (quiet : page.reports = false) (full : page.accepts data = false) :
      Outcome page data [] (page.lost + 1)
  | reportedStored (report : page.reports = true) :
      Outcome page data [.lost page.lost, .sample data] 0
  | reportedCounted (report : page.reports = true) :
      Outcome page data [.lost page.lost] 1

variable {page : RingPage} {data : Bytes}

theorem canWrite_iff (n : UInt64) :
    page.canWrite n page.dataTail page.dataHead = true ↔ n.toNat ≤ page.free := by
  unfold canWrite free
  rw [decide_eq_true_iff, UInt64.le_iff_toNat_le]

theorem reports_iff : page.reports = true ↔ 0 < page.lost.toNat ∧ 24 ≤ page.free := by
  unfold reports
  rw [Bool.and_eq_true, canWrite_iff, decide_eq_true_iff, gt_iff_lt, UInt64.lt_iff_toNat_lt]
  exact Iff.rfl

theorem accepts_iff (hlen : 12 + data.length < 2 ^ 64) :
    page.accepts data = true ↔ 12 + data.length ≤ page.free := by
  unfold accepts
  rw [canWrite_iff, toNat_calculateSize hlen]

theorem header_of_reports (h : page.reports = true) :
    page.canWrite sizeOfPerfEventHeader page.dataTail page.dataHead = true := by
  have hfits := (reports_iff.mp h).2
  apply (canWrite_iff _).mpr
  exact Nat.le_trans (by decide) hfits

theorem Outcome.of_accepts {new : List PerfRecord} {lost : UInt64} (h : Outcome page data new lost)
    (hquiet : page.reports = false) (hfits : page.accepts data = true) :
    new = [.sample data] ∧ lost = page.lost := by
  cases h with
  | stored => exact ⟨rfl, rfl⟩
  | counted _ hfull => cases hfull.symm.trans hfits
  | reportedStored hreport => cases hquiet.symm.trans hreport
  | reportedCounted hreport => cases hquiet.symm.trans hreport

end RingPage

section
variable {page page' : RingPage} {q : Queue} {data : Bytes}

theorem Framed.reports_eq (h : Framed page q) :
    page.reports = (0 < q.lost && q.room page.region 24) := by
  unfold RingPage.reports
  rw [h.canWrite, h.lost]
  rfl

theorem Framed.accepts_eq (h : Framed page q) (hlen : 12 + data.length < 2 ^ 64) :
    page.accepts data = q.room page.region (12 + data.length) := by
  unfold RingPage.accepts
  rw [h.canWrite, toNat_calculateSize hlen]

/-- A queue with more records at its end. -/
structure Queue.Extends (q q' : Queue) (new : List Entry) : Prop where
  tail : q'.tail = q.tail
  unread : q'.unread = q.unread ++ new

theorem Queue.Extends.trans {q₁ q₂ q₃ : Queue} {new₁ new₂ : List Entry} (h₁ : q₁.Extends q₂ new₁)
    (h₂ : q₂.Extends q₃ new₂) : q₁.Extends q₃ (new₁ ++ new₂) :=
  ⟨h₂.tail.trans h₁.tail, by rw [h₂.unread, h₁.unread, List.append_assoc]⟩

/-- An offer queues the event or counts it. -/
theorem Queue.offer_cases (region : Nat) (q : Queue) (data : Bytes) :
    (q.room region (12 + data.length) = true ∧ (q.offer region data).lost = q.lost ∧
        q.Extends (q.offer region data) [⟨q.head, .sample data⟩]) ∨
      (q.room region (12 + data.length) = false ∧ (q.offer region data).lost = q.lost + 1 ∧
        q.Extends (q.offer region data) []) := by
  unfold offer
  cases hroom : q.room region (12 + data.length) with
  | true => exact .inl ⟨rfl, rfl, rfl, rfl⟩
  | false => exact .inr ⟨rfl, rfl, rfl, (List.append_nil _).symm⟩

theorem Framed.write_cases (h : Framed page q) (hlen : 12 + data.length < 2 ^ 64) :
    ∃ new, q.Extends (q.write page.region data) new ∧
      RingPage.Outcome page data (new.map Entry.record) (q.write page.region data).lost := by
  have hreports := h.reports_eq
  have haccepts := h.accepts_eq hlen
  unfold Queue.write
  cases hreport : (0 < q.lost && q.room page.region 24 : Bool) with
  | false =>
    have hq : q.report page.region = q := if_neg (by rw [hreport]; exact Bool.false_ne_true)
    rw [hreport] at hreports
    rw [hq]
    rcases q.offer_cases page.region data with ⟨hroom, hlost, hext⟩ | ⟨hroom, hlost, hext⟩
    · refine ⟨_, hext, ?_⟩
      rw [hlost, ← h.lost]
      exact .stored hreports (haccepts.trans hroom)
    · refine ⟨_, hext, ?_⟩
      rw [hlost, ← h.lost]
      exact .counted hreports (haccepts.trans hroom)
  | true =>
    have hq : q.report page.region = { q.push page.region (.lost q.lost) with lost := 0 } :=
      if_pos hreport
    have hext : q.Extends (q.report page.region) [⟨q.head, .lost q.lost⟩] := by
      rw [hq]
      exact ⟨rfl, rfl⟩
    have hzero : (q.report page.region).lost = 0 := by rw [hq]
    rw [hreport] at hreports
    rcases (q.report page.region).offer_cases page.region data with
      ⟨-, hlost, hext'⟩ | ⟨-, hlost, hext'⟩
    · refine ⟨_, hext.trans hext', ?_⟩
      rw [hlost, hzero]
      show RingPage.Outcome page data [.lost q.lost, .sample data] 0
      rw [← h.lost]
      exact .reportedStored hreports
    · refine ⟨_, hext.trans hext', ?_⟩
      rw [hlost, hzero]
      show RingPage.Outcome page data [.lost q.lost] 1
      rw [← h.lost]
      exact .reportedCounted hreports

/-- A reader that starts at the old head finds what the call has appended. -/
theorem Framed.recordsFrom_head {q' : Queue} (h : Framed page q) (h' : Framed page' q')
    (hregion : page'.toRegion = page.toRegion) {new : List Entry} (hext : q.Extends q' new) :
    page'.recordsFrom page.dataHead = some (new.map Entry.record) := by
  have hsize : page'.region = page.region := by
    unfold RingPage.region
    rw [hregion]
  have hord := h.ordered
  have hbound := h'.bounded
  have htail := hext.tail
  have hall := h'.tiled
  rw [hext.unread, List.map_append, htail, hsize] at hall
  have htiles := h.tiled.rest hall
  rw [h.head]
  rw [← hsize] at htiles
  refine h'.recordsFrom htiles (fun e he => h'.stored e ?_) (by omega)
  rw [hext.unread]
  exact List.mem_append_right _ he

/-- What a call that came back has appended, and its counter. -/
theorem Framed.outcome (h : Framed page q) {r : Except BpfError Unit}
    (hvalid : (PerfRecord.sample data).Valid)
    (hexec : (RingPage.writeEvent data).exec page = some (r, page')) :
    ∃ q' new, Framed page' q' ∧
      q'.unread.map Entry.record = q.unread.map Entry.record ++ new ∧
      page'.recordsFrom page.dataHead = some new ∧
      RingPage.Outcome page data new page'.lost := by
  have hlen := hvalid.2
  obtain ⟨-, hwrites⟩ := h.write_inv hvalid hexec
  have hfits : 12 + data.length < 2 ^ 64 := by omega
  obtain ⟨new, hext, hout⟩ := h.write_cases hfits
  have hframed := hwrites.framed
  rw [← hframed.lost] at hout
  refine ⟨_, _, hframed, ?_, h.recordsFrom_head hframed hwrites.region hext, hout⟩
  rw [hext.unread, List.map_append]

end

def PerfRecord.isSample : PerfRecord → Bool
  | .sample _ => true
  | .lost _ => false

/-- The `count` field of a LOST record. -/
def PerfRecord.count : PerfRecord → Nat
  | .sample _ => 0
  | .lost count => count.toNat

def samples (l : List PerfRecord) : Nat := l.countP PerfRecord.isSample

def reported (l : List PerfRecord) : Nat := (l.map PerfRecord.count).sum

theorem samples_append (l new : List PerfRecord) :
    samples (l ++ new) = samples l + samples new := List.countP_append

theorem reported_append (l new : List PerfRecord) :
    reported (l ++ new) = reported l + reported new := by
  unfold reported
  rw [List.map_append, List.sum_append]

/-- A call accounts for one event, unless the loss counter comes round. -/
theorem RingPage.Outcome.counts {page : RingPage} {data : Bytes} {new : List PerfRecord}
    {lost : UInt64} (h : Outcome page data new lost) :
    samples new + reported new + lost.toNat = page.lost.toNat + 1 ∨
      (page.lost.toNat + 1 = 2 ^ 64 ∧ samples new + reported new + lost.toNat = 0) := by
  have hlt := page.lost.toNat_lt
  cases h with
  | stored =>
    refine .inl ?_
    show 1 + 0 + page.lost.toNat = _
    omega
  | counted =>
    have hnext : (page.lost + 1).toNat = (page.lost.toNat + 1) % 2 ^ 64 := UInt64.toNat_add _ _
    show 0 + 0 + (page.lost + 1).toNat = _ ∨ (_ ∧ 0 + 0 + (page.lost + 1).toNat = 0)
    omega
  | reportedStored =>
    refine .inl ?_
    show 1 + (page.lost.toNat + (0 + 0)) + 0 = _
    omega
  | reportedCounted => exact .inl (by show 0 + (page.lost.toNat + 0) + 1 = _; omega)

/-- A page, the records that its reader has passed, as it found them in the ring, and the calls
of `write_event` so far. -/
structure Ledger where
  page : RingPage
  passed : List PerfRecord
  calls : Nat

namespace Ledger

/-- The program writes events; a reader moves the tail past a record. -/
inductive Step : Ledger → Ledger → Prop
  | write (s : Ledger) (data : Bytes) (valid : 0 < data.length ∧ data.length ≤ 65516)
      (page : RingPage) (effect : (RingPage.writeEvent data).exec s.page = some (.ok (), page)) :
      Step s { s with page := page, calls := s.calls + 1 }
  | read (s : Ledger) (page : RingPage) (effect : s.page.consume = some page) :
      Step s { s with
        page := page
        passed := s.passed ++ (s.page.recordAt s.page.dataTail).toList }

def start (page : RingPage) : Ledger := ⟨page, [], 0⟩

/-- The records ever written: a reader has passed them or finds them behind the tail. -/
def written (s : Ledger) : List PerfRecord := s.passed ++ s.page.parse.getD []

/-- The events stored, reported as lost, or counted as lost. -/
def accounted (s : Ledger) : Nat := samples s.written + reported s.written + s.page.lost.toNat

/-- The unread bytes are records, and every call is accounted for: in the arithmetic of the
counter, and exactly as long as the counter cannot have come round. -/
structure Balanced (s : Ledger) : Prop where
  parsed : s.page.parse.isSome
  wrapping : s.calls % 2 ^ 64 = s.accounted % 2 ^ 64
  exact : s.calls < 2 ^ 64 → s.calls = s.accounted

variable {s s' : Ledger}

theorem written_eq {q : Queue} (h : Framed s.page q) :
    s.written = s.passed ++ q.unread.map Entry.record := by
  unfold written
  rw [h.parse]
  rfl

theorem Balanced.write {q : Queue} (hframed : Framed s.page q) (h : Balanced s) {data : Bytes}
    (hvalid : 0 < data.length ∧ data.length ≤ 65516) {page : RingPage}
    (heffect : (RingPage.writeEvent data).exec s.page = some (.ok (), page)) :
    ∃ q', Framed page q' ∧ Balanced { s with page := page, calls := s.calls + 1 } := by
  obtain ⟨q', new, hframed', hunread, -, hout⟩ := hframed.outcome hvalid heffect
  obtain ⟨-, hwrapping, hexact⟩ := h
  have hwritten : written { s with page := page, calls := s.calls + 1 } = s.written ++ new := by
    rw [written_eq hframed, List.append_assoc, ← hunread]
    exact written_eq (s := { s with page := page, calls := s.calls + 1 }) hframed'
  have haccounted : accounted { s with page := page, calls := s.calls + 1 } =
      samples s.written + samples new + (reported s.written + reported new) + page.lost.toNat := by
    unfold accounted
    rw [hwritten, samples_append, reported_append]
  have hbefore : s.accounted = samples s.written + reported s.written + s.page.lost.toNat := rfl
  have hcounts := hout.counts
  refine ⟨q', hframed', ?_, ?_, ?_⟩
  · show page.parse.isSome
    rw [hframed'.parse]
    rfl
  · show (s.calls + 1) % 2 ^ 64 = _
    omega
  · intro hlt
    have hlt' : s.calls + 1 < 2 ^ 64 := hlt
    have heq := hexact (by omega)
    show s.calls + 1 = _
    omega

theorem Balanced.read {q : Queue} (hframed : Framed s.page q) (h : Balanced s) {page : RingPage}
    (heffect : s.page.consume = some page) :
    ∃ q', Framed page q' ∧ Balanced { s with
      page := page
      passed := s.passed ++ (s.page.recordAt s.page.dataTail).toList } := by
  cases hunread : q.unread with
  | nil =>
    rw [hframed.consume_nil hunread] at heffect
    cases heffect
  | cons e rest =>
    rw [hframed.consume_eq hunread] at heffect
    cases heffect
    have hframed' := hframed.read hunread
    have hrest : (q.read s.page.region).unread = rest := by
      unfold Queue.read
      rw [hunread]
    -- the record has gone from one list to the other
    have hwritten : written { s with
        page := s.page.setDataTail (.ofNat (e.pos + e.record.advance s.page.region e.pos))
        passed := s.passed ++ (s.page.recordAt s.page.dataTail).toList } = s.written := by
      rw [written_eq hframed, hunread]
      refine (written_eq hframed').trans ?_
      rw [hrest, hframed.recordAt hunread, List.append_assoc]
      rfl
    have haccounted : accounted { s with
        page := s.page.setDataTail (.ofNat (e.pos + e.record.advance s.page.region e.pos))
        passed := s.passed ++ (s.page.recordAt s.page.dataTail).toList } = s.accounted := by
      unfold accounted
      rw [hwritten]
      rfl
    refine ⟨_, hframed', ?_, ?_, ?_⟩
    · exact Option.isSome_of_eq_some hframed'.parse
    · rw [haccounted]
      exact h.wrapping
    · rw [haccounted]
      exact h.exact

theorem perf_events_conserved (bytes : Nat → UInt8) (size : UInt64) (page : RingPage)
    (hinit : RingPage.init bytes size = some page) (s : Ledger)
    (hs : Machine.Reachable (· = start page) Step s) : Balanced s := by
  have hkept : ∃ q, Framed s.page q ∧ Balanced s := by
    apply hs.invariant
    · rintro s₀ rfl
      have hframed : Framed (start page).page .empty := Framed.start hinit
      have hlost : page.lost = 0 := hframed.lost
      have hzero : (start page).accounted = 0 := by
        unfold accounted
        rw [written_eq hframed]
        show 0 + 0 + page.lost.toNat = 0
        rw [hlost]
        rfl
      refine ⟨.empty, hframed, Option.isSome_of_eq_some hframed.parse, ?_, ?_⟩
      · rw [hzero]
        rfl
      · exact fun _ => hzero.symm
    · rintro s s' ⟨q, hframed, hbalanced⟩ hstep
      cases hstep with
      | write data hvalid page heffect => exact hbalanced.write hframed hvalid heffect
      | read page heffect => exact hbalanced.read hframed heffect
  obtain ⟨-, -, hbalanced⟩ := hkept
  exact hbalanced

/-- Two calls come before the reader passes the first record, and one after it. -/
theorem perf_events_conserved_caught_up : ∃ page s, RingPage.init (fun _ => 0) 8192 = some page ∧
    s.calls = 3 ∧ s.passed.length = 1 ∧ samples s.written = 2 ∧ reported s.written = 1 ∧
    Balanced s := by
  obtain ⟨first, hfirst⟩ : ∃ data : Bytes, data.length = 4068 := ⟨_, List.length_replicate (a := 0)⟩
  obtain ⟨second, hsecond⟩ : ∃ data : Bytes, data.length = 100 := ⟨_, List.length_replicate (a := 0)⟩
  obtain ⟨page₀, page₁, page₂, page₃, page₄, h⟩ := exists_catchesUp hfirst hsecond
  have hread : page₂.recordAt page₂.dataTail = some (.sample first) := h.losing.recordAt rfl
  have hreach : Machine.Reachable (· = start page₀) Step ⟨page₄, [.sample first], 3⟩ := by
    have hstart : Machine.Reachable (· = start page₀) Step (start page₀) := .start rfl
    have htwo : Machine.Reachable (· = start page₀) Step ⟨page₂, [], 2⟩ :=
      (hstart.next (.write _ first ⟨by omega, by omega⟩ page₁ h.store)).next
        (.write _ second ⟨by omega, by omega⟩ page₂ h.refuse)
    have hpassed := htwo.next (.read _ page₃ h.pass)
    rw [hread] at hpassed
    exact hpassed.next (.write _ second ⟨by omega, by omega⟩ page₄ h.report)
  have hwritten : written ⟨page₄, [.sample first], 3⟩ =
      [.sample first, .lost 1, .sample second] :=
    written_eq (s := ⟨page₄, [.sample first], 3⟩) h.caught
  refine ⟨page₀, _, h.init, rfl, rfl, ?_, ?_, perf_events_conserved _ _ page₀ h.init _ hreach⟩
  · rw [hwritten]
    rfl
  · rw [hwritten]
    rfl

/-- The page after `n` losses. -/
theorem reach_lost {page full : RingPage} {data : Bytes}
    (hvalid : 0 < data.length ∧ data.length ≤ 65516)
    (hs : Machine.Reachable (· = start page) Step ⟨full, [], 1⟩) (hlost : full.lost = 0)
    (hfull : full.canWrite sizeOfPerfEventHeader full.dataTail full.dataHead = false) (n : Nat) :
    Machine.Reachable (· = start page) Step ⟨full.setLost (.ofNat n), [], n + 1⟩ := by
  induction n with
  | zero =>
    have hsame : full.setLost (.ofNat 0) = full := by
      unfold RingPage.setLost
      rw [show UInt64.ofNat 0 = full.lost from hlost.symm]
    rw [hsame]
    exact hs
  | succ n ih =>
    refine ih.next (.write _ data hvalid _ ?_)
    unfold RingPage.writeEvent RingPage.writeEventDepth
    rw [Call.exec_bind_ok (Call.exec_self _)]
    dsimp only
    rw [if_neg (by rw [Bool.not_eq_true]; exact hfull), Call.exec_update]
    refine congrArg some (congrArg (Prod.mk _) ?_)
    unfold RingPage.setLost
    dsimp only
    rw [show UInt64.ofNat (n + 1) = .ofNat n + 1 from UInt64.ofNat_add n 1]

/-- After 2^64 losses in a row the counter is 0, and they are nowhere to be found. -/
theorem lost_counter_wraps :
    ∃ page s, RingPage.init (fun _ => 0) 8192 = some page ∧
      Machine.Reachable (· = start page) Step s ∧
      s.calls ≠ samples s.written + reported s.written + s.page.lost.toNat := by
  obtain ⟨data, hlen⟩ : ∃ data : Bytes, data.length = 4080 := ⟨_, List.length_replicate (a := 0)⟩
  obtain ⟨n, hn⟩ : ∃ n, n = 2 ^ 64 := ⟨_, rfl⟩
  obtain ⟨page, hinit, hregion⟩ := init_two_pages
  -- an event of 4080 bytes fills the page
  obtain ⟨full, hexec, hregion', hframed⟩ :=
    (Framed.start hinit).next hregion (valid_page hlen) (write_page hlen 0) (by decide : 4096 < 2 ^ 64)
  have hfull : full.canWrite sizeOfPerfEventHeader full.dataTail full.dataHead = false := by
    rw [hframed.canWrite, hregion']
    rfl
  have hstart : Machine.Reachable (· = start page) Step (start page) := .start rfl
  have hs := reach_lost (valid_page hlen) (hstart.next (.write _ data (valid_page hlen) full hexec))
    hframed.lost hfull n
  have hwritten : written ⟨full.setLost (.ofNat n), [], n + 1⟩ = [.sample data] :=
    written_eq (s := ⟨full.setLost (.ofNat n), [], n + 1⟩) (hframed.setLost _)
  refine ⟨page, _, hinit, hs, ?_⟩
  have hcounter : (UInt64.ofNat n).toNat = 0 := by
    rw [UInt64.toNat_ofNat', hn, Nat.mod_self]
  rw [hwritten]
  show n + 1 ≠ 1 + 0 + (UInt64.ofNat n).toNat
  rw [hcounter]
  omega

end Ledger

end ExtKtrace.Bpf.Perf
