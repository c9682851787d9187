import ExtKtrace.Bpf.RingBufFifo

/-!
# A ring buffer whose consumer position is not to be trusted

User space may store any number in the consumer position at any moment. The space check
looks at nothing else, so it protects the records in flight only while each reservation ends
within one data size of the oldest of them.
-/

namespace ExtKtrace.Bpf.RingBuf
set_option autoImplicit false

open Tiling

/-- The offset of the header of a record in the data area, from the slice its producer holds. -/
def hdrOffset (rb : RingBuf) (r : Record) : Nat := rb.offset (r.sample.ptr - BPF_RINGBUF_HDR_SZ)

/-- No two outstanding records share a byte. -/
def NoOverlap (s : System) : Prop :=
  ∀ (i j : Nat) (r t : Record), i ≠ j → s.records[i]? = some r → s.records[j]? = some t →
    r.fill = .busy → t.fill = .busy →
    Circular.Apart s.ring.size (hdrOffset s.ring r) (8 + r.size) (hdrOffset s.ring t) (8 + t.size)

/-- A reservation that passes the checks ends within one data size of every outstanding
record. -/
def Roomy (s : System) : Event → Prop
  | .reserve size => Passes s size → ∀ r ∈ s.records, r.fill = .busy →
      s.reserved + extent size.toNat ≤ r.pos + s.ring.size
  | _ => True

inductive RoomyStep (s s' : System) : Prop where
  | mk (e : Event) (roomy : Roomy s e) (effect : step s e = some s')

def Busy (r : Record) : Prop := r.fill = .busy

section
variable {s s' : System}

theorem Guarded.start {live : Record → Prop} {rb : RingBuf} (hprod : rb.producerPos = 0) :
    Guarded live (System.start rb) := by
  refine ⟨hprod, rfl, ?_, ?_, ?_⟩ <;> intro r hr <;> cases hr

theorem Guarded.roomyStep (hs : Guarded Busy s) (h : RoomyStep s s') : Guarded Busy s' := by
  obtain ⟨e, hroomy, heffect⟩ := h
  cases e with
  | reserve size =>
    rcases step_reserve hs.producer heffect with rfl | ⟨hpasses, rfl⟩
    · exact hs
    · exact hs.granted hpasses.1 hpasses.2.1 (hroomy hpasses) fun r _ hbusy => hbusy
  | write i off bytes => exact hs.write (fun r b => Iff.rfl) heffect
  | commit i flags discard => exact hs.commit heffect
  | consume =>
    rw [← Option.some.inj heffect]
    unfold System.consume
    split
    · exact hs
    · simp only
      split
      · exact hs
      · exact hs.setConsumer _ _ _
  | forge pos =>
    rw [← Option.some.inj heffect]
    exact hs.setConsumer _ _ _

theorem hdrOffset_eq {rb : RingBuf} {r : Record}
    (h : r.sample = sampleAt rb.toMapping r.pos r.sample.len) :
    hdrOffset rb r = r.pos % rb.size := by
  have hptr : r.sample.ptr - BPF_RINGBUF_HDR_SZ = rb.addrOf r.pos := by
    rw [h]
    exact UInt64.add_sub_cancel _ _
  unfold hdrOffset
  rw [hptr, rb.offset_addrOf]

theorem apart_hdrOffset {rb : RingBuf} {r t : Record} {n m : Nat}
    (hr : r.sample = sampleAt rb.toMapping r.pos r.sample.len)
    (ht : t.sample = sampleAt rb.toMapping t.pos t.sample.len) :
    Circular.Apart rb.size (hdrOffset rb r) n (hdrOffset rb t) m ↔
      Circular.Apart rb.size r.pos n t.pos m := by
  rw [hdrOffset_eq hr, hdrOffset_eq ht]
  unfold Circular.Apart
  simp only [Circular.covers_mod]

theorem Guarded.noOverlap (hs : Guarded Busy s) : NoOverlap s := by
  intro i j r t hij hr ht hbr hbt
  have hir := hs.intact r (List.mem_of_getElem? hr) hbr
  have hit := hs.intact t (List.mem_of_getElem? ht) hbt
  have hapart := hs.apart hij hr ht hbr hbt
  have hler := le_extent r.size
  have hlet := le_extent t.size
  rw [apart_hdrOffset hir.sample hit.sample]
  have hleft := hapart.sub_left (o := 0) (l := 8 + r.size) (by omega)
  exact hleft.sub_right (o := 0) (by omega)

/-- Records and reservations are aligned to eight bytes. -/
theorem Guarded.aligned {live : Record → Prop} (hs : Guarded live s) :
    8 ∣ s.reserved ∧ ∀ r ∈ s.records, 8 ∣ r.pos := by
  have hspans : ∀ x ∈ s.records.map Record.span, 8 ∣ x.2 := by
    intro x hx
    obtain ⟨r, -, rfl⟩ := List.mem_map.mp hx
    exact eight_dvd_extent r.size
  obtain ⟨hend, hstarts⟩ := hs.tiled.dvd (Nat.dvd_zero 8) hspans
  exact ⟨hend, fun r hr => hstarts r.span (List.mem_map_of_mem hr)⟩

/-- A reservation that reaches further laps an outstanding record. -/
theorem Guarded.overlap (hs : Guarded Busy s) {size : UInt64} (hpasses : Passes s size)
    {r : Record} (hr : r ∈ s.records) (hbusy : r.fill = .busy)
    (hlap : r.pos + s.ring.size < s.reserved + extent size.toNat)
    (h : step s (.reserve size) = some s') : ¬ NoOverlap s' := by
  obtain ⟨i, hi⟩ := List.mem_iff_getElem?.mp hr
  obtain ⟨hi', -⟩ := List.getElem?_eq_some_iff.mp hi
  have hintact := hs.intact r hr hbusy
  have hwindow := hs.window r hr hbusy
  obtain ⟨halign, haligned⟩ := hs.aligned
  have halignr := haligned r hr
  have hdvd := s.ring.eight_dvd_size
  have hext : extent size.toNat = 8 * ((size.toNat + 15) / 8) := rfl
  rw [step_reserve_of_passes hs.producer hpasses] at h
  cases h
  intro hno
  have hold : ∀ t, (s.records ++ [t])[i]? = some r := by
    intro t
    rw [List.getElem?_append_left hi']
    exact hi
  have hapart := hno i s.records.length r _ (by omega) (hold _) List.getElem?_concat_length hbusy
    rfl
  have hpos := (apart_hdrOffset (r := r) hintact.sample (by rfl)).mp hapart
  refine Circular.not_apart_of_lap (by omega) hwindow ?_ hpos
  show r.pos + s.ring.size < s.reserved + (8 + size.toNat)
  omega

/-- Whether an event keeps the records apart is decided before it happens. -/
theorem Guarded.noOverlap_iff_roomy (hs : Guarded Busy s) {e : Event} (h : step s e = some s') :
    NoOverlap s' ↔ Roomy s e := by
  constructor
  · intro hno
    cases e with
    | reserve size =>
      intro hpasses r hr hbusy
      by_contra hlap
      exact hs.overlap hpasses hr hbusy (Nat.lt_of_not_le hlap) h hno
    | write i off bytes => trivial
    | commit i flags discard => trivial
    | consume => trivial
    | forge pos => trivial
  · intro hroomy
    exact (hs.roomyStep ⟨e, hroomy, h⟩).noOverlap

end

theorem guarded_of_roomy {F : KernelAuxiliaryOps} {bytes : Nat → UInt8} {mapMeta : BpfMapMeta}
    {rb : RingBuf} (hnew : new F bytes mapMeta = .ok rb) {s : System}
    (hs : Machine.Reachable (· = System.start rb) RoomyStep s) : Guarded Busy s := by
  refine hs.invariant ?_ fun _ _ hguarded hstep => hguarded.roomyStep hstep
  rintro s₀ rfl
  exact Guarded.start (new_positions hnew).2

/-- Whatever is stored in the consumer position: while every reservation that passes the checks
ends within one data size of the oldest outstanding record, outstanding records stay apart and
every commit finds its ring, and the first reservation that does not makes two of them overlap. -/
theorem outstanding_apart_while_roomy (F : KernelAuxiliaryOps) (bytes : Nat → UInt8)
    (mapMeta : BpfMapMeta) (rb : RingBuf) (hnew : new F bytes mapMeta = .ok rb) (s : System)
    (hs : Machine.Reachable (· = System.start rb) RoomyStep s) :
    NoOverlap s ∧ (∀ e, Allowed s e → (step s e).isSome) ∧
      ∀ e s', step s e = some s' → (NoOverlap s' ↔ Roomy s e) := by
  have hguarded := guarded_of_roomy hnew hs
  refine ⟨hguarded.noOverlap, fun e he => hguarded.step_isSome he, ?_⟩
  intro e s' hstep
  exact hguarded.noOverlap_iff_roomy hstep

theorem roomy_start {rb : RingBuf} :
    Machine.Reachable (· = System.start rb) RoomyStep (System.start rb) := .start rfl

/-- Behind a position that is no boundary of records a second record is reserved. -/
def roomyRun : List Event := [.reserve 1000, .forge 5, .reserve 2000]

theorem outstanding_apart_while_roomy_forged :
    ∃ rb s, onePageRing = .ok rb ∧ (System.start rb).run roomyRun = some s ∧
      s.records.map (fun r => (r.pos, r.fill)) = [(0, .busy), (1008, .busy)] ∧
      NoOverlap s ∧ (∀ e, Allowed s e → (step s e).isSome) ∧
      ∀ e s', step s e = some s' → (NoOverlap s' ↔ Roomy s e) := by
  have hbefore : (onePageRing.toOption.bind fun rb => (System.start rb).run (roomyRun.take 2)).map
      (fun s => (s.reserved, s.ring.size, s.records.map Record.pos)) =
        some (1008, 4096, [0]) := by decide +kernel
  have hafter : (onePageRing.toOption.bind fun rb => (System.start rb).run roomyRun).map
      (fun s => s.records.map fun r => (r.pos, r.fill)) =
        some [(0, .busy), (1008, .busy)] := by decide +kernel
  obtain ⟨s, hs, hrecords⟩ := Option.map_eq_some_iff.mp hafter
  obtain ⟨rb, hrb, hrun⟩ := Option.bind_eq_some_iff.mp hs
  have hnew := onePageRing_of_toOption hrb
  rw [hrb, Option.bind_some] at hbefore
  obtain ⟨s₂, hs₂, hvalues⟩ := Option.map_eq_some_iff.mp hbefore
  simp only [Prod.mk.injEq] at hvalues
  obtain ⟨hreserved, hsize, hpos⟩ := hvalues
  have hlast : step s₂ (.reserve 2000) = some s := step_of_run_concat hs₂ hrun
  obtain ⟨s₁, hfirst, hforge⟩ := Option.bind_eq_some_iff.mp hs₂
  cases hforge
  have hempty : Roomy (System.start rb) (.reserve 1000) := by
    intro _ r hr
    cases hr
  have hroomy : Roomy { s₁ with ring := s₁.ring.setConsumerPos 5 } (.reserve 2000) := by
    intro _ r hr _
    have hzero : r.pos = 0 := List.mem_singleton.mp (hpos ▸ List.mem_map_of_mem hr)
    rw [hreserved, hsize, hzero]
    decide
  have hreach : Machine.Reachable (· = System.start rb) RoomyStep s :=
    ((roomy_start.next ⟨.reserve 1000, hempty, hfirst⟩).next ⟨.forge 5, trivial, rfl⟩).next
      ⟨.reserve 2000, hroomy, hlast⟩
  exact ⟨rb, s, hnew, hrun, hrecords, outstanding_apart_while_roomy _ _ _ rb hnew s hreach⟩
/-- Two records of 4000 bytes in a ring of 4096: the position is forged in between. -/
def lappedRun : List Event := [.reserve 4000, .forge 4008, .reserve 4000]

/-- The second record covers the first one's header. Its producer fills it, and the commit of the
first one leaves the ring. -/
theorem forged_consumer_overlaps :
    ∃ rb s, onePageRing = .ok rb ∧ (System.start rb).run lappedRun = some s ∧ ¬ NoOverlap s ∧
      ∃ s', s.run [.write 1 80 (List.replicate 8 0)] = some s' ∧
        Allowed s' (.commit 0 .empty false) ∧ step s' (.commit 0 .empty false) = none := by
  have hbefore : (onePageRing.toOption.bind fun rb => (System.start rb).run (lappedRun.take 2)).map
      (fun s => (s.reserved, s.ring.size, s.ring.consumerPos,
        s.records.map fun r => (r.pos, r.fill))) =
        some (4008, 4096, 4008, [(0, .busy)]) := by decide +kernel
  have hfate : ((onePageRing.toOption.bind fun rb => (System.start rb).run lappedRun).bind
      fun s => s.run [.write 1 80 (List.replicate 8 0)]).map
        (fun s => (s.records.map Record.fill, (step s (.commit 0 .empty false)).isNone)) =
          some ([.busy, .busy], true) := by decide +kernel
  obtain ⟨s', hs', hvalues⟩ := Option.map_eq_some_iff.mp hfate
  obtain ⟨s, hs, hwrite⟩ := Option.bind_eq_some_iff.mp hs'
  obtain ⟨rb, hrb, hrun⟩ := Option.bind_eq_some_iff.mp hs
  simp only [Prod.mk.injEq] at hvalues
  refine ⟨rb, s, onePageRing_of_toOption hrb, hrun, ?_, s', hwrite, ?_, ?_⟩
  · obtain ⟨s₂, hs₂, hvalues₂⟩ := Option.map_eq_some_iff.mp hbefore
    rw [hrb, Option.bind_some] at hs₂
    simp only [Prod.mk.injEq] at hvalues₂
    obtain ⟨hreserved, hsize, hcons, hrecords⟩ := hvalues₂
    have hlast : step s₂ (.reserve 4000) = some s := step_of_run_concat hs₂ hrun
    have hguarded : Guarded Busy s₂ := by
      obtain ⟨s₁, hfirst, hforge⟩ := Option.bind_eq_some_iff.mp hs₂
      cases hforge
      have hroomy : Roomy (System.start rb) (.reserve 4000) := by
        intro _ r hr
        cases hr
      refine guarded_of_roomy (onePageRing_of_toOption hrb) ?_
      exact (roomy_start.next ⟨.reserve 4000, hroomy, hfirst⟩).next ⟨.forge 4008, trivial, rfl⟩
    obtain ⟨r, hr, hpos⟩ := List.mem_map.mp (hrecords ▸ List.mem_singleton_self (0, Fill.busy))
    simp only [Prod.mk.injEq] at hpos
    have hpasses : Passes s₂ 4000 := by
      unfold Passes
      rw [hreserved, hsize, hcons]
      decide
    refine hguarded.overlap hpasses hr hpos.2 ?_ hlast
    rw [hpos.1, hreserved, hsize]
    decide
  · have hhead := congrArg (·[0]?) hvalues.1
    simp only [List.getElem?_map] at hhead
    obtain ⟨r, hr, hbusy⟩ := Option.map_eq_some_iff.mp hhead
    exact ⟨r, hr, hbusy⟩
  · exact Option.isNone_iff_eq_none.mp hvalues.2

end ExtKtrace.Bpf.RingBuf
