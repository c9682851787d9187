import ExtKtrace.Bpf.RingBufQueue

/-!
# A ring buffer with an honest consumer is a queue

Runs in which nobody but the consumer moves the consumer position, and positions stay below
`2 ^ 64`.
-/

namespace ExtKtrace.Bpf.RingBuf
set_option autoImplicit false

open Tiling

/-- The consumer position moves only with the consumer. -/
def Event.honest : Event → Bool
  | .forge _ => false
  | _ => true

/-- An event of producers or consumer that follow the protocol. -/
inductive HonestStep (s s' : System) : Prop where
  | mk (e : Event) (honest : e.honest)
    (effect : step s e = some s') (below : s'.reserved < 2 ^ 64)

/-- The claims made of every state of an honest run. -/
structure FifoIntegrity (s : System) : Prop where
  ordered : s.ring.consumerPos ≤ s.ring.producerPos
  bounded : s.ring.producerPos.toNat ≤ s.ring.consumerPos.toNat + s.ring.mask.toNat
  tiled : Tiles s.ring.consumerPos.toNat (s.unconsumed.map Record.span) s.ring.producerPos.toNat
  frame : ∀ e s', step s e = some s' → ∀ j r, s.consumed ≤ j → s.records[j]? = some r →
    e.target ≠ some j → r.bytes s'.ring = r.bytes s.ring
  restored : ∀ r ∈ s.records, r.fill = .busy →
    ∃ hdr, s.ring.loadHdr (r.sample.ptr - BPF_RINGBUF_HDR_SZ) = some hdr ∧
      bpfRingbufRestoreFromRec (r.sample.ptr - BPF_RINGBUF_HDR_SZ) hdr = s.ring.base
  progress : ∀ e, Allowed s e → (step s e).isSome
  finished : ∀ r ∈ s.records.take s.consumed, r.fill ≠ .busy
  obtained : s.obtained = (s.records.take s.consumed).filterMap Record.delivered
  takes : ∀ r, s.records[s.consumed]? = some r → r.fill ≠ .busy →
    s.consume.consumed = s.consumed + 1 ∧ s.consume.obtained = s.obtained ++ r.delivered.toList

/-- Not yet passed by the consumer. -/
def Unread (s : System) (r : Record) : Prop := s.ring.consumerPos.toNat ≤ r.pos

structure FifoInv (s : System) : Prop where
  guarded : Guarded (Unread s) s
  below : s.reserved < 2 ^ 64
  room : s.reserved ≤ s.ring.consumerPos.toNat + s.ring.mask.toNat
  consumed : s.consumed ≤ s.records.length
  unconsumed : Tiles s.ring.consumerPos.toNat (s.unconsumed.map Record.span) s.reserved
  finished : ∀ r ∈ s.records.take s.consumed, r.fill ≠ .busy
  obtained : s.obtained = (s.records.take s.consumed).filterMap Record.delivered

section
variable {s s' : System}

theorem FifoInv.toNat_producerPos (h : FifoInv s) : s.ring.producerPos.toNat = s.reserved := by
  rw [h.guarded.producer, UInt64.toNat_ofNat']
  exact Nat.mod_eq_of_lt h.below

theorem FifoInv.queue (h : FifoInv s) : QueueInv s.ring.consumerPos.toNat s :=
  ⟨h.guarded, UInt64.ofNat_toNat.symm, h.room, h.consumed, h.unconsumed, h.finished⟩

/-- Below the word size the consumer position is the number of bytes passed. -/
theorem FifoInv.of_queue {taken : Nat} (h : QueueInv taken s) (hbelow : s.reserved < 2 ^ 64)
    (hobtained : s.obtained = (s.records.take s.consumed).filterMap Record.delivered) :
    FifoInv s := by
  have hle := h.taken_le
  have htaken : s.ring.consumerPos.toNat = taken := by
    rw [h.consumer, UInt64.toNat_ofNat']
    exact Nat.mod_eq_of_lt (by omega)
  subst htaken
  exact ⟨h.guarded, hbelow, h.room, h.consumed, h.unconsumed, h.finished, hobtained⟩

/-- The space check leaves room for all that is unread. -/
theorem FifoInv.room_for (h : FifoInv s) {n : Nat} (hn : n ≤ s.ring.size)
    (hcheck : (UInt64.ofNat (s.reserved + n) - s.ring.consumerPos).toNat < s.ring.size) :
    s.reserved + n ≤ s.ring.consumerPos.toNat + s.ring.mask.toNat := by
  refine QueueInv.room_for h.queue.taken_le h.room hn ?_
  rw [UInt64.ofNat_toNat]
  exact hcheck

theorem FifoInv.granted (h : FifoInv s) {size : UInt64} (hpasses : Passes s size)
    (hbelow : s.reserved + (alignedSize size).toNat < 2 ^ 64) :
    FifoInv (s.granted (s.ring.afterReserve s.reserved size)
      (sampleAt s.ring.toMapping s.reserved size) size) := by
  obtain ⟨hsmall, hfits, hcheck⟩ := hpasses
  have hroom := h.room_for hfits hcheck
  refine FifoInv.of_queue (h.queue.granted hsmall hfits hroom) hbelow ?_
  show s.obtained = ((s.records ++ [_]).take s.consumed).filterMap Record.delivered
  rw [List.take_append_of_le_length h.consumed]
  exact h.obtained

/-- Filling or finishing a record keeps what the consumer has seen. -/
theorem FifoInv.set (h : FifoInv s) {i : Nat} {r r' : Record} {ring : RingBuf}
    (hr : s.records[i]? = some r) (hbusy : r.fill = .busy) (hspan : r'.span = r.span)
    (hcons : ring.consumerPos = s.ring.consumerPos) (hmap : ring.toMapping = s.ring.toMapping)
    (hguarded : Guarded (Unread s) { s with ring := ring, records := s.records.set i r' }) :
    FifoInv { s with ring := ring, records := s.records.set i r' } := by
  refine FifoInv.of_queue (h.queue.set hr hbusy hspan hcons hmap hguarded) h.below ?_
  show s.obtained = ((s.records.set i r').take s.consumed).filterMap _
  rw [List.take_set_of_le (h.queue.consumed_le_busy hr hbusy)]
  exact h.obtained

theorem FifoInv.consume (h : FifoInv s) : FifoInv s.consume := by
  by_cases heq : s.ring.consumerPos = s.ring.producerPos
  · have hsame : s.consume = s := if_pos heq
    rw [hsame]
    exact h
  obtain ⟨r, hr⟩ := h.queue.next heq
  by_cases hfill : r.fill = .busy
  · rw [h.queue.consume_busy hr hfill]
    exact h
  obtain ⟨hlt, hget⟩ := List.getElem?_eq_some_iff.mp hr
  rw [h.queue.consume_finished hr hfill]
  refine FifoInv.of_queue (h.queue.advance hr hfill _) h.below ?_
  show s.obtained ++ r.delivered.toList =
    (s.records.take (s.consumed + 1)).filterMap Record.delivered
  rw [← List.take_append_getElem hlt, hget, List.filterMap_append, h.obtained]
  cases hd : r.delivered <;> simp [hd]

theorem FifoInv.step (h : FifoInv s) (hstep : HonestStep s s') : FifoInv s' := by
  obtain ⟨e, hhonest, heffect, hbelow⟩ := hstep
  cases e with
  | reserve size =>
    rcases step_reserve h.guarded.producer heffect with rfl | ⟨hpasses, rfl⟩
    · exact h
    · exact h.granted hpasses hbelow
  | write i off bytes =>
    have hguarded := h.guarded.write (fun r b => Iff.rfl) heffect
    obtain ⟨r, hr, hbusy, -, rfl⟩ := h.guarded.step_write heffect
    exact h.set hr hbusy rfl rfl rfl hguarded
  | commit i flags discard =>
    have hguarded := h.guarded.commit heffect
    obtain ⟨r, hr, hbusy, rfl⟩ := h.guarded.step_commit heffect
    exact h.set hr hbusy rfl rfl rfl hguarded
  | consume =>
    rw [← Option.some.inj heffect]
    exact h.consume
  | forge pos => cases hhonest

end

theorem FifoInv.integrity {s : System} (h : FifoInv s) : FifoIntegrity s := by
  have hprod := h.toNat_producerPos
  constructor
  case ordered =>
    rw [UInt64.le_iff_toNat_le, hprod]
    exact h.queue.taken_le
  case bounded =>
    rw [hprod]
    exact h.room
  case tiled =>
    rw [hprod]
    exact h.unconsumed
  case frame =>
    intro e s' hstep j r hj hr htarget
    refine h.guarded.frame hstep ?_ hr (h.queue.unread hj hr) htarget
    rintro size rfl hne t ht hunread
    have hle : s.ring.consumerPos.toNat ≤ t.pos := hunread
    have hmask : s.ring.size = s.ring.mask.toNat + 1 := rfl
    rcases step_reserve h.guarded.producer hstep with rfl | ⟨⟨-, hfits, hcheck⟩, -⟩
    · exact absurd rfl hne
    · have hroom := h.room_for hfits hcheck
      omega
  case restored =>
    intro r hr hbusy
    have hintact := h.guarded.intact r hr (h.guarded.busy r hr hbusy)
    rw [hintact.hdrPtr]
    refine ⟨_, hintact.hasHdr.loadHdr, ?_⟩
    exact s.ring.restoreFromRec_addrOf r.pos _
  case progress =>
    intro e he
    exact h.guarded.step_isSome he
  case finished => exact h.finished
  case obtained => exact h.obtained
  case takes =>
    intro r hr hfill
    rw [h.queue.consume_finished hr hfill]
    exact ⟨rfl, rfl⟩

/-- In every run of a new ring with an honest consumer, the ring is a queue: the consumer gets
what was submitted, in the order of the reservations. -/
theorem ringbuf_is_fifo (F : KernelAuxiliaryOps) (bytes : Nat → UInt8) (mapMeta : BpfMapMeta)
    (rb : RingBuf) (hnew : new F bytes mapMeta = .ok rb) (s : System)
    (hs : Machine.Reachable (· = System.start rb) HonestStep s) : FifoIntegrity s := by
  obtain ⟨hcons, hprod⟩ := new_positions hnew
  have hinv : FifoInv s := by
    refine hs.invariant ?_ fun _ _ hinv hstep => hinv.step hstep
    rintro s₀ rfl
    exact FifoInv.of_queue (.start hcons hprod) (Nat.two_pow_pos 64) rfl
  exact hinv.integrity

theorem reachable_of_run {rb : RingBuf} {s s' : System} {es : List Event}
    (hs : Machine.Reachable (· = System.start rb) HonestStep s)
    (hhonest : ∀ e ∈ es, e.honest) (h : s.run es = some s')
    (hbelow : s'.reserved < 2 ^ 64) : Machine.Reachable (· = System.start rb) HonestStep s' := by
  induction es generalizing s with
  | nil =>
    cases h
    exact hs
  | cons e es ih =>
    obtain ⟨s₁, h₁, h₂⟩ := Option.bind_eq_some_iff.mp h
    have hle : s₁.reserved ≤ s'.reserved := run_reserved_le h₂
    have hfirst := hhonest e List.mem_cons_self
    exact ih (hs.next ⟨e, hfirst, h₁, by omega⟩)
      (fun t ht => hhonest t (List.mem_cons_of_mem e ht)) h₂

/-- Three records: the second is submitted and the third discarded while the first is still being
filled, so the consumer has to wait for it. -/
def outOfOrder : List Event :=
  [.reserve 2, .reserve 1, .write 1 0 [9], .reserve 3, .commit 1 .empty false, .write 0 0 [7, 8],
    .commit 2 .empty true, .consume, .commit 0 .empty false, .consume, .consume, .consume]

theorem ringbuf_is_fifo_out_of_order :
    ∃ rb s, onePageRing = .ok rb ∧ (System.start rb).run outOfOrder = some s ∧
      FifoIntegrity s ∧ s.obtained = [[7, 8], [9]] := by
  have hrun : (onePageRing.toOption.bind fun rb => (System.start rb).run outOfOrder).map
      (fun s => (s.obtained, s.reserved)) = some ([[7, 8], [9]], 48) := by decide +kernel
  obtain ⟨s, hs, hvalues⟩ := Option.map_eq_some_iff.mp hrun
  obtain ⟨rb, hrb, hsteps⟩ := Option.bind_eq_some_iff.mp hs
  simp only [Prod.mk.injEq] at hvalues
  have hnew := onePageRing_of_toOption hrb
  have hreach := reachable_of_run (.start rfl) (by decide) hsteps (by omega)
  exact ⟨rb, s, hnew, hsteps, ringbuf_is_fifo _ _ _ rb hnew s hreach, hvalues.1⟩

end ExtKtrace.Bpf.RingBuf
