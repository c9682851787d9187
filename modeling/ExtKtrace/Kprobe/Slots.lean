import ExtKtrace.Kprobe.Claimed

/-!
# Threads in the slots

A thread that was sent into a slot traps again behind the instruction there, and finds the way
back in the debug list. It does as long as no probe leaves the debug list as the last one at an
address where a thread is between its two look-ups.
-/

namespace ExtKtrace.Kprobe
set_option autoImplicit false

open Filing Kernel

/-- The thread has looked up the breakpoint at the address, and not yet the debug address. -/
def Thread.inFlight (a : Nat) : Thread → Prop
  | handling site _ _ => site = a
  | stepping site _ _ => site = a
  | finishing .. => False
  | returned .. => False

/-- The probes in the debug list, with the one that is put there next. -/
def Writer.anchors (hs : List UniProbe) : Writer → List UniProbe
  | linkDebug u => hs ++ [u]
  | release u _ => hs.filter fun v => v ≠ u
  | _ => hs

/-- The address behind the instruction that the program has at `a`. -/
def behind (L : Layout) (a : Nat) : Nat := (a + insnLen L.code none a) % usizeMod

namespace Sys
variable (s : Sys)

/-- When the last probe at an address leaves the debug list, no thread is in flight there. -/
def Quiet : Prop :=
  match s.writer with
  | .unlinkDebug u =>
    (∃ v ∈ s.registered, v ≠ u ∧ s.k.breakKey v = s.k.breakKey u) ∨
      ∀ i th, s.threads.lookup i = some th → ¬ th.inFlight (s.k.breakKey u)
  | _ => True

/-- The first probe at the address is in the break list and not yet in the debug list. -/
def HalfLinked (a : Nat) : Prop :=
  match s.writer with
  | .linkDebug u => s.k.breakKey u = a ∧ ∀ v ∈ s.registered, s.k.breakKey v ≠ a
  | _ => False

/-- The states of the runs in which probes are removed only when it is quiet. -/
def Orderly (L : Layout) : Sys → Prop :=
  Machine.Reachable (· = boot L) fun s s' => Step L s s' ∧ (s.writerStep = some s' → s.Quiet)

/-- The slot is allocated and holds the instruction with a breakpoint behind it. -/
def SlotHolds (home : ProbePoint) : Prop :=
  home.singleStepAddress ∈ s.k.pages ∧
    s.k.mem.read none home.singleStepAddress home.instructionSlotLen = home.slotBytes

def ComesBack (L : Layout) : Thread → Prop
  | .handling site l _ => ∃ home, s.k.firstPoint l = some home ∧ home.addr = site ∧ s.SlotHolds home
  | .stepping site home _ => s.SlotHolds home ∧ (¬ s.HalfLinked site → ∀ t, atDebug home t →
      (s.k.kprobeHandlerFromDebug t).Resumes (behind L site) ∧
        (s.k.kprobeHandlerFromBreak t).Resumes (behind L site))
  | .finishing site _ l _ => ∃ p, s.k.firstPoint l = some p ∧ p.returnAddress = behind L site
  | .returned site t => t.regs.epc = behind L site

/-- A probe on the point is in the debug list or about to be. -/
def Anchored (pt : ProbePoint) : Prop :=
  ∃ u ∈ s.writer.anchors s.registered, s.k.probePoint u = some pt

def OnPoint (l : List UniProbe) (pt : ProbePoint) : Prop :=
  l ≠ [] ∧ ∀ x ∈ l, s.k.probePoint x = some pt

def Homed (L : Layout) : Thread → Prop
  | .handling site l _ => ∃ pt, pt.addr = site ∧ s.OnPoint l pt ∧ s.Anchored pt
  | .stepping site home _ => home.addr = site ∧ s.Anchored home
  | .finishing site home l _ => home.addr = site ∧ s.OnPoint l home
  | .returned site t => t.regs.epc = behind L site

/-- The references to a probe outside the lists of the manager. -/
def refs (v : Nat) : Nat := handles s.registered v + s.writer.held v + s.cloned v

variable {s} {s' : Sys} {L : Layout}

theorem refs_of_books {v : UniProbe} (hv : v ∈ s.registered ++ s.writer.fresh) :
    0 < s.refs v.arc := Writer.held_pos hv

theorem refs_of_clone {i : Nat} {th : Thread} (hi : s.threads.lookup i = some th) {v : UniProbe}
    (hv : v ∈ th.clones) : 0 < s.refs v.arc := by
  have hle := Table.le_tally (w := fun th : Thread => handles th.clones v.arc) hi
  have hpos := handles_pos hv
  unfold refs cloned
  omega

theorem Kept.live (h : Kept L s) {v : UniProbe} (hv : 0 < s.refs v.arc) :
    ∃ p pt, s.k.points.value p = some pt ∧ s.k.pointId v = some p ∧
      s.k.probePoint v = some pt := by
  obtain ⟨pr, hpr⟩ := h.books.sound.live_of_held hv
  obtain ⟨pt, hpt⟩ := h.books.sound.live_point hpr
  exact ⟨pr.point, pt, hpt, by simp [pointId, hpr], by simp [probePoint, pointId, hpr, hpt]⟩

theorem Kept.probePoint_of_breakKey (h : Kept L s) {u v : UniProbe}
    (hu : u ∈ s.registered ++ s.writer.fresh) (hv : v ∈ s.registered ++ s.writer.fresh)
    (heq : s.k.breakKey v = s.k.breakKey u) : s.k.probePoint v = s.k.probePoint u := by
  have hid : s.k.pointId v = s.k.pointId u := by
    rw [← h.books.pointed v hv, ← h.books.pointed u hu, heq]
  unfold Kernel.probePoint
  rw [hid]

theorem Kept.keysApart (h : Kept L s) : KeysApart s.k.points.value := by
  intro p q pt qt hp hq hne
  rw [ProbePoint.debugPage, if_pos (h.kernel p pt hp).2, ProbePoint.debugPage,
    if_pos (h.kernel q qt hq).2]
  exact h.books.sound.planted.slots_apart p q pt qt hp hq hne

theorem Kept.probePoint_of_debugKey (h : Kept L s) {u v : UniProbe} (hu : 0 < s.refs u.arc)
    (hv : 0 < s.refs v.arc) (heq : s.k.debugKey v = s.k.debugKey u) :
    s.k.probePoint v = s.k.probePoint u := by
  obtain ⟨p, pt, hp, -, hpu⟩ := h.live hu
  obtain ⟨q, qt, hq, -, hqv⟩ := h.live hv
  rw [debugKey_of hpu, debugKey_of hqv] at heq
  cases h.keysApart.debugAddress hq hp heq
  rw [hp] at hq
  rw [hpu, hqv, hq]

/-- A probe keeps its point as long as it is referred to. -/
theorem Kept.same (h : Kept L s) (h' : Kept L s') (hstep : Step L s s') {l : List UniProbe}
    (hl : ∀ v ∈ l, 0 < s.refs v.arc) (hl' : ∀ v ∈ l, 0 < s'.refs v.arc) : Same s.k s'.k l := by
  have hbooks := h.books
  have hsound := h'.books.sound
  cases hstep with
  | beginRegister b page hidle hkernel hsite hfresh =>
    rw [hidle] at hbooks
    have hold : ∀ v ∈ l, 0 < handles s.registered v.arc + s.cloned v.arc := by
      intro v hv
      have hpos := hl v hv
      unfold refs at hpos
      rw [hidle] at hpos
      simpa only [Writer.held, Nat.add_zero] using hpos
    cases hp : s.k.pointList.lookup b.probeAddr with
    | some p =>
      obtain ⟨u, k', hbegin, -, -, -, -, hsame⟩ := beginRegister_shared .kprobe page hbooks hp
      rw [hbegin]
      exact hsame l hold
    | none =>
      cases hf : fetch s.k.mem b.userPid b.probeAddr with
      | error e =>
        rw [beginRegister_refused .kprobe page hp hf]
        exact fun _ _ => ⟨rfl, rfl⟩
      | ok o =>
        obtain ⟨k', hbegin, -, -, -, hsame⟩ :=
          beginRegister_planted .kprobe hbooks hp hfresh (hsite hp o hf) hf
        rw [hbegin]
        exact hsame l hold
  | beginUnregister u hidle hu => exact fun _ _ => ⟨rfl, rfl⟩
  | writer _ hw =>
    unfold writerStep at hw
    cases hwriter : s.writer with
    | idle =>
      rw [hwriter] at hw
      cases hw
    | filePoint kind probe point address =>
      rw [hwriter] at hw hbooks
      obtain ⟨u, k', hfile, -, -, -, -, hsame⟩ := hbooks.filePoint
      simp only [hfile] at hw
      cases hw
      apply hsame l
      intro v hv
      have hpos := hl v hv
      unfold refs at hpos
      rw [hwriter] at hpos
      simpa only [Writer.held, Nat.add_zero] using hpos
    | linkBreak u =>
      rw [hwriter] at hw
      cases hw
      exact linkBreak_same s.k u l
    | linkDebug u =>
      rw [hwriter] at hw
      cases hw
      exact linkDebug_same s.k u l
    | unlinkBreak u =>
      rw [hwriter] at hw hbooks
      cases hw
      dsimp only at hsound ⊢
      rw [unlinkBreak_eq hbooks] at hsound ⊢
      exact (removeOneBreak_shrinks s.k _ u).same hsound hl'
    | unlinkDebug u =>
      rw [hwriter] at hw hbooks
      cases hw
      dsimp only at hsound ⊢
      rw [unlinkDebug_eq hbooks] at hsound ⊢
      exact (removeOneDebug_shrinks s.k _ u).same hsound hl'
    | release u a =>
      rw [hwriter] at hw
      cases hw
      exact (dropProbe_shrinks s.k u).same hsound hl'
    | unfile a =>
      rw [hwriter] at hw
      cases hw
      dsimp only at hsound ⊢
      unfold Kernel.unfile at hsound ⊢
      split at hsound
      · rename_i hnum
        rw [if_pos hnum]
        exact (removePoint_shrinks s.k a).same hsound hl'
      · rename_i hnum
        rw [if_neg hnum]
        exact fun _ _ => ⟨rfl, rfl⟩
  | trap i t l' hi hbreak => exact (s.k.cloneList_shrinks l').same hsound hl'
  | redirect i site l' t home hi hp => exact (s.k.dropProbes_shrinks l').same hsound hl'
  | debugTrap i site home t t' l' hi hpc hbreak hd =>
    exact (s.k.cloneList_shrinks l').same hsound hl'
  | finish i site home p l' t hi hp => exact (s.k.dropProbes_shrinks l').same hsound hl'
  | resume i site t hi => exact fun _ _ => ⟨rfl, rfl⟩

theorem anchors_subset (w : Writer) {hs : List UniProbe} {v : UniProbe} (hv : v ∈ w.anchors hs) :
    v ∈ hs ++ w.fresh := by
  cases w <;> simp only [Writer.anchors, Writer.fresh, List.append_nil, List.mem_filter] at hv ⊢ <;>
    first | exact hv | exact hv.1 | exact List.mem_append_left _ hv

theorem inBreak_anchors (w : Writer) {hs : List UniProbe} {v : UniProbe} (hv : v ∈ w.inBreak hs) :
    v ∈ w.anchors hs := by
  cases w <;> first | exact hv | exact (List.mem_filter.mp hv).1

theorem inDebug_anchors (w : Writer) {hs : List UniProbe} {v : UniProbe} (hv : v ∈ w.inDebug hs) :
    v ∈ w.anchors hs := by
  cases w <;> first | exact hv | exact List.mem_append_left _ hv

theorem refs_of_anchor {v : UniProbe} (hv : v ∈ s.writer.anchors s.registered) :
    0 < s.refs v.arc := refs_of_books (anchors_subset s.writer hv)

/-- Only the removal from the debug list takes an anchor away. -/
theorem anchors_step (hstep : Step L s s') {v : UniProbe}
    (hv : v ∈ s.writer.anchors s.registered) :
    v ∈ s'.writer.anchors s'.registered ∨
      (s.writer = .unlinkDebug v ∧ s.writerStep = some s' ∧
        s'.writer.anchors s'.registered = s.registered.filter fun x => x ≠ v) := by
  cases hstep with
  | beginRegister b page hidle hkernel hsite hfresh =>
    left
    rw [hidle] at hv
    unfold begun
    split
    · rw [hidle]
      exact hv
    · rename_i w k hbegin
      unfold Kernel.beginRegister at hbegin
      dsimp only at hbegin ⊢
      split at hbegin
      · split at hbegin
        · cases hbegin
        · cases hbegin
          exact hv
      · split at hbegin
        · cases hbegin
        · cases hbegin
          exact hv
  | beginUnregister u hidle hu =>
    left
    rw [hidle] at hv
    exact hv
  | writer _ hw =>
    have hw' := hw
    unfold writerStep at hw
    cases hwriter : s.writer with
    | idle =>
      rw [hwriter] at hw
      cases hw
    | filePoint kind probe point address =>
      rw [hwriter] at hw hv
      cases hw
      exact .inl hv
    | linkBreak u =>
      rw [hwriter] at hw hv
      cases hw
      exact .inl (List.mem_append_left _ hv)
    | linkDebug u =>
      rw [hwriter] at hw hv
      cases hw
      exact .inl hv
    | unlinkBreak u =>
      rw [hwriter] at hw hv
      cases hw
      exact .inl hv
    | unlinkDebug u =>
      rw [hwriter] at hw hv
      cases hw
      by_cases hvu : v = u
      · subst hvu
        exact .inr ⟨rfl, hw', rfl⟩
      · exact .inl (List.mem_filter.mpr ⟨hv, by simp [hvu]⟩)
    | release u a =>
      rw [hwriter] at hw hv
      cases hw
      exact .inl hv
    | unfile a =>
      rw [hwriter] at hw hv
      cases hw
      exact .inl hv
  | trap i t l hi hl => exact .inl hv
  | redirect i site l t home hi hp => exact .inl hv
  | debugTrap i site home t t' l hi hpc hbreak hl => exact .inl hv
  | finish i site home p l t hi hp => exact .inl hv
  | resume i site t hi => exact .inl hv

theorem Kept.anchored_by (h : Kept L s) (h' : Kept L s') (hstep : Step L s s') {pt : ProbePoint}
    {v : UniProbe} (hv : v ∈ s.writer.anchors s.registered) (hpt : s.k.probePoint v = some pt)
    (hv' : v ∈ s'.writer.anchors s'.registered) : s'.Anchored pt := by
  have hsame : Same s.k s'.k [v] := h.same h' hstep
    (fun x hx => by rw [List.mem_singleton.mp hx]; exact refs_of_anchor hv)
    (fun x hx => by rw [List.mem_singleton.mp hx]; exact refs_of_anchor hv')
  exact ⟨v, hv', (hsame v List.mem_cons_self).2.trans hpt⟩

/-- The point of a thread in flight stays anchored through an orderly step. -/
theorem Kept.anchored_step (h : Kept L s) (h' : Kept L s') (hstep : Step L s s')
    (hquiet : s.writerStep = some s' → s.Quiet) {pt : ProbePoint} {i : Nat} {th : Thread}
    (hi : s.threads.lookup i = some th) (hfly : th.inFlight pt.addr) (ha : s.Anchored pt) :
    s'.Anchored pt := by
  obtain ⟨u, hu, hpt⟩ := ha
  rcases anchors_step hstep hu with hu' | ⟨hwriter, hw, hanchors⟩
  · exact h.anchored_by h' hstep hu hpt hu'
  · have hq := hquiet hw
    unfold Quiet at hq
    rw [hwriter] at hq
    rcases hq with ⟨v, hv, hne, hkey⟩ | hnone
    · have hbook := List.mem_append_left s.writer.fresh hv
      have hpv := (h.probePoint_of_breakKey (anchors_subset _ hu) hbook hkey).trans hpt
      have hanchor : v ∈ s.writer.anchors s.registered := by
        rw [hwriter]
        exact hv
      apply h.anchored_by h' hstep hanchor hpv
      rw [hanchors]
      exact List.mem_filter.mpr ⟨hv, by simp [hne]⟩
    · refine absurd ?_ (hnone i th hi)
      rw [breakKey_of hpt]
      exact hfly

theorem Kept.onPoint_step (h : Kept L s) (h' : Kept L s') (hstep : Step L s s') {i : Nat}
    (th : Thread) {pt : ProbePoint} (ho : s.OnPoint th.clones pt)
    (hrefs : ∀ x ∈ th.clones, 0 < s.refs x.arc) (hi : s'.threads.lookup i = some th) :
    s'.OnPoint th.clones pt := by
  have hsame : Same s.k s'.k th.clones :=
    h.same h' hstep hrefs fun v hv => refs_of_clone hi hv
  exact ⟨ho.1, fun x hx => (hsame x hx).2.trans (ho.2 x hx)⟩

theorem Kept.homed_other (h : Kept L s) (h' : Kept L s') (hstep : Step L s s')
    (hquiet : s.writerStep = some s' → s.Quiet) {i : Nat} {th : Thread}
    (hi : s.threads.lookup i = some th) (hi' : s'.threads.lookup i = some th)
    (hh : s.Homed L th) : s'.Homed L th := by
  cases th with
  | handling site l t =>
    obtain ⟨pt, rfl, hon, ha⟩ := hh
    exact ⟨pt, rfl, h.onPoint_step h' hstep (.handling _ l t) hon (fun _ hx => refs_of_clone hi hx) hi',
      h.anchored_step h' hstep hquiet hi rfl ha⟩
  | stepping site home t =>
    obtain ⟨rfl, ha⟩ := hh
    exact ⟨rfl, h.anchored_step h' hstep hquiet hi rfl ha⟩
  | finishing site home l t =>
    obtain ⟨rfl, hon⟩ := hh
    exact ⟨rfl, h.onPoint_step h' hstep (.finishing _ home l t) hon
      (fun _ hx => refs_of_clone hi hx) hi'⟩
  | returned site t => exact hh

theorem OnPoint.firstPoint {l : List UniProbe} {pt : ProbePoint} (h : s.OnPoint l pt) :
    s.k.firstPoint l = some pt := by
  obtain ⟨hne, hall⟩ := h
  cases l with
  | nil => exact absurd rfl hne
  | cons x l => exact hall x List.mem_cons_self

/-- The point of a live probe: its slot, and where its threads trap and return to. -/
theorem Kept.point_spec (h : Kept L s) {v : UniProbe} (hv : 0 < s.refs v.arc) {pt : ProbePoint}
    (hpt : s.k.probePoint v = some pt) :
    s.SlotHolds pt ∧ pt.debugAddress = pt.singleStepAddress + pt.originalInstructionLen ∧
      pt.returnAddress = behind L pt.addr := by
  obtain ⟨p, pt', hp, -, hpt'⟩ := h.live hv
  rw [hpt] at hpt'
  cases hpt'
  obtain ⟨hpid, hdyn⟩ := h.kernel p pt hp
  have hplanted := h.books.sound.planted
  refine ⟨⟨hplanted.slot_mem p pt hp, hplanted.slot p pt hp⟩, ?_, ?_⟩
  · rw [ProbePoint.debugAddress, if_pos hdyn]
    rfl
  · have hlen := hplanted.len_eq hp
    rw [hpid] at hlen
    rw [ProbePoint.returnAddress, ProbePoint.originalInstructionLen, hlen]
    rfl

theorem Kept.onPoint_spec (h : Kept L s) {i : Nat} {th : Thread}
    (hi : s.threads.lookup i = some th) {pt : ProbePoint} (ho : s.OnPoint th.clones pt) :
    s.SlotHolds pt ∧ pt.debugAddress = pt.singleStepAddress + pt.originalInstructionLen ∧
      pt.returnAddress = behind L pt.addr := by
  obtain ⟨x, hx⟩ := List.exists_mem_of_ne_nil _ ho.1
  exact h.point_spec (refs_of_clone hi hx) (ho.2 x hx)

theorem Kept.anchored_spec (h : Kept L s) {pt : ProbePoint} (ha : s.Anchored pt) :
    s.SlotHolds pt ∧ pt.debugAddress = pt.singleStepAddress + pt.originalInstructionLen ∧
      pt.returnAddress = behind L pt.addr := by
  obtain ⟨u, hu, hpt⟩ := ha
  exact h.point_spec (refs_of_anchor hu) hpt

theorem Kept.onPoint_of_break (h : Kept L s) {a : Nat} {l : List UniProbe}
    (hl : s.k.getBreakList a = some l) :
    ∃ pt, pt.addr = a ∧ s.OnPoint l pt ∧ (∀ x ∈ l, 0 < s.refs x.arc) ∧
      ∃ u, u ∈ s.writer.anchors s.registered ∧ s.k.probePoint u = some pt := by
  have hne := Files.ne_nil h.books.breaks hl
  have hmem := fun x hx => Files.mem_of_lookup h.books.breaks hl (x := x) hx
  cases l with
  | nil => exact absurd rfl hne
  | cons x l =>
    obtain ⟨hx, hkey⟩ := hmem x List.mem_cons_self
    have hbook := s.writer.inBreak_subset hx
    obtain ⟨p, pt, -, -, hpt⟩ := h.live (refs_of_books hbook)
    refine ⟨pt, ?_, ⟨hne, ?_⟩, ?_, x, inBreak_anchors _ hx, hpt⟩
    · rw [← hkey, breakKey_of hpt]
      rfl
    · intro y hy
      obtain ⟨hy', hkey'⟩ := hmem y hy
      rw [← hpt]
      exact h.probePoint_of_breakKey hbook (s.writer.inBreak_subset hy') (hkey'.trans hkey.symm)
    · intro y hy
      exact refs_of_books (s.writer.inBreak_subset (hmem y hy).1)

theorem Kept.onPoint_of_debug (h : Kept L s) {home : ProbePoint} {l : List UniProbe}
    (ha : s.Anchored home) (hl : s.k.getDebugList home.debugAddress = some l) :
    s.OnPoint l home ∧ ∀ x ∈ l, 0 < s.refs x.arc := by
  obtain ⟨u, hu, hpt⟩ := ha
  have hmem := fun x hx => Files.mem_of_lookup h.filed hl (x := x) hx
  have hrefs : ∀ x ∈ l, 0 < s.refs x.arc := fun x hx =>
    refs_of_anchor (inDebug_anchors _ (hmem x hx).1)
  refine ⟨⟨Files.ne_nil h.filed hl, ?_⟩, hrefs⟩
  intro x hx
  rw [← hpt]
  apply h.probePoint_of_debugKey (refs_of_anchor hu) (hrefs x hx)
  rw [(hmem x hx).2, debugKey_of hpt]

theorem threads_begun (s : Sys) (res : Except ProbeInstallError Writer × Kernel) :
    (s.begun res).threads = s.threads := by
  unfold begun
  split <;> rfl

theorem threads_writerStep (hw : s.writerStep = some s') : s'.threads = s.threads := by
  unfold writerStep at hw
  split at hw <;> cases hw <;> rfl

/-- Every thread of an orderly run is where its point sent it. -/
theorem Kept.homed_step (h : Kept L s) (hstep : Step L s s')
    (hquiet : s.writerStep = some s' → s.Quiet)
    (hall : ∀ i th, s.threads.lookup i = some th → s.Homed L th) {j : Nat} {th : Thread}
    (hj : s'.threads.lookup j = some th) : s'.Homed L th := by
  have h' := h.step hstep
  have hother := fun (hi : s.threads.lookup j = some th) =>
    h.homed_other h' hstep hquiet hi hj (hall j th hi)
  have hstep' := hstep
  cases hstep with
  | beginRegister b page hidle hkernel hsite hfresh =>
    rw [threads_begun] at hj
    exact hother hj
  | beginUnregister u hidle hu => exact hother hj
  | writer _ hw =>
    rw [threads_writerStep hw] at hj
    exact hother hj
  | trap i t l hi hl =>
    by_cases hji : j = i
    · subst hji
      simp only [AList.lookup_insert, Option.some.injEq] at hj
      subst hj
      obtain ⟨pt, haddr, hon, hrefs, u, hu, hpt⟩ := h.onPoint_of_break hl
      have hself := AList.lookup_insert (a := j) (b := Thread.handling t.regs.breakAddress l t)
        s.threads
      exact ⟨pt, haddr, h.onPoint_step h' hstep' (.handling _ l t) hon hrefs hself,
        h.anchored_by h' hstep' hu hpt hu⟩
    · rw [AList.lookup_insert_ne hji] at hj
      exact hother hj
  | redirect i site l t home hi hp =>
    by_cases hji : j = i
    · subst hji
      simp only [AList.lookup_insert, Option.some.injEq] at hj
      subst hj
      obtain ⟨pt, rfl, hon, ha⟩ := hall j _ hi
      rw [hon.firstPoint] at hp
      cases hp
      exact ⟨rfl, h.anchored_step h' hstep' hquiet hi rfl ha⟩
    · rw [AList.lookup_insert_ne hji] at hj
      exact hother hj
  | debugTrap i site home t t' l hi hpc hbreak hl =>
    by_cases hji : j = i
    · subst hji
      simp only [AList.lookup_insert, Option.some.injEq] at hj
      subst hj
      obtain ⟨rfl, ha⟩ := hall j _ hi
      have hkey : t'.regs.debugAddress = home.debugAddress :=
        Eq.trans hpc (h.anchored_spec ha).2.1.symm
      rw [hkey] at hl
      obtain ⟨hon, hrefs⟩ := h.onPoint_of_debug ha hl
      have hself := AList.lookup_insert (a := j) (b := Thread.finishing home.addr home l t')
        s.threads
      exact ⟨rfl, h.onPoint_step h' hstep' (.finishing _ home l t') hon hrefs hself⟩
    · rw [AList.lookup_insert_ne hji] at hj
      exact hother hj
  | finish i site home p l t hi hp =>
    by_cases hji : j = i
    · subst hji
      simp only [AList.lookup_insert, Option.some.injEq] at hj
      subst hj
      obtain ⟨rfl, hon⟩ := hall j _ hi
      rw [hon.firstPoint] at hp
      cases hp
      exact (h.onPoint_spec hi hon).2.2
    · rw [AList.lookup_insert_ne hji] at hj
      exact hother hj
  | resume i site t hi =>
    by_cases hji : j = i
    · subst hji
      simp only [AList.lookup_erase] at hj
      cases hj
    · rw [AList.lookup_erase_ne hji] at hj
      exact hother hj

structure AllHomed (L : Layout) (s : Sys) : Prop where
  kept : Kept L s
  homed : ∀ i th, s.threads.lookup i = some th → s.Homed L th

theorem Orderly.allHomed (h : Orderly L s) : AllHomed L s := by
  refine Machine.Reachable.invariant ?_ ?_ h
  · rintro _ rfl
    exact ⟨kept_boot L, fun i th hi => by simp [boot] at hi⟩
  · intro s s' hs hstep
    exact ⟨hs.kept.step hstep.1, fun i th hi => hs.kept.homed_step hstep.1 hstep.2 hs.homed hi⟩

theorem Kept.debugTrap_resumes (h : Kept L s) {home : ProbePoint} (ha : s.Anchored home)
    (hlinked : ¬ s.HalfLinked home.addr) {t : Trap} (ht : atDebug home t) :
    (s.k.kprobeHandlerFromDebug t).Resumes (behind L home.addr) ∧
      (s.k.kprobeHandlerFromBreak t).Resumes (behind L home.addr) := by
  obtain ⟨-, hdebug, hreturn⟩ := h.anchored_spec ha
  have hpc : t.regs.epc = home.debugAddress := Eq.trans ht hdebug.symm
  -- a probe on the point is in the debug list itself
  have hfiled : ∃ v ∈ s.writer.inDebug s.registered, s.k.probePoint v = some home := by
    obtain ⟨u, hu, hpt⟩ := ha
    cases hwriter : s.writer with
    | linkDebug w =>
      unfold HalfLinked at hlinked
      rw [hwriter] at hu hlinked
      rcases List.mem_append.mp hu with hu | hu
      · exact ⟨u, hu, hpt⟩
      · cases List.mem_singleton.mp hu
        have hkey : s.k.breakKey u = home.addr := breakKey_of hpt
        dsimp only at hlinked
        push Not at hlinked
        obtain ⟨v, hv, hv'⟩ := hlinked hkey
        have hfresh : u ∈ s.registered ++ s.writer.fresh := by
          rw [hwriter]
          exact List.mem_append_right _ List.mem_cons_self
        have hpv := h.probePoint_of_breakKey hfresh (List.mem_append_left _ hv)
          (hv'.trans hkey.symm)
        exact ⟨v, hv, hpv.trans hpt⟩
    | release w c =>
      rw [hwriter] at hu
      exact ⟨u, hu, hpt⟩
    | idle => rw [hwriter] at hu; exact ⟨u, hu, hpt⟩
    | filePoint kind pr p c => rw [hwriter] at hu; exact ⟨u, hu, hpt⟩
    | linkBreak w => rw [hwriter] at hu; exact ⟨u, hu, hpt⟩
    | unlinkBreak w => rw [hwriter] at hu; exact ⟨u, hu, hpt⟩
    | unlinkDebug w => rw [hwriter] at hu; exact ⟨u, hu, hpt⟩
    | unfile c => rw [hwriter] at hu; exact ⟨u, hu, hpt⟩
  obtain ⟨v, hv, hpv⟩ := hfiled
  have hlookup := Files.lookup_key h.filed hv
  rw [debugKey_of hpv] at hlookup
  have hon := (h.onPoint_of_debug ha hlookup).1
  have hdebugHandler : (s.k.kprobeHandlerFromDebug t).Resumes (behind L home.addr) := by
    unfold Kernel.kprobeHandlerFromDebug PtRegs.debugAddress Kernel.getDebugList
    rw [hpc, hlookup]
    dsimp only
    rw [hon.firstPoint]
    exact ⟨_, rfl, hreturn⟩
  refine ⟨hdebugHandler, ?_⟩
  -- the slot is no program text, so no breakpoint is filed there
  have hnone : s.k.getBreakList t.regs.breakAddress = none := by
    rw [PtRegs.breakAddress, hpc]
    cases hbreak : s.k.getBreakList home.debugAddress with
    | none => rfl
    | some l =>
      obtain ⟨x, hx⟩ := List.exists_mem_of_ne_nil _ (Files.ne_nil h.books.breaks hbreak)
      obtain ⟨hx', hkey⟩ := Files.mem_of_lookup h.books.breaks hbreak hx
      obtain ⟨p, pt, hp, -, hpt⟩ := h.live (refs_of_books (s.writer.inBreak_subset hx'))
      have hoff := h.debugKey_off (s.writer.inDebug_subset hv)
      rw [debugKey_of hpv, ← hkey, breakKey_of hpt] at hoff
      have htext := h.books.sound.planted.covers_text hp (b := pt.addr)
        ⟨Nat.le_refl _, Nat.lt_add_of_pos_right pt.oldInstruction.len_pos⟩
      rw [(h.kernel p pt hp).1] at htext
      exact absurd htext hoff
  unfold Kernel.kprobeHandlerFromBreak
  rw [hnone]
  exact hdebugHandler

/-- Through every run in which the last probe at an address leaves the debug list only when no
thread is in flight there, every thread comes back to the instruction behind the probed one. -/
theorem thread_comes_back (L : Layout) (s : Sys) (h : Orderly L s) (i : Nat) (th : Thread)
    (hi : s.threads.lookup i = some th) : s.ComesBack L th := by
  have hkept := h.allHomed.kept
  have hth := h.allHomed.homed i th hi
  cases th with
  | handling site l t =>
    obtain ⟨pt, haddr, hon, -⟩ := hth
    exact ⟨pt, hon.firstPoint, haddr, (hkept.onPoint_spec hi hon).1⟩
  | stepping site home t =>
    obtain ⟨rfl, ha⟩ := hth
    exact ⟨(hkept.anchored_spec ha).1, fun hlinked t' ht => hkept.debugTrap_resumes ha hlinked ht⟩
  | finishing site home l t =>
    obtain ⟨rfl, hon⟩ := hth
    exact ⟨home, hon.firstPoint, (hkept.onPoint_spec hi hon).2.2⟩
  | returned site t => exact hth

def trapped : Sys :=
  { installed with
    k := installed.k.cloneList [⟨.kprobe, 0⟩]
    threads := installed.threads.insert 0 (.handling 4096 [⟨.kprobe, 0⟩] atProbe) }

def inSlot : Sys :=
  { trapped with
    k := trapped.k.dropProbes [⟨.kprobe, 0⟩]
    threads := trapped.threads.insert 0 (.stepping 4096
      (plantedPoint none 4096 8192 (.inst16 1)) ⟨⟨8192, 0, 0, []⟩, []⟩) }

def evicted : Sys :=
  { inSlot with writer := .unlinkBreak ⟨.kprobe, 0⟩ }.advance.advance.advance.advance

open Registry (oneInsn)

/-- A run up to the thread in the slot, in which nothing is removed. -/
theorem inSlot_run {R : Sys → Sys → Prop}
    (hR : ∀ s s', Step (oneInsn 1) s s' → (∀ u, s.writer ≠ .unlinkDebug u) → R s s') :
    Machine.Reachable (· = boot (oneInsn 1)) R inSlot := by
  have h0 : Machine.Reachable (· = boot (oneInsn 1)) R (boot (oneInsn 1)) :=
    Machine.Reachable.start rfl
  have h1 : Machine.Reachable (· = boot (oneInsn 1)) R planted :=
    h0.next (hR _ _ planted_step nofun)
  have h2 : Machine.Reachable (· = boot (oneInsn 1)) R planted.advance :=
    h1.next (hR _ _ (Step.writer _ _ rfl) nofun)
  have h3 : Machine.Reachable (· = boot (oneInsn 1)) R planted.advance.advance :=
    h2.next (hR _ _ (Step.writer _ _ rfl) nofun)
  have h4 : Machine.Reachable (· = boot (oneInsn 1)) R installed :=
    h3.next (hR _ _ (Step.writer _ _ rfl) nofun)
  have h5 : Machine.Reachable (· = boot (oneInsn 1)) R trapped :=
    h4.next (hR _ _ (Step.trap installed 0 atProbe [⟨.kprobe, 0⟩] rfl (by decide +kernel)) nofun)
  exact h5.next (hR _ _ (Step.redirect trapped 0 4096 [⟨.kprobe, 0⟩] atProbe
    (plantedPoint none 4096 8192 (.inst16 1)) rfl (by decide +kernel)) nofun)

theorem thread_comes_back_inSlot :
    inSlot.ComesBack (oneInsn 1) (.stepping 4096 (plantedPoint none 4096 8192 (.inst16 1))
      ⟨⟨8192, 0, 0, []⟩, []⟩) :=
  thread_comes_back (oneInsn 1) inSlot
    (inSlot_run fun s s' hstep hw => ⟨hstep, fun _ => by
      unfold Quiet
      split
      · exact absurd ‹_› (hw _)
      · trivial⟩) 0 _ rfl

/-- The slot of the thread is freed and its debug trap is not claimed, by either handler. -/
theorem evicted_thread_lost :
    Reachable (oneInsn 1) evicted ∧
      evicted.threads.lookup 0 = some (.stepping 4096 (plantedPoint none 4096 8192 (.inst16 1))
        ⟨⟨8192, 0, 0, []⟩, []⟩) ∧
      8192 ∉ evicted.k.pages ∧
      (evicted.k.kprobeHandlerFromDebug ⟨⟨8194, 0, 0, []⟩, []⟩).isClaimed = false ∧
      (evicted.k.kprobeHandlerFromBreak ⟨⟨8194, 0, 0, []⟩, []⟩).isClaimed = false := by
  have h1 : Reachable (oneInsn 1) inSlot := inSlot_run fun _ _ hstep _ => hstep
  have h2 : Reachable (oneInsn 1) { inSlot with writer := .unlinkBreak ⟨.kprobe, 0⟩ } :=
    h1.next (Step.beginUnregister _ _ rfl (by decide +kernel))
  have h3 := h2.next (Step.writer _ _ rfl)
  have h4 := h3.next (Step.writer _ _ rfl)
  have h5 := h4.next (Step.writer _ _ rfl)
  have h6 : Reachable (oneInsn 1) evicted := h5.next (Step.writer _ _ rfl)
  exact ⟨h6, rfl, by decide +kernel, by decide +kernel, by decide +kernel⟩

end Sys

end ExtKtrace.Kprobe
