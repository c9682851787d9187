import ExtKtrace.Kprobe.Books

/-!
# Uprobe hits

The trap handlers of `uprobe/mod.rs`. The first hit of a probe point copies its slot to a page of
the process, and the probes of the point are filed under the debug address there.
-/

namespace ExtKtrace.Kprobe
set_option autoImplicit false

open Filing Kernel

namespace Kernel
variable (k : Kernel)

/-- `alloc_user_exec_memory`, with the page that the allocator hands out; the action fills it. -/
def allocUserExecMemory (pid : Space) (page : Nat) (bytes : List UInt8) : Kernel :=
  { k with mem := k.mem.write pid page bytes, userPages := (pid, page) :: k.userPages }

/-- `set_dynamic_user_ptr`, a store in a shared probe point. -/
def setDynamicUserPtr (p ptr : Nat) : Kernel :=
  { k with points := k.points.modify p fun pt => pt.setDynamicUserPtr ptr }

/-- What `uprobe_handler_from_break` does when the point has no user page yet. -/
def firstHit (p : Nat) (point : ProbePoint) (page : Nat) : Kernel :=
  let bytes := k.mem.read none point.singleStepAddress point.instructionSlotLen
  let k := k.allocUserExecMemory point.userPid page bytes
  let oldDebugAddress := point.debugAddress
  let newDebugAddress := page + point.originalInstructionLen
  let k := k.setDynamicUserPtr p page
  k.replaceDebugListWithNewAddress oldDebugAddress newDebugAddress

/-- The same body as the kprobe handler. -/
def uprobeHandlerFromDebug (t : Trap) : Handled := k.kprobeHandlerFromDebug t

def uprobeHandlerFromBreak (t : Trap) (page : Nat) : Handled × Kernel :=
  match k.getBreakList t.regs.breakAddress with
  | none => (k.uprobeHandlerFromDebug t, k)
  | some l =>
    let t := k.runPre l t
    match l.head?.bind k.pointId, k.firstPoint l with
    | some p, some point =>
      let dynamicUserPtr := point.dynamicUserPtr
      if dynamicUserPtr ≠ 0 then
        (.claimed { t with regs := setupSingleStep t.regs dynamicUserPtr }, k)
      else
        (.claimed { t with regs := setupSingleStep t.regs page }, k.firstHit p point page)
    | _, _ => (.panicked, k)

theorem points_setDynamicUserPtr (p ptr q : Nat) :
    (k.setDynamicUserPtr p ptr).points.value q =
      if q = p then (k.points.value p).map fun pt => pt.setDynamicUserPtr ptr
      else k.points.value q :=
  Arcs.value_modify _ _ _ _

variable {k} in
theorem points_setDynamicUserPtr_of {p : Nat} {pt : ProbePoint} (hp : k.points.value p = some pt)
    (ptr q : Nat) : (k.setDynamicUserPtr p ptr).points.value q =
      if q = p then some (pt.setDynamicUserPtr ptr) else k.points.value q := by
  rw [points_setDynamicUserPtr, hp]
  rfl

@[simp] theorem pointId_setDynamicUserPtr (p ptr : Nat) (u : UniProbe) :
    (k.setDynamicUserPtr p ptr).pointId u = k.pointId u := rfl

theorem probePoint_setDynamicUserPtr (p ptr : Nat) (u : UniProbe) :
    (k.setDynamicUserPtr p ptr).probePoint u =
      if k.pointId u = some p then (k.probePoint u).map fun pt => pt.setDynamicUserPtr ptr
      else k.probePoint u := by
  unfold probePoint
  rw [pointId_setDynamicUserPtr]
  cases hid : k.pointId u with
  | none => simp
  | some q =>
    simp only [Option.bind_some, points_setDynamicUserPtr, Option.some.injEq]
    by_cases hq : q = p
    · subst hq
      simp
    · simp [hq]

@[simp] theorem breakKey_setDynamicUserPtr (p ptr : Nat) (u : UniProbe) :
    (k.setDynamicUserPtr p ptr).breakKey u = k.breakKey u := by
  unfold breakKey
  rw [probePoint_setDynamicUserPtr]
  split
  · cases k.probePoint u <;> rfl
  · rfl

/-- The members of the point go to the debug address in the page, and the others stay. -/
theorem debugKey_setDynamicUserPtr {p ptr : Nat} {pt : ProbePoint} (hp : k.points.value p = some pt)
    (hptr : ptr ≠ 0) (u : UniProbe) :
    (k.setDynamicUserPtr p ptr).debugKey u =
      if k.pointId u = some p then ptr + pt.originalInstructionLen else k.debugKey u := by
  unfold debugKey
  rw [probePoint_setDynamicUserPtr]
  split
  · rename_i hid
    have hprobe : k.probePoint u = some pt := by
      unfold probePoint
      rw [hid]
      exact hp
    rw [hprobe]
    exact pt.setDynamicUserPtr_debugAddress hptr
  · rfl

end Kernel

/-- What the allocator of user pages promises: the page is no slot, no other page of the process,
and not in its text. -/
structure FreshUserPage (L : Layout) (k : Kernel) (sp : Space) (page : Nat) : Prop where
  nonzero : page ≠ 0
  slots : ∀ q ∈ k.pages, Apart page q
  users : ∀ e ∈ k.userPages, e.1 = sp → Apart page e.2
  off : OffText L sp page

/-- No point of another process has its page at the address. The allocator does not promise this:
the processes have their own address spaces. -/
def Kernel.Unmixed (k : Kernel) (sp : Space) (page : Nat) : Prop :=
  ∀ q qt, k.points.value q = some qt → qt.dynamicUserPtr ≠ 0 → qt.userPid ≠ sp →
    Apart page qt.dynamicUserPtr

section
variable {L : Layout} {k : Kernel} {held pheld : Nat → Nat} {hs : List UniProbe}

theorem Sound.allocUser (s : Sound L k held pheld) {sp : Space} {page : Nat} {bs : List UInt8}
    (hsp : sp ≠ none) (hlen : bs.length ≤ pageSize) (hfresh : FreshUserPage L k sp page) :
    Sound L (k.allocUserExecMemory sp page bs) held pheld where
  probes := s.probes
  points := s.points
  planted := s.planted.allocUser hsp hlen (fun _ hq => hfresh.users _ hq rfl) hfresh.off

theorem Sound.setUser (s : Sound L k held pheld) {p ptr : Nat} {pt : ProbePoint}
    (hp : k.points.value p = some pt) (hpid : pt.userPid ≠ none)
    (hmem : (pt.userPid, ptr) ∈ k.userPages)
    (hread : k.mem.read pt.userPid ptr pt.instructionSlotLen = pt.slotBytes)
    (hapart : ∀ q qt, k.points.value q = some qt → q ≠ p → qt.dynamicUserPtr ≠ 0 →
      qt.userPid = pt.userPid → Apart ptr qt.dynamicUserPtr) :
    Sound L (k.setDynamicUserPtr p ptr) held pheld where
  probes := s.probes
  points := s.points.modify _ _
  planted := by
    exact s.planted.setUser hp hpid hmem hread hapart (points_setDynamicUserPtr_of hp ptr)

/-- Books are kept by what leaves the lists and the addresses alone. -/
theorem Books.moved {k' : Kernel} {extra : Nat → Nat} (b : Books L k hs .idle extra)
    (s : Sound L k' (fun v => handles hs v + Writer.idle.held v + extra v) Writer.idle.pheld)
    (hbl : k'.breakList = k.breakList) (hpl : k'.pointList = k.pointList)
    (hkey : ∀ v ∈ hs, k'.breakKey v = k.breakKey v ∧ k'.pointId v = k.pointId v) :
    Books L k' hs .idle extra where
  sound := s
  breaks := by
    rw [hbl]
    exact b.breaks.congr fun v hv => (hkey v hv).1
  arcs := b.arcs
  pointed v hv := by
    have hv' : v ∈ hs := by simpa [Writer.fresh] using hv
    rw [hpl, (hkey v hv').1, (hkey v hv').2]
    exact b.pointed v hv
  listed a p ha := by
    rw [hpl] at ha
    rcases b.listed a p ha with h | ⟨v, hv, hk⟩
    · exact .inl h
    · have hv' : v ∈ hs := by simpa [Writer.fresh] using hv
      exact .inr ⟨v, hv, (hkey v hv').1.trans hk⟩
  valid := trivial

/-- Among the probes on the books, those of a point are the ones filed under its debug address. -/
theorem Books.debugKey_iff {extra : Nat → Nat} (b : Books L k hs .idle extra)
    (hkeys : KeysApart k.points.value) {p : Nat} {pt : ProbePoint}
    (hp : k.points.value p = some pt) {u : UniProbe} (hu : u ∈ hs) :
    k.debugKey u = pt.debugAddress ↔ k.pointId u = some p := by
  obtain ⟨pr, qt, -, hqt, hid, hprobe⟩ := b.live_handle hu
  rw [debugKey_of hprobe, hid]
  constructor
  · intro heq
    rw [hkeys.debugAddress hqt hp heq]
  · rintro ⟨⟩
    rw [hp] at hqt
    cases hqt
    rfl

/-- Every probe is filed once, under the debug address of its point. -/
theorem Books.filed_once {extra : Nat → Nat} (b : Books L k hs .idle extra)
    (f : Filed k hs .idle) {u : UniProbe} (hu : u ∈ hs) (a : Nat) :
    ((k.getDebugList a).getD []).count u = if a = k.debugKey u then 1 else 0 := by
  have hfiles : k.getDebugList a = stored (hs.filter fun v => k.debugKey v = a) := f a
  rw [hfiles, stored_getD]
  split
  · rename_i ha
    apply List.count_eq_one_of_mem (b.nodup.filter _)
    exact List.mem_filter.mpr ⟨hu, by simp [ha]⟩
  · rename_i ha
    apply List.count_eq_zero_of_not_mem
    intro hmem
    exact ha (of_decide_eq_true (List.mem_filter.mp hmem).2).symm

/-- A fresh page is apart from every page that a thread is sent to. -/
theorem Sound.apart_debugPage (s : Sound L k held pheld) {sp : Space} {page : Nat}
    (hfresh : FreshUserPage L k sp page) (hunmixed : k.Unmixed sp page) {q : Nat} {qt : ProbePoint}
    (hq : k.points.value q = some qt) : Apart page qt.debugPage := by
  unfold ProbePoint.debugPage
  split
  · exact hfresh.slots _ (s.planted.slot_mem q qt hq)
  · rename_i hdyn
    by_cases hsp : qt.userPid = sp
    · exact hfresh.users _ (s.planted.user q qt hq hdyn).2.1 hsp
    · exact hunmixed q qt hq hdyn hsp

theorem Apart.add_ne {p q n m : Nat} (h : Apart p q) (hn : n ≤ 4) (hm : m ≤ 4) :
    p + n ≠ q + m := by
  unfold Apart pageSize at h
  omega

section FirstHit
variable {extra : Nat → Nat} {p page : Nat} {pt : ProbePoint}

/-- The new debug address is nobody's yet. -/
theorem Books.debugKey_ne_fresh (b : Books L k hs .idle extra)
    (hfresh : FreshUserPage L k pt.userPid page) (hunmixed : k.Unmixed pt.userPid page)
    {u : UniProbe} (hu : u ∈ hs) : k.debugKey u ≠ page + pt.originalInstructionLen := by
  obtain ⟨pr, qt, -, hqt, -, hprobe⟩ := b.live_handle hu
  rw [debugKey_of hprobe, qt.debugAddress_eq]
  exact (b.sound.apart_debugPage hfresh hunmixed hqt).symm.add_ne qt.oldInstruction.len_le
    pt.oldInstruction.len_le

/-- The kernel after the first hit. -/
def Kernel.moved (k : Kernel) (p : Nat) (pt : ProbePoint) (page : Nat) : Kernel :=
  { k with
    mem := k.mem.write pt.userPid page pt.slotBytes
    userPages := (pt.userPid, page) :: k.userPages
    points := k.points.modify p fun pt => pt.setDynamicUserPtr page
    debugList := rekey k.debugList pt.debugAddress (page + pt.originalInstructionLen) }

theorem firstHit_eq (b : Books L k hs .idle extra) (f : Filed k hs .idle)
    (hp : k.points.value p = some pt) (hfresh : FreshUserPage L k pt.userPid page)
    (hunmixed : k.Unmixed pt.userPid page) : k.firstHit p pt page = k.moved p pt page := by
  have hnone : overwritten k.debugList pt.debugAddress (page + pt.originalInstructionLen) = [] :=
    Files.overwritten_eq_nil f fun u hu => b.debugKey_ne_fresh hfresh hunmixed hu
  unfold Kernel.firstHit Kernel.replaceDebugListWithNewAddress Kernel.allocUserExecMemory
    Kernel.setDynamicUserPtr
  dsimp only
  rw [hnone, b.sound.planted.slot p pt hp]
  rfl

theorem firstHit_spec (b : Books L k hs .idle extra) (f : Filed k hs .idle)
    (hkeys : KeysApart k.points.value) (hp : k.points.value p = some pt)
    (hpid : pt.userPid ≠ none) (hon : ∃ u ∈ hs, k.pointId u = some p)
    (hfresh : FreshUserPage L k pt.userPid page) (hunmixed : k.Unmixed pt.userPid page) :
    Books L (k.firstHit p pt page) hs .idle extra ∧ Filed (k.firstHit p pt page) hs .idle ∧
      KeysApart (k.firstHit p pt page).points.value ∧
      (∀ q, (k.firstHit p pt page).points.value q =
        if q = p then some (pt.setDynamicUserPtr page) else k.points.value q) := by
  have hvalue : ∀ q, (k.moved p pt page).points.value q =
      if q = p then some (pt.setDynamicUserPtr page) else k.points.value q :=
    points_setDynamicUserPtr_of hp page
  have hkey : ∀ v, (k.moved p pt page).debugKey v =
      if k.pointId v = some p then page + pt.originalInstructionLen else k.debugKey v :=
    k.debugKey_setDynamicUserPtr hp hfresh.nonzero
  have hsound : Sound L ((k.allocUserExecMemory pt.userPid page pt.slotBytes).setDynamicUserPtr
      p page) (fun v => handles hs v + Writer.idle.held v + extra v) Writer.idle.pheld := by
    have hslot := slotLen_lt pt
    have hlen : pt.slotBytes.length ≤ pageSize := by
      rw [ProbePoint.length_slotBytes]
      omega
    have halloc := b.sound.allocUser hpid hlen hfresh
    refine halloc.setUser hp hpid List.mem_cons_self ?_ ?_
    · have hread := k.mem.read_write pt.userPid page pt.slotBytes
      rwa [ProbePoint.length_slotBytes] at hread
    · intro q qt hq _ hdyn hsp
      exact hfresh.users _ (b.sound.planted.user q qt hq hdyn).2.1 hsp
  rw [firstHit_eq b f hp hfresh hunmixed]
  refine ⟨?_, ?_, ?_, hvalue⟩
  · have hrekey := hsound.replaceDebugList pt.debugAddress (page + pt.originalInstructionLen)
    have hk : ((k.allocUserExecMemory pt.userPid page pt.slotBytes).setDynamicUserPtr
        p page).replaceDebugListWithNewAddress pt.debugAddress
          (page + pt.originalInstructionLen) = k.moved p pt page := by
      rw [← firstHit_eq b f hp hfresh hunmixed]
      unfold Kernel.firstHit
      rw [b.sound.planted.slot p pt hp]
    rw [hk] at hrekey
    exact b.moved hrekey rfl rfl fun v _ => ⟨k.breakKey_setDynamicUserPtr p page v, rfl⟩
  · obtain ⟨u, hu, hid⟩ := hon
    refine Files.rekey f (fun v hv => b.debugKey_ne_fresh hfresh hunmixed hv) ?_
      ⟨u, hu, (b.debugKey_iff hkeys hp hu).mpr hid⟩
    intro v hv
    rw [hkey v]
    simp only [b.debugKey_iff hkeys hp hv]
  · exact hkeys.setUser hfresh.nonzero
      (fun q qt hq _ => b.sound.apart_debugPage hfresh hunmixed hq) hvalue

end FirstHit

end

namespace ProbeBasic
variable (p : ProbeBasic) (u : UniProbe) (t : Trap)

/-- The calls for one probe at the breakpoint, and at the debug trap. -/
def preEvents : List Event := if p.preHandler.isSome then [.pre u] else []

def postEvents : List Event :=
  (if p.postHandler.isSome then [.post u] else []) ++ p.eventCallbacks.map fun c => .callback u c.1

end ProbeBasic

namespace Kernel
variable (k : Kernel)

/-- The calls for the enabled probes of a list, in its order. -/
def enabledEvents (events : ProbeBasic → UniProbe → List Event) (l : List UniProbe) : List Event :=
  l.flatMap fun u =>
    match k.probes.value u.arc with
    | none => []
    | some pr => if pr.basic.enable then events pr.basic u else []

end Kernel

end ExtKtrace.Kprobe
