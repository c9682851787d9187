import ExtKtrace.Kprobe.UprobeRuns

/-!
# First hits at the same time

Threads of the process run into breakpoints and their calls of `uprobe_handler_from_break`
interleave, and so do the debug traps that they raise in their slots afterwards. No probe is
unregistered meanwhile, so the clones that the handlers hold are never the last references and are
left out.
-/

namespace ExtKtrace.Kprobe
set_option autoImplicit false

open Filing Kernel

/-- How far a call has got; `p` is the point of the first probe in the list it found, and `t` what
the pre handlers have left. -/
inductive HitCall where
  | found (p : Nat) (t : Trap)
  | unset (p : Nat) (t : Trap)
  | allocated (p : Nat) (t : Trap) (userPtr : Nat)
  | readOld (p : Nat) (t : Trap) (userPtr oldDebugAddress : Nat)
  | stored (p : Nat) (t : Trap) (userPtr oldDebugAddress newDebugAddress : Nat)
  /-- The call has returned; the thread is in the slot. -/
  | sent (p : Nat) (t : Trap)
  /-- The thread has raised its debug trap in the slot, and the handler has returned. -/
  | stepped (p : Nat) (handled : Handled)

namespace HitCall

/-- The point that the call is about to move, or has moved without telling the debug list. -/
def moving : HitCall → Option Nat
  | unset p _ => some p
  | allocated p _ _ => some p
  | readOld p _ _ _ => some p
  | stored p _ _ _ _ => some p
  | _ => none

/-- The point whose pointer the call has read as 0 and not stored yet. -/
def unpublished : HitCall → Option Nat
  | unset p _ => some p
  | allocated p _ _ => some p
  | readOld p _ _ _ => some p
  | _ => none

def page : HitCall → Option Nat
  | allocated _ _ userPtr => some userPtr
  | readOld _ _ userPtr _ => some userPtr
  | _ => none

def storing : HitCall → Option Nat
  | stored p _ _ _ _ => some p
  | _ => none

theorem moving_of_storing {c : HitCall} {p : Nat} (h : c.storing = some p) :
    c.moving = some p := by
  cases c with
  | stored q t userPtr old new => exact h
  | found q t => cases h
  | unset q t => cases h
  | allocated q t userPtr => cases h
  | readOld q t userPtr old => cases h
  | sent q t => cases h
  | stepped q handled => cases h

end HitCall

structure Hits where
  k : Kernel
  probes : List UniProbe
  calls : Table Nat HitCall

namespace Hits
variable (s : Hits)

def set (i : Nat) (k : Kernel) (c : HitCall) : Hits :=
  { s with k := k, calls := s.calls.insert i c }

inductive Step (L : Layout) : Hits → Hits → Prop
  | trap (s : Hits) (i p : Nat) (t : Trap) (l : List UniProbe) (hi : s.calls.lookup i = none)
      (hl : s.k.getBreakList t.regs.breakAddress = some l)
      (hp : l.head?.bind s.k.pointId = some p) :
      Step L s (s.set i s.k (.found p (s.k.runPre l t)))
  | readSet (s : Hits) (i p : Nat) (t : Trap) (pt : ProbePoint)
      (hi : s.calls.lookup i = some (.found p t)) (hp : s.k.points.value p = some pt)
      (hset : pt.dynamicUserPtr ≠ 0) :
      Step L s (s.set i s.k
        (.sent p { t with regs := setupSingleStep t.regs pt.dynamicUserPtr }))
  | readUnset (s : Hits) (i p : Nat) (t : Trap) (pt : ProbePoint)
      (hi : s.calls.lookup i = some (.found p t)) (hp : s.k.points.value p = some pt)
      (hunset : pt.dynamicUserPtr = 0) : Step L s (s.set i s.k (.unset p t))
  | allocate (s : Hits) (i p page : Nat) (t : Trap) (pt : ProbePoint)
      (hi : s.calls.lookup i = some (.unset p t)) (hp : s.k.points.value p = some pt)
      (hfresh : FreshUserPage L s.k pt.userPid page) :
      Step L s (s.set i (s.k.allocUserExecMemory pt.userPid page
        (s.k.mem.read none pt.singleStepAddress pt.instructionSlotLen)) (.allocated p t page))
  | readOld (s : Hits) (i p page : Nat) (t : Trap) (pt : ProbePoint)
      (hi : s.calls.lookup i = some (.allocated p t page))
      (hp : s.k.points.value p = some pt) :
      Step L s (s.set i s.k (.readOld p t page pt.debugAddress))
  | store (s : Hits) (i p page old : Nat) (t : Trap) (pt : ProbePoint)
      (hi : s.calls.lookup i = some (.readOld p t page old))
      (hp : s.k.points.value p = some pt) :
      Step L s (s.set i (s.k.setDynamicUserPtr p page)
        (.stored p t page old (page + pt.originalInstructionLen)))
  | rekey (s : Hits) (i p page old new : Nat) (t : Trap)
      (hi : s.calls.lookup i = some (.stored p t page old new)) :
      Step L s (s.set i (s.k.replaceDebugListWithNewAddress old new)
        (.sent p { t with regs := setupSingleStep t.regs page }))
  | debugTrap (s : Hits) (i p : Nat) (t t' : Trap) (pt : ProbePoint)
      (hi : s.calls.lookup i = some (.sent p t)) (hp : s.k.points.value p = some pt)
      (ht' : t'.regs.debugAddress = t.regs.epc + pt.originalInstructionLen) :
      Step L s (s.set i s.k (.stepped p (s.k.uprobeHandlerFromDebug t')))

def Start (L : Layout) (s : Hits) : Prop :=
  ∃ r, Uprobes.Settled L r ∧ s = ⟨r.k, r.probes, ∅⟩

def Reachable (L : Layout) : Hits → Prop := Machine.Reachable (Start L) (Step L)

/-- No call is between storing the pointer of the point and telling the debug list. -/
def Calm (p : Nat) : Prop := ∀ i c, s.calls.lookup i = some c → c.storing ≠ some p

/-- Who reads the pointer of a point as 0 is the only one that has and that has not stored. -/
def OneReader (s s' : Hits) : Prop :=
  ∀ i p t, s.calls.lookup i = some (.found p t) → s'.calls.lookup i = some (.unset p t) →
    ∀ j c, s.calls.lookup j = some c → c.unpublished ≠ some p

/-- A debug trap is not raised while a call that has stored the pointer is yet to tell the debug
list. -/
def TrapsCalm (s s' : Hits) : Prop :=
  ∀ i p t handled, s.calls.lookup i = some (.sent p t) →
    s'.calls.lookup i = some (.stepped p handled) → s.Calm p

/-- A page is not at an address where another process has one. -/
def OwnPages (s s' : Hits) : Prop :=
  ∀ i p t page pt, s.calls.lookup i = some (.unset p t) →
    s'.calls.lookup i = some (.allocated p t page) → s.k.points.value p = some pt →
    ∀ e ∈ s.k.userPages, e.1 ≠ pt.userPid → Apart page e.2

structure InOrder (s s' : Hits) : Prop where
  reader : OneReader s s'
  traps : TrapsCalm s s'
  pages : OwnPages s s'

def Orderly (L : Layout) : Hits → Prop :=
  Machine.Reachable (Start L) fun s s' => Step L s s' ∧ InOrder s s'

def On (p : Nat) : Prop := ∃ u ∈ s.probes, s.k.pointId u = some p

/-- The page is apart from every slot, and from every page that threads are sent to. -/
def Clear (page : Nat) : Prop :=
  ∀ q qt, s.k.points.value q = some qt →
    Apart page qt.singleStepAddress ∧ Apart page qt.debugPage

def Ready (pt : ProbePoint) (page : Nat) : Prop :=
  page ≠ 0 ∧ (pt.userPid, page) ∈ s.k.userPages ∧
    s.k.mem.read pt.userPid page pt.instructionSlotLen = pt.slotBytes ∧ s.Clear page

def Unmoved (p : Nat) (pt : ProbePoint) : Prop :=
  s.k.points.value p = some pt ∧ pt.dynamicUserPtr = 0

/-- The pointer is stored, and the key it replaces is still in use. -/
def Stored (p page old new : Nat) (pt : ProbePoint) : Prop :=
  s.k.points.value p = some pt ∧ pt.dynamicUserPtr = page ∧ page ≠ 0 ∧
    old = pt.singleStepAddress + pt.originalInstructionLen ∧
    new = page + pt.originalInstructionLen ∧
    ∀ q qt, s.k.points.value q = some qt → Apart page qt.singleStepAddress ∧
      (q ≠ p → Apart pt.singleStepAddress qt.debugPage)

def CallOk : HitCall → Prop
  | .found p _ => s.On p
  | .unset p _ => s.On p ∧ ∃ pt, s.Unmoved p pt
  | .allocated p _ page => s.On p ∧ ∃ pt, s.Unmoved p pt ∧ s.Ready pt page
  | .readOld p _ page old => s.On p ∧ ∃ pt, s.Unmoved p pt ∧ s.Ready pt page ∧
      old = pt.debugAddress
  | .stored p _ page old new => s.On p ∧ ∃ pt, s.Stored p page old new pt
  | .sent p t => s.On p ∧ ∃ pt, s.k.points.value p = some pt ∧ pt.dynamicUserPtr ≠ 0 ∧
      t.regs.epc = pt.dynamicUserPtr
  | .stepped p handled => s.On p ∧ ∃ pt, s.k.points.value p = some pt ∧
      pt.dynamicUserPtr ≠ 0 ∧ handled.Resumes pt.returnAddress

/-- The debug list files each probe under the debug address of its point, or under the one that a
call is about to replace. -/
def FiledFor (key : UniProbe → Nat) : Prop :=
  Files s.k.debugList key s.probes ∧ ∀ v ∈ s.probes, ∀ p, s.k.pointId v = some p →
    (s.Calm p → key v = s.k.debugKey v) ∧
    ∀ i t page old new, s.calls.lookup i = some (.stored p t page old new) → key v = old

structure Ordered (L : Layout) (s : Hits) : Prop where
  books : Books L s.k s.probes .idle fun _ => 0
  keys : KeysApart s.k.points.value
  users : ∀ p pt, s.k.points.value p = some pt → pt.userPid ≠ none
  calls : ∀ i c, s.calls.lookup i = some c → s.CallOk c
  once : ∀ i j c d p, s.calls.lookup i = some c → s.calls.lookup j = some d →
    c.moving = some p → d.moving = some p → i = j
  pages : ∀ i j c d u v, s.calls.lookup i = some c → s.calls.lookup j = some d → i ≠ j →
    c.page = some u → d.page = some v → Apart u v
  filed : ∃ key, s.FiledFor key

variable {s} {L : Layout}

theorem lookup_set_ne {i j : Nat} {k : Kernel} {c : HitCall} (h : j ≠ i) :
    (s.set i k c).calls.lookup j = s.calls.lookup j := AList.lookup_insert_ne h

theorem lookup_set {i j : Nat} {k : Kernel} {c d : HitCall}
    (h : (s.set i k c).calls.lookup j = some d) :
    (j = i ∧ d = c) ∨ (j ≠ i ∧ s.calls.lookup j = some d) := by
  by_cases hji : j = i
  · subst hji
    have hself : (s.set j k c).calls.lookup j = some c := AList.lookup_insert _
    rw [hself] at h
    cases h
    exact .inl ⟨rfl, rfl⟩
  · rw [lookup_set_ne hji] at h
    exact .inr ⟨hji, h⟩

theorem Calm.of_set {i p : Nat} {k : Kernel} {c : HitCall} (h : (s.set i k c).Calm p)
    (hold : ∀ d, s.calls.lookup i = some d → d.storing ≠ some p) : s.Calm p := by
  intro j d hj
  by_cases hji : j = i
  · subst hji
    exact hold d hj
  · exact h j d ((lookup_set_ne hji).trans hj)

theorem Ordered.update (h : Ordered L s) {i : Nat} {k' : Kernel} {c' : HitCall}
    (books : Books L k' s.probes .idle fun _ => 0) (keys : KeysApart k'.points.value)
    (users : ∀ p pt, k'.points.value p = some pt → pt.userPid ≠ none)
    (hothers : ∀ j c, j ≠ i → s.calls.lookup j = some c → (s.set i k' c').CallOk c)
    (hself : (s.set i k' c').CallOk c')
    (hmoving : ∀ p, c'.moving = some p → (∃ c, s.calls.lookup i = some c ∧ c.moving = some p) ∨
      ∀ j d, s.calls.lookup j = some d → d.moving ≠ some p)
    (hpage : ∀ u, c'.page = some u → (∃ c, s.calls.lookup i = some c ∧ c.page = some u) ∨
      ∀ j d v, s.calls.lookup j = some d → d.page = some v → Apart u v)
    (filed : ∃ key, (s.set i k' c').FiledFor key) : Ordered L (s.set i k' c') where
  books := books
  keys := keys
  users := users
  calls j c hj := by
    rcases lookup_set hj with ⟨rfl, rfl⟩ | ⟨hji, hj⟩
    · exact hself
    · exact hothers j c hji hj
  once j l c d p hj hl hc hd := by
    rcases lookup_set hj with ⟨rfl, rfl⟩ | ⟨hji, hj'⟩ <;>
      rcases lookup_set hl with ⟨rfl, rfl⟩ | ⟨hli, hl'⟩
    · rfl
    · rcases hmoving p hc with ⟨c₀, hi, hc₀⟩ | hnone
      · exact h.once _ _ _ _ _ hi hl' hc₀ hd
      · exact absurd hd (hnone l d hl')
    · rcases hmoving p hd with ⟨c₀, hi, hc₀⟩ | hnone
      · exact h.once _ _ _ _ _ hj' hi hc hc₀
      · exact absurd hc (hnone j c hj')
    · exact h.once _ _ _ _ _ hj' hl' hc hd
  pages j l c d u v hj hl hne hc hd := by
    rcases lookup_set hj with ⟨rfl, rfl⟩ | ⟨hji, hj'⟩ <;>
      rcases lookup_set hl with ⟨rfl, rfl⟩ | ⟨hli, hl'⟩
    · exact absurd rfl hne
    · rcases hpage u hc with ⟨c₀, hi, hc₀⟩ | hnone
      · exact h.pages _ _ _ _ _ _ hi hl' hne hc₀ hd
      · exact hnone l d v hl' hd
    · rcases hpage v hd with ⟨c₀, hi, hc₀⟩ | hnone
      · exact h.pages _ _ _ _ _ _ hj' hi hne hc hc₀
      · exact (hnone j c u hj' hc).symm
    · exact h.pages _ _ _ _ _ _ hj' hl' hne hc hd
  filed := filed

theorem Ordered.calm (h : Ordered L s) {i : Nat} {k' : Kernel} {c' : HitCall}
    (books : Books L k' s.probes .idle fun _ => 0) (hpoints : k'.points = s.k.points)
    (hprobes : k'.probes = s.k.probes) (hdebug : k'.debugList = s.k.debugList)
    (hready : ∀ pt page, s.Ready pt page → (s.set i k' c').Ready pt page)
    (hself : (s.set i k' c').CallOk c')
    (hmoving : ∀ p, c'.moving = some p → (∃ c, s.calls.lookup i = some c ∧ c.moving = some p) ∨
      ∀ j d, s.calls.lookup j = some d → d.moving ≠ some p)
    (hpage : ∀ u, c'.page = some u → (∃ c, s.calls.lookup i = some c ∧ c.page = some u) ∨
      ∀ j d v, s.calls.lookup j = some d → d.page = some v → Apart u v)
    (hstoring : c'.storing = none) (hold : ∀ c, s.calls.lookup i = some c → c.storing = none) :
    Ordered L (s.set i k' c') := by
  have hid : ∀ v, k'.pointId v = s.k.pointId v := fun v => by
    unfold Kernel.pointId
    rw [hprobes]
  have hkey : ∀ v, k'.debugKey v = s.k.debugKey v := fun v => by
    unfold Kernel.debugKey Kernel.probePoint
    rw [hid, hpoints]
  have hon : ∀ p, s.On p → (s.set i k' c').On p := by
    rintro p ⟨u, hu, hp⟩
    exact ⟨u, hu, (hid u).trans hp⟩
  refine h.update books (by rw [hpoints]; exact h.keys) (by rw [hpoints]; exact h.users) ?_ hself
    hmoving hpage ?_
  · intro j c _ hj
    have hc := h.calls j c hj
    cases c with
    | found p t => exact hon p hc
    | unset p t =>
      obtain ⟨ho, pt, hp, hdyn⟩ := hc
      exact ⟨hon p ho, pt, by rw [← hpoints] at hp; exact hp, hdyn⟩
    | allocated p t page =>
      obtain ⟨ho, pt, ⟨hp, hdyn⟩, hr⟩ := hc
      exact ⟨hon p ho, pt, ⟨by rw [← hpoints] at hp; exact hp, hdyn⟩, hready pt page hr⟩
    | readOld p t page old =>
      obtain ⟨ho, pt, ⟨hp, hdyn⟩, hr, heq⟩ := hc
      exact ⟨hon p ho, pt, ⟨by rw [← hpoints] at hp; exact hp, hdyn⟩, hready pt page hr, heq⟩
    | stored p t page old new =>
      obtain ⟨ho, pt, hst⟩ := hc
      refine ⟨hon p ho, pt, ?_⟩
      unfold Stored at hst ⊢
      rw [← hpoints] at hst
      exact hst
    | sent p t =>
      obtain ⟨ho, pt, hp, hrest⟩ := hc
      exact ⟨hon p ho, pt, by rw [← hpoints] at hp; exact hp, hrest⟩
    | stepped p handled =>
      obtain ⟨ho, pt, hp, hrest⟩ := hc
      exact ⟨hon p ho, pt, by rw [← hpoints] at hp; exact hp, hrest⟩
  · obtain ⟨key, hfiles, hkeys⟩ := h.filed
    refine ⟨key, by show Files k'.debugList _ _; rw [hdebug]; exact hfiles, ?_⟩
    intro v hv p hp
    obtain ⟨hcalm, hst⟩ := hkeys v hv p ((hid v).symm.trans hp)
    constructor
    · intro hc
      refine (hcalm (hc.of_set fun c hi => ?_)).trans (hkey v).symm
      rw [hold c hi]
      exact nofun
    · intro j t page old new hj
      rcases lookup_set hj with ⟨-, rfl⟩ | ⟨-, hj⟩
      · cases hstoring
      · exact hst j t page old new hj

theorem Ordered.think (h : Ordered L s) {i : Nat} {c' : HitCall} (hself : s.CallOk c')
    (hmoving : ∀ p, c'.moving = some p → (∃ c, s.calls.lookup i = some c ∧ c.moving = some p) ∨
      ∀ j d, s.calls.lookup j = some d → d.moving ≠ some p)
    (hpage : ∀ u, c'.page = some u → ∃ c, s.calls.lookup i = some c ∧ c.page = some u)
    (hstoring : c'.storing = none) (hold : ∀ c, s.calls.lookup i = some c → c.storing = none) :
    Ordered L (s.set i s.k c') := by
  refine h.calm h.books rfl rfl rfl (fun _ _ hr => hr) ?_ hmoving (fun u hu => .inl (hpage u hu))
    hstoring hold
  cases c' <;> exact hself

theorem Ordered.trap (h : Ordered L s) {i p : Nat} {t : Trap} {l : List UniProbe}
    (hi : s.calls.lookup i = none) (hl : s.k.getBreakList t.regs.breakAddress = some l)
    (hp : l.head?.bind s.k.pointId = some p) :
    Ordered L (s.set i s.k (.found p (s.k.runPre l t))) := by
  refine h.think ?_ nofun nofun rfl fun c hc => by rw [hi] at hc; cases hc
  obtain ⟨u, hu, hid⟩ := Option.bind_eq_some_iff.mp hp
  have hmem : u ∈ l := List.mem_of_mem_head? hu
  exact ⟨u, (Files.mem_of_lookup h.books.breaks hl hmem).1, hid⟩

theorem Ordered.readSet (h : Ordered L s) {i p : Nat} {t : Trap} {pt : ProbePoint}
    (hi : s.calls.lookup i = some (.found p t)) (hp : s.k.points.value p = some pt)
    (hset : pt.dynamicUserPtr ≠ 0) :
    Ordered L (s.set i s.k
      (.sent p { t with regs := setupSingleStep t.regs pt.dynamicUserPtr })) := by
  refine h.think ?_ nofun nofun rfl fun c hc => by rw [hi] at hc; cases hc; rfl
  exact ⟨h.calls i _ hi, pt, hp, hset, rfl⟩

theorem Ordered.readUnset (h : Ordered L s) {i p : Nat} {t : Trap} {pt : ProbePoint}
    (hi : s.calls.lookup i = some (.found p t)) (hp : s.k.points.value p = some pt)
    (hunset : pt.dynamicUserPtr = 0)
    (hone : ∀ j c, s.calls.lookup j = some c → c.unpublished ≠ some p) :
    Ordered L (s.set i s.k (.unset p t)) := by
  refine h.think ?_ ?_ nofun rfl fun c hc => by rw [hi] at hc; cases hc; rfl
  · exact ⟨h.calls i _ hi, pt, hp, hunset⟩
  · intro q hq
    cases hq
    right
    intro j d hj hd
    have hok := h.calls j d hj
    have hno := hone j d hj
    cases d with
    | unset q t' => exact hno hd
    | allocated q t' page => exact hno hd
    | readOld q t' page old => exact hno hd
    | stored q t' page old new =>
      -- the pointer has been stored, so it is not read as 0
      cases hd
      obtain ⟨-, pt', hp', hdyn, hne, -⟩ := hok
      rw [hp] at hp'
      cases hp'
      exact hne (hdyn ▸ hunset)
    | found q t' => cases hd
    | sent q t' => cases hd
    | stepped q handled => cases hd

theorem Ordered.allocate (h : Ordered L s) {i p page : Nat} {t : Trap} {pt : ProbePoint}
    (hi : s.calls.lookup i = some (.unset p t)) (hp : s.k.points.value p = some pt)
    (hfresh : FreshUserPage L s.k pt.userPid page)
    (hown : ∀ e ∈ s.k.userPages, e.1 ≠ pt.userPid → Apart page e.2) :
    Ordered L (s.set i (s.k.allocUserExecMemory pt.userPid page
      (s.k.mem.read none pt.singleStepAddress pt.instructionSlotLen)) (.allocated p t page)) := by
  have hplanted := h.books.sound.planted
  have hslot := slotLen_lt pt
  rw [hplanted.slot p pt hp]
  have hlen : pt.slotBytes.length ≤ pageSize := by
    rw [ProbePoint.length_slotBytes]
    omega
  have hsound := h.books.sound.allocUser (h.users p pt hp) hlen hfresh
  have husers : ∀ e ∈ s.k.userPages, Apart page e.2 := fun e he =>
    (em (e.1 = pt.userPid)).elim (hfresh.users e he) (hown e he)
  have hunmixed : s.k.Unmixed pt.userPid page := fun q qt hq hdyn _ =>
    husers _ (hplanted.user q qt hq hdyn).2.1
  refine h.calm (h.books.moved hsound rfl rfl fun _ _ => ⟨rfl, rfl⟩) rfl rfl rfl ?_ ?_ ?_ ?_ rfl
    fun c hc => by rw [hi] at hc; cases hc; rfl
  · rintro qt u ⟨hne, hmem, hread, hclear⟩
    refine ⟨hne, List.mem_cons_of_mem _ hmem, ?_, hclear⟩
    rw [← hread]
    apply Memory.read_write_of_apart
    intro _
    have hap := husers _ hmem
    have hslot' := slotLen_lt qt
    unfold Apart at hap
    rw [ProbePoint.length_slotBytes]
    rcases hap with hap | hap
    · right
      exact Nat.le_trans (Nat.add_le_add_left (Nat.le_of_lt hslot) _) hap
    · left
      exact Nat.le_trans (Nat.add_le_add_left (Nat.le_of_lt hslot') _) hap
  · obtain ⟨hon, pt', ⟨hp', hdyn⟩⟩ := h.calls i _ hi
    rw [hp] at hp'
    cases hp'
    refine ⟨hon, pt, ⟨hp, hdyn⟩, hfresh.nonzero, List.mem_cons_self, ?_, ?_⟩
    · have hread := s.k.mem.read_write pt.userPid page pt.slotBytes
      rwa [ProbePoint.length_slotBytes] at hread
    · intro q qt hq
      exact ⟨hfresh.slots _ (hplanted.slot_mem q qt hq),
        h.books.sound.apart_debugPage hfresh hunmixed hq⟩
  · intro q hq
    exact .inl ⟨_, hi, hq⟩
  · intro u hu
    cases hu
    right
    intro j d v hj hv
    have hok := h.calls j d hj
    cases d with
    | allocated q t' page' =>
      cases hv
      obtain ⟨-, qt, -, -, hmem, -⟩ := hok
      exact husers _ hmem
    | readOld q t' page' old =>
      cases hv
      obtain ⟨-, qt, -, ⟨-, hmem, -⟩, -⟩ := hok
      exact husers _ hmem
    | found q t' => cases hv
    | unset q t' => cases hv
    | stored q t' page' old new => cases hv
    | sent q t' => cases hv
    | stepped q handled => cases hv

theorem Ordered.readOld (h : Ordered L s) {i p page : Nat} {t : Trap} {pt : ProbePoint}
    (hi : s.calls.lookup i = some (.allocated p t page)) (hp : s.k.points.value p = some pt) :
    Ordered L (s.set i s.k (.readOld p t page pt.debugAddress)) := by
  refine h.think ?_ ?_ ?_ rfl fun c hc => by rw [hi] at hc; cases hc; rfl
  · obtain ⟨hon, pt', ⟨hp', hdyn⟩, hready⟩ := h.calls i _ hi
    rw [hp] at hp'
    cases hp'
    exact ⟨hon, pt, ⟨hp, hdyn⟩, hready, rfl⟩
  · intro q hq
    exact .inl ⟨_, hi, hq⟩
  · intro u hu
    exact ⟨_, hi, hu⟩

theorem Ordered.others_store (h : Ordered L s) {i j p page old : Nat} {t : Trap} {pt : ProbePoint}
    {c c' : HitCall} (hi : s.calls.lookup i = some (.readOld p t page old))
    (hunmoved : s.Unmoved p pt) (hready : s.Ready pt page) (hji : j ≠ i)
    (hj : s.calls.lookup j = some c) :
    (s.set i (s.k.setDynamicUserPtr p page) c').CallOk c := by
  have hvalue := points_setDynamicUserPtr_of hunmoved.1 page
  have hsame : ∀ {q}, q ≠ p → ∀ {qt}, s.k.points.value q = some qt →
      (s.k.setDynamicUserPtr p page).points.value q = some qt := by
    intro q hq qt hqt
    rw [hvalue, if_neg hq]
    exact hqt
  have hne : ∀ q, c.moving = some q → q ≠ p := by
    rintro q hq rfl
    exact hji (h.once _ _ _ _ _ hj hi hq rfl)
  -- a page that is apart from the new page stays clear
  have hclear : ∀ u, Apart u page → s.Clear u →
      (s.set i (s.k.setDynamicUserPtr p page) c').Clear u := by
    intro u hu hc q qt hq
    have hq' : (s.k.setDynamicUserPtr p page).points.value q = some qt := hq
    rw [hvalue] at hq'
    split at hq'
    · cases hq'
      rw [pt.setDynamicUserPtr_debugPage hready.1]
      exact ⟨(hc p pt hunmoved.1).1, hu⟩
    · exact hc q qt hq'
  have hok := h.calls j c hj
  cases c with
  | found q t' => exact hok
  | unset q t' =>
    obtain ⟨hon, qt, hq, hdyn⟩ := hok
    exact ⟨hon, qt, hsame (hne q rfl) hq, hdyn⟩
  | allocated q t' u =>
    obtain ⟨hon, qt, ⟨hq, hdyn⟩, hu, hmem, hread, hc⟩ := hok
    exact ⟨hon, qt, ⟨hsame (hne q rfl) hq, hdyn⟩, hu, hmem, hread,
      hclear u (h.pages _ _ _ _ _ _ hj hi hji rfl rfl) hc⟩
  | readOld q t' u old' =>
    obtain ⟨hon, qt, ⟨hq, hdyn⟩, ⟨hu, hmem, hread, hc⟩, heq⟩ := hok
    exact ⟨hon, qt, ⟨hsame (hne q rfl) hq, hdyn⟩,
      ⟨hu, hmem, hread, hclear u (h.pages _ _ _ _ _ _ hj hi hji rfl rfl) hc⟩, heq⟩
  | stored q t' u old' new' =>
    obtain ⟨hon, qt, hq, hdyn, hu, hold, hnew, hap⟩ := hok
    refine ⟨hon, qt, hsame (hne q rfl) hq, hdyn, hu, hold, hnew, ?_⟩
    intro r rt hr
    have hr' : (s.k.setDynamicUserPtr p page).points.value r = some rt := hr
    rw [hvalue] at hr'
    split at hr'
    · cases hr'
      refine ⟨(hap p pt hunmoved.1).1, fun _ => ?_⟩
      rw [pt.setDynamicUserPtr_debugPage hready.1]
      exact (hready.2.2.2 q qt hq).1.symm
    · exact hap r rt hr'
  | sent q t' =>
    obtain ⟨hon, qt, hq, hdyn, hepc⟩ := hok
    refine ⟨hon, qt, hsame ?_ hq, hdyn, hepc⟩
    rintro rfl
    rw [hunmoved.1] at hq
    cases hq
    exact hdyn hunmoved.2
  | stepped q handled =>
    obtain ⟨hon, qt, hq, hdyn, hresumes⟩ := hok
    refine ⟨hon, qt, hsame ?_ hq, hdyn, hresumes⟩
    rintro rfl
    rw [hunmoved.1] at hq
    cases hq
    exact hdyn hunmoved.2

/-- The debug list still has the old key of the point, which one call is about to replace. -/
theorem Ordered.filedFor_store (h : Ordered L s) {key : UniProbe → Nat} (hfiled : s.FiledFor key)
    {i p page old new : Nat} {t : Trap} {pt : ProbePoint}
    (hi : s.calls.lookup i = some (.readOld p t page old)) (hunmoved : s.Unmoved p pt)
    (hne : page ≠ 0) (hold : old = pt.debugAddress) :
    (s.set i (s.k.setDynamicUserPtr p page) (.stored p t page old new)).FiledFor key := by
  obtain ⟨hfiles, hkeys⟩ := hfiled
  refine ⟨hfiles, ?_⟩
  intro v hv q hq
  have hqv : s.k.pointId v = some q := hq
  obtain ⟨hcalm, hst⟩ := hkeys v hv q hqv
  constructor
  · intro hc
    by_cases hqp : q = p
    · subst hqp
      exact absurd rfl (hc i _ (AList.lookup_insert _))
    · have hneq : s.k.pointId v ≠ some p := by
        rw [hqv]
        exact fun e => hqp (Option.some.inj e)
      show key v = (s.k.setDynamicUserPtr p page).debugKey v
      rw [s.k.debugKey_setDynamicUserPtr hunmoved.1 hne, if_neg hneq]
      refine hcalm (hc.of_set fun d hd => ?_)
      rw [hi] at hd
      cases hd
      exact nofun
  · intro j t' u old' new' hj
    rcases lookup_set hj with ⟨-, heq⟩ | ⟨-, hj⟩
    · cases heq
      -- until now nobody was moving the point
      have hcalmp : s.Calm p := by
        intro j c hj hc
        cases h.once _ _ _ _ _ hj hi (HitCall.moving_of_storing hc) rfl
        rw [hi] at hj
        cases hj
        cases hc
      have hprobe : s.k.probePoint v = some pt := by
        unfold Kernel.probePoint
        rw [hqv]
        exact hunmoved.1
      rw [hcalm hcalmp, hold]
      exact debugKey_of hprobe
    · exact hst j t' u old' new' hj

theorem Ordered.store (h : Ordered L s) {i p page old : Nat} {t : Trap} {pt : ProbePoint}
    (hi : s.calls.lookup i = some (.readOld p t page old)) (hp : s.k.points.value p = some pt) :
    Ordered L (s.set i (s.k.setDynamicUserPtr p page)
      (.stored p t page old (page + pt.originalInstructionLen))) := by
  obtain ⟨hon, pt', hunmoved, hready, hold⟩ := h.calls i _ hi
  have hpt : pt' = pt := by
    have hp' := hunmoved.1
    rw [hp] at hp'
    cases hp'
    rfl
  subst hpt
  obtain ⟨hne, hmem, hread, hclear⟩ := hready
  have hvalue := points_setDynamicUserPtr_of hp page
  have hslot : pt'.debugPage = pt'.singleStepAddress := if_pos hunmoved.2
  have hsound := h.books.sound.setUser hp (h.users p pt' hp) hmem hread fun q qt hq _ hdyn _ => by
    have hap := (hclear q qt hq).2
    rwa [ProbePoint.debugPage, if_neg hdyn] at hap
  refine h.update (h.books.moved hsound rfl rfl fun v _ =>
    ⟨s.k.breakKey_setDynamicUserPtr p page v, rfl⟩) ?_ ?_
    (fun j c hji hj => h.others_store hi hunmoved ⟨hne, hmem, hread, hclear⟩ hji hj) ?_
    (fun q hq => .inl ⟨_, hi, hq⟩) nofun ?_
  · exact h.keys.setUser hne (fun q qt hq _ => (hclear q qt hq).2) hvalue
  · intro q qt hq
    rw [hvalue] at hq
    split at hq
    · cases hq
      exact h.users p pt' hp
    · exact h.users q qt hq
  · refine ⟨hon, pt'.setDynamicUserPtr page, (hvalue p).trans (if_pos rfl), rfl, hne, ?_, rfl, ?_⟩
    · rw [hold, ProbePoint.debugAddress, if_pos hunmoved.2]
      rfl
    · intro q qt hq
      have hq' : (s.k.setDynamicUserPtr p page).points.value q = some qt := hq
      rw [hvalue] at hq'
      split at hq'
      · rename_i hqp
        cases hq'
        exact ⟨(hclear p pt' hp).1, fun hqp' => absurd hqp hqp'⟩
      · rename_i hqp
        have hap := h.keys p q pt' qt hp hq' fun e => hqp e.symm
        rw [hslot] at hap
        exact ⟨(hclear q qt hq').1, fun _ => hap⟩
  · obtain ⟨key, hfiled⟩ := h.filed
    exact ⟨key, h.filedFor_store hfiled hi hunmoved hne hold⟩

theorem Ordered.key_ne (h : Ordered L s) {p : Nat} {pt : ProbePoint} {key : UniProbe → Nat}
    (hkey : s.FiledFor key) (hp : s.k.points.value p = some pt) {v : UniProbe} (hv : v ∈ s.probes)
    (hne : s.k.pointId v ≠ some p) : key v ≠ pt.debugAddress := by
  obtain ⟨pr, qt, -, hq, hid, hprobe⟩ := h.books.live_handle hv
  have hqp : p ≠ pr.point := fun e => hne (hid.trans (congrArg some e.symm))
  obtain ⟨hcalm, hstored⟩ := hkey.2 v hv pr.point hid
  have hlen := pt.oldInstruction.len_le
  have hlen' := qt.oldInstruction.len_le
  rw [pt.debugAddress_eq]
  by_cases hc : s.Calm pr.point
  · rw [hcalm hc, debugKey_of hprobe, qt.debugAddress_eq]
    exact (h.keys _ _ _ _ hp hq hqp).symm.add_ne hlen' hlen
  · -- a call is about to replace the key, which is still in the slot of its point
    unfold Calm at hc
    push Not at hc
    obtain ⟨j, c, hj, hcs⟩ := hc
    cases c with
    | stored q t' u old' new' =>
      cases hcs
      obtain ⟨-, rt, hr, -, -, hold', -, hap⟩ := h.calls j _ hj
      rw [hq] at hr
      cases hr
      rw [hstored j t' u old' new' hj, hold']
      exact ((hap p pt hp).2 hqp).add_ne hlen' hlen
    | found q t' => cases hcs
    | unset q t' => cases hcs
    | allocated q t' u => cases hcs
    | readOld q t' u old' => cases hcs
    | sent q t' => cases hcs
    | stepped q handled => cases hcs

/-- The key of a probe on another point is not one of the two that the call is about. -/
theorem Ordered.key_other (h : Ordered L s) {i p page old new : Nat} {t : Trap} {pt : ProbePoint}
    {key : UniProbe → Nat} (hkey : s.FiledFor key)
    (hi : s.calls.lookup i = some (.stored p t page old new)) (hst : s.Stored p page old new pt)
    {v : UniProbe} (hv : v ∈ s.probes) (hne : s.k.pointId v ≠ some p) : key v ≠ old ∧ key v ≠ new := by
  obtain ⟨hp, hdyn, hpage, rfl, rfl, hap⟩ := hst
  have hnew : key v ≠ page + pt.originalInstructionLen := by
    have hne' := h.key_ne hkey hp hv hne
    rwa [ProbePoint.debugAddress, if_neg (by rw [hdyn]; exact hpage), hdyn] at hne'
  refine ⟨?_, hnew⟩
  obtain ⟨pr, qt, -, hq, hid, hprobe⟩ := h.books.live_handle hv
  have hqp : pr.point ≠ p := fun e => hne (hid.trans (congrArg some e))
  obtain ⟨hcalm, hstored⟩ := hkey.2 v hv pr.point hid
  have hlen := pt.oldInstruction.len_le
  have hlen' := qt.oldInstruction.len_le
  by_cases hc : s.Calm pr.point
  · rw [hcalm hc, debugKey_of hprobe, qt.debugAddress_eq]
    exact ((hap _ qt hq).2 hqp).symm.add_ne hlen' hlen
  · unfold Calm at hc
    push Not at hc
    obtain ⟨j, c, hj, hcs⟩ := hc
    cases c with
    | stored q t' u old' new' =>
      cases hcs
      obtain ⟨-, rt, hr, -, -, hold', -, -⟩ := h.calls j _ hj
      rw [hq] at hr
      cases hr
      rw [hstored j t' u old' new' hj, hold']
      exact (h.books.sound.planted.slots_apart _ _ _ _ hq hp hqp).add_ne hlen' hlen
    | found q t' => cases hcs
    | unset q t' => cases hcs
    | allocated q t' u => cases hcs
    | readOld q t' u old' => cases hcs
    | sent q t' => cases hcs
    | stepped q handled => cases hcs

theorem Ordered.rekey (h : Ordered L s) {i p page old new : Nat} {t : Trap}
    (hi : s.calls.lookup i = some (.stored p t page old new)) :
    Ordered L (s.set i (s.k.replaceDebugListWithNewAddress old new)
      (.sent p { t with regs := setupSingleStep t.regs page })) := by
  obtain ⟨⟨u, hu, hid⟩, pt, hst⟩ := h.calls i _ hi
  obtain ⟨key, hfiled⟩ := h.filed
  have hmine : ∀ v ∈ s.probes, s.k.pointId v = some p → key v = old := fun v hv hv' =>
    (hfiled.2 v hv p hv').2 i t page old new hi
  have hother := fun v hv (hne : s.k.pointId v ≠ some p) => h.key_other hfiled hi hst (v := v) hv hne
  obtain ⟨hp, hdyn, hpage, hold, hnew, hap⟩ := hst
  have holdnew : old ≠ new := by
    rw [hold, hnew]
    have hlen := pt.oldInstruction.len_le
    exact (hap p pt hp).1.symm.add_ne hlen hlen
  have hfree : ∀ v ∈ s.probes, key v ≠ new := by
    intro v hv
    by_cases hvp : s.k.pointId v = some p
    · rw [hmine v hv hvp]
      exact holdnew
    · exact (hother v hv hvp).2
  have hk : s.k.replaceDebugListWithNewAddress old new =
      { s.k with debugList := Filing.rekey s.k.debugList old new } := by
    unfold Kernel.replaceDebugListWithNewAddress
    rw [Files.overwritten_eq_nil hfiled.1 hfree]
    rfl
  have hsound := h.books.sound.replaceDebugList old new
  rw [hk] at hsound ⊢
  refine h.update (h.books.moved hsound rfl rfl fun _ _ => ⟨rfl, rfl⟩) h.keys h.users ?_ ?_ nofun
    nofun ?_
  · intro j c _ hj
    have hok := h.calls j c hj
    cases c <;> exact hok
  · refine ⟨⟨u, hu, hid⟩, pt, hp, ?_, hdyn.symm⟩
    rw [hdyn]
    exact hpage
  · obtain ⟨key', hmoved, hkept⟩ : ∃ key' : UniProbe → Nat,
        (∀ v, s.k.pointId v = some p → key' v = new) ∧
          ∀ v, s.k.pointId v ≠ some p → key' v = key v :=
      ⟨fun v => if s.k.pointId v = some p then new else key v,
        fun _ hv => if_pos hv, fun _ hv => if_neg hv⟩
    refine ⟨key', ?_, ?_⟩
    · refine Files.rekey hfiled.1 hfree ?_ ⟨u, hu, hmine u hu hid⟩
      intro v hv
      by_cases hvp : s.k.pointId v = some p
      · rw [hmoved v hvp, if_pos (hmine v hv hvp)]
      · rw [hkept v hvp, if_neg (hother v hv hvp).1]
    · intro v hv q hq
      have hqv : s.k.pointId v = some q := hq
      obtain ⟨hcalm, hstored⟩ := hfiled.2 v hv q hqv
      constructor
      · intro hc
        by_cases hqp : q = p
        · subst hqp
          have hprobe : s.k.probePoint v = some pt := by
            unfold Kernel.probePoint
            rw [hqv]
            exact hp
          rw [hmoved v hqv, hnew]
          symm
          refine (debugKey_of hprobe).trans ?_
          rw [ProbePoint.debugAddress, if_neg (by rw [hdyn]; exact hpage), hdyn]
        · have hvp : s.k.pointId v ≠ some p := by
            rw [hqv]
            exact fun e => hqp (Option.some.inj e)
          rw [hkept v hvp]
          refine hcalm (hc.of_set fun d hd => ?_)
          rw [hi] at hd
          cases hd
          exact fun e => hqp (Option.some.inj e).symm
      · intro j t' u' old' new' hj
        rcases lookup_set hj with ⟨-, heq⟩ | ⟨hji, hj⟩
        · cases heq
        · have hvp : s.k.pointId v ≠ some p := by
            rw [hqv]
            intro e
            cases e
            exact hji (h.once _ _ _ _ _ hj hi rfl rfl)
          rw [hkept v hvp]
          exact hstored j t' u' old' new' hj

/-- Where no call is about to tell the debug list of the point, a debug trap in its slot finds just
the probes of the point, and the thread goes on behind the instruction. -/
theorem Ordered.finds (h : Ordered L s) {p : Nat} {pt : ProbePoint} (hon : s.On p)
    (hp : s.k.points.value p = some pt) (hcalm : s.Calm p) :
    ∃ l, s.k.getDebugList pt.debugAddress = some l ∧
      (∀ u ∈ s.probes, u ∈ l ↔ s.k.pointId u = some p) ∧
      ∀ t', t'.regs.debugAddress = pt.debugAddress →
        (s.k.uprobeHandlerFromDebug t').Resumes pt.returnAddress := by
  obtain ⟨u, hu, hid⟩ := hon
  obtain ⟨key, hfiled⟩ := h.filed
  have hprobe : ∀ v, s.k.pointId v = some p → s.k.probePoint v = some pt := by
    intro v hv
    unfold Kernel.probePoint
    rw [hv]
    exact hp
  have hmine : ∀ v ∈ s.probes, s.k.pointId v = some p → key v = pt.debugAddress := by
    intro v hv hvp
    rw [((hfiled.2 v hv p hvp).1 hcalm), debugKey_of (hprobe v hvp)]
  have hlook := Files.lookup_key hfiled.1 hu
  rw [hmine u hu hid] at hlook
  have hlist : s.k.getDebugList pt.debugAddress =
      some (s.probes.filter fun v => key v = pt.debugAddress) := hlook
  have hmem : ∀ v ∈ s.probes, v ∈ s.probes.filter (fun v => key v = pt.debugAddress) ↔
      s.k.pointId v = some p := by
    intro v hv
    rw [List.mem_filter, decide_eq_true_eq]
    constructor
    · rintro ⟨-, hkv⟩
      by_contra hvp
      exact h.key_ne hfiled hp hv hvp hkv
    · exact fun hvp => ⟨hv, hmine v hv hvp⟩
  refine ⟨_, hlist, hmem, ?_⟩
  intro t' ht'
  unfold Kernel.uprobeHandlerFromDebug Kernel.kprobeHandlerFromDebug
  rw [ht', hlist]
  have hfirst : s.k.firstPoint (s.probes.filter fun v => key v = pt.debugAddress) = some pt := by
    have hne := Files.ne_nil hfiled.1 hlook
    cases hl : s.probes.filter fun v => key v = pt.debugAddress with
    | nil => exact absurd hl hne
    | cons v l =>
      have hv : v ∈ s.probes.filter fun v => key v = pt.debugAddress := by
        rw [hl]
        exact List.mem_cons_self
      exact hprobe v ((hmem v (List.mem_filter.mp hv).1).mp hv)
  dsimp only
  rw [hfirst]
  exact ⟨_, rfl, rfl⟩

theorem Ordered.debugTrap (h : Ordered L s) {i p : Nat} {t t' : Trap} {pt : ProbePoint}
    (hi : s.calls.lookup i = some (.sent p t)) (hp : s.k.points.value p = some pt)
    (ht' : t'.regs.debugAddress = t.regs.epc + pt.originalInstructionLen) (hcalm : s.Calm p) :
    Ordered L (s.set i s.k (.stepped p (s.k.uprobeHandlerFromDebug t'))) := by
  refine h.think ?_ nofun nofun rfl fun c hc => by rw [hi] at hc; cases hc; rfl
  obtain ⟨hon, qt, hq, hdyn, hepc⟩ := h.calls i _ hi
  rw [hp] at hq
  cases hq
  obtain ⟨l, -, -, hresumes⟩ := h.finds hon hp hcalm
  refine ⟨hon, pt, hp, hdyn, hresumes t' ?_⟩
  rw [ht', hepc, ProbePoint.debugAddress, if_neg hdyn]

theorem Ordered.step {s' : Hits} (h : Ordered L s) (hstep : Step L s s') (horder : InOrder s s') :
    Ordered L s' := by
  cases hstep with
  | trap i p t l hi hl hp => exact h.trap hi hl hp
  | readSet i p t pt hi hp hset => exact h.readSet hi hp hset
  | readUnset i p t pt hi hp hunset =>
    exact h.readUnset hi hp hunset (horder.reader i p t hi (AList.lookup_insert _))
  | allocate i p page t pt hi hp hfresh =>
    exact h.allocate hi hp hfresh (horder.pages i p t page pt hi (AList.lookup_insert _) hp)
  | readOld i p page t pt hi hp => exact h.readOld hi hp
  | store i p page old t pt hi hp => exact h.store hi hp
  | rekey i p page old new t hi => exact h.rekey hi
  | debugTrap i p t t' pt hi hp ht' =>
    exact h.debugTrap hi hp ht' (horder.traps i p t _ hi (AList.lookup_insert _))

theorem ordered_start (h : Start L s) : Ordered L s := by
  obtain ⟨r, hr, rfl⟩ := h
  refine ⟨hr.books, hr.keys, hr.users, nofun, nofun, nofun, r.k.debugKey, hr.filed, ?_⟩
  intro v _ p _
  exact ⟨fun _ => rfl, nofun⟩

theorem Orderly.ordered (h : Orderly L s) : Ordered L s := by
  refine Machine.Reachable.invariant ?_ ?_ h
  · exact fun _ => ordered_start
  · exact fun _ _ hs hstep => hs.step hstep.1 hstep.2

theorem inOrder_set {i : Nat} {k : Kernel} {c : HitCall}
    (hreader : ∀ p t, c = .unset p t →
      ∀ j d, s.calls.lookup j = some d → d.unpublished ≠ some p)
    (htraps : ∀ p handled, c = .stepped p handled → s.Calm p)
    (hpages : ∀ p t page pt, c = .allocated p t page → s.k.points.value p = some pt →
      ∀ e ∈ s.k.userPages, e.1 ≠ pt.userPid → Apart page e.2) : InOrder s (s.set i k c) where
  reader j p t hj hj' := by
    rcases lookup_set hj' with ⟨-, heq⟩ | ⟨-, hj''⟩
    · exact hreader p t heq.symm
    · cases hj.symm.trans hj''
  traps j p t handled hj hj' := by
    rcases lookup_set hj' with ⟨-, heq⟩ | ⟨-, hj''⟩
    · exact htraps p handled heq.symm
    · cases hj.symm.trans hj''
  pages j p t page pt hj hj' hp := by
    rcases lookup_set hj' with ⟨-, heq⟩ | ⟨-, hj''⟩
    · exact hpages p t page pt heq.symm hp
    · cases hj.symm.trans hj''

/-- The steps of a call, nothing happening in between, are `uprobe_handler_from_break`, and they
are in order when nobody else is about to store the pointer. -/
theorem call_alone (L : Layout) (s : Hits) {i p page : Nat} {t : Trap} {pt : ProbePoint}
    {l : List UniProbe} (hi : s.calls.lookup i = none)
    (hl : s.k.getBreakList t.regs.breakAddress = some l) (hp : l.head?.bind s.k.pointId = some p)
    (hpt : s.k.points.value p = some pt) (hfirst : s.k.firstPoint l = some pt)
    (hfresh : pt.dynamicUserPtr = 0 → FreshUserPage L s.k pt.userPid page)
    (hown : ∀ e ∈ s.k.userPages, e.1 ≠ pt.userPid → Apart page e.2)
    (hquiet : ∀ j c, s.calls.lookup j = some c → c.unpublished ≠ some p) :
    ∃ s' out, Relation.ReflTransGen (fun s s' => Step L s s' ∧ InOrder s s') s s' ∧
      s.k.uprobeHandlerFromBreak t page = (.claimed out, s'.k) ∧ s'.probes = s.probes ∧
      s'.calls.lookup i = some (.sent p out) ∧
      ∀ j, j ≠ i → s'.calls.lookup j = s.calls.lookup j := by
  have hself : ∀ (s : Hits) k c, (s.set i k c).calls.lookup i = some c := fun _ _ _ =>
    AList.lookup_insert _
  have hother : ∀ (s : Hits) k c j, j ≠ i → (s.set i k c).calls.lookup j = s.calls.lookup j :=
    fun _ _ _ _ hj => lookup_set_ne hj
  have hfound : Relation.ReflTransGen (fun s s' => Step L s s' ∧ InOrder s s') s
      (s.set i s.k (.found p (s.k.runPre l t))) :=
    .single ⟨.trap s i p t l hi hl hp, inOrder_set nofun nofun nofun⟩
  have hrun : s.k.uprobeHandlerFromBreak t page = if pt.dynamicUserPtr ≠ 0 then
      (.claimed { s.k.runPre l t with
        regs := setupSingleStep (s.k.runPre l t).regs pt.dynamicUserPtr }, s.k)
      else (.claimed { s.k.runPre l t with regs := setupSingleStep (s.k.runPre l t).regs page },
        s.k.firstHit p pt page) := by
    unfold Kernel.uprobeHandlerFromBreak
    rw [hl]
    dsimp only
    rw [hp, hfirst]
  rw [hrun]
  by_cases hdyn : pt.dynamicUserPtr = 0
  · rw [if_neg (not_not.mpr hdyn)]
    have hunset := hfound.tail ⟨.readUnset _ i p _ pt (hself _ _ _) hpt hdyn, inOrder_set
      (fun q t' heq j d hj => by
        cases heq
        rcases lookup_set hj with ⟨-, rfl⟩ | ⟨-, hj⟩
        · exact nofun
        · exact hquiet j d hj) nofun nofun⟩
    have hallocated := hunset.tail
      ⟨.allocate _ i p page _ pt (hself _ _ _) hpt (hfresh hdyn), inOrder_set nofun nofun
        fun q t' page' qt heq hq => by
          cases heq
          cases hpt.symm.trans hq
          exact hown⟩
    have hold := hallocated.tail
      ⟨.readOld _ i p page _ pt (hself _ _ _) hpt, inOrder_set nofun nofun nofun⟩
    have hstored := hold.tail
      ⟨.store _ i p page _ _ pt (hself _ _ _) hpt, inOrder_set nofun nofun nofun⟩
    have hsent := hstored.tail
      ⟨.rekey _ i p page _ _ _ (hself _ _ _), inOrder_set nofun nofun nofun⟩
    refine ⟨_, _, hsent, rfl, rfl, hself _ _ _, ?_⟩
    intro j hj
    simp only [hother _ _ _ j hj]
  · rw [if_pos hdyn]
    refine ⟨_, _, hfound.tail ⟨.readSet _ i p _ pt (hself _ _ _) hpt hdyn,
      inOrder_set nofun nofun nofun⟩,
      rfl, rfl, hself _ _ _, ?_⟩
    intro j hj
    simp only [hother _ _ _ j hj]

open Uprobes (userInsn installed installed_step settled_boot)

def unhit : Hits := ⟨(installed 1).k, (installed 1).probes, ∅⟩

theorem unhit_start : Start userInsn unhit := by
  refine ⟨installed 1, ?_, rfl⟩
  have hstep : Uprobes.Step userInsn Uprobes.Alone Kernel.Unmixed (Uprobes.boot userInsn)
      (installed 1) := by
    refine installed_step 1 ?_
    intro p pt hp
    cases hp
  exact (settled_boot userInsn).step (fun _ hb => hb) (fun _ _ hpage => hpage) hstep

/-- What the pre handlers leave of a trap at the probed instruction. -/
def entered : Trap := ⟨⟨4096, 0, 0, []⟩, [.pre ⟨.uprobe, 0⟩]⟩

def atUprobe : ProbePoint := plantedPoint (some 1) 4096 8192 (.inst16 1)

theorem unhit_fresh {k : Kernel} {page : Nat} (hpages : k.pages = [8192]) (hlo : 12288 ≤ page)
    (husers : ∀ e ∈ k.userPages, e.2 + 4096 ≤ page) : FreshUserPage userInsn k (some 1) page where
  nonzero := by omega
  slots q hq := by
    rw [hpages, List.mem_singleton] at hq
    subst hq
    right
    exact hlo
  users e he _ := .inr (husers e he)
  off b hb _ htext := by
    have h := htext.2.2
    omega

theorem unhit_point : unhit.k.points.value 0 = some atUprobe := by decide +kernel

theorem unhit_inOrder {s : Hits} {i : Nat} {k : Kernel} {p page : Nat} {t : Trap}
    (husers : ∀ e ∈ s.k.userPages, e.1 = some 1)
    (hpoints : ∀ pt, s.k.points.value p = some pt → pt.userPid = some 1) :
    InOrder s (s.set i k (.allocated p t page)) := by
  refine inOrder_set nofun nofun ?_
  intro q t' page' qt heq hq e he hne
  cases heq
  rw [hpoints qt hq] at hne
  exact absurd (husers e he) hne

/-- Both threads trapped; the first has stored the pointer and not told the debug list yet, and the
second has read it. -/
def pointerStored : Hits :=
  let filled := unhit.k.allocUserExecMemory (some 1) 12288
    (unhit.k.mem.read none atUprobe.singleStepAddress atUprobe.instructionSlotLen)
  let both := (unhit.set 0 unhit.k (.found 0 entered)).set 1 unhit.k (.found 0 entered)
  let allocated := (both.set 0 unhit.k (.unset 0 entered)).set 0 filled (.allocated 0 entered 12288)
  let stored := (allocated.set 0 filled (.readOld 0 entered 12288 8194)).set 0
    (filled.setDynamicUserPtr 0 12288) (.stored 0 entered 12288 8194 12290)
  stored.set 1 stored.k (.sent 0 { entered with regs := setupSingleStep entered.regs 12288 })

theorem pointerStored_orderly : Orderly userInsn pointerStored := by
  have h0 : Orderly userInsn unhit := Machine.Reachable.start unhit_start
  have h1 := h0.next ⟨.trap unhit 0 0 ⟨⟨4096, 0, 0, []⟩, []⟩ [⟨.uprobe, 0⟩] rfl rfl rfl,
    inOrder_set nofun nofun nofun⟩
  have h2 := h1.next ⟨.trap _ 1 0 ⟨⟨4096, 0, 0, []⟩, []⟩ [⟨.uprobe, 0⟩] rfl rfl rfl,
    inOrder_set nofun nofun nofun⟩
  have h3 := h2.next ⟨.readUnset _ 0 0 _ atUprobe rfl unhit_point rfl, inOrder_set (by
    intro p t heq j d hj
    rcases lookup_set hj with ⟨-, rfl⟩ | ⟨-, hj⟩
    · exact nofun
    · rcases lookup_set hj with ⟨-, rfl⟩ | ⟨-, hj⟩
      · exact nofun
      · cases hj) nofun nofun⟩
  have h4 := h3.next ⟨.allocate _ 0 0 12288 _ atUprobe rfl unhit_point
    (unhit_fresh (by decide +kernel) (Nat.le_refl _) nofun), unhit_inOrder nofun (by
      intro pt hpt
      cases unhit_point.symm.trans hpt
      rfl)⟩
  have h5 := h4.next ⟨.readOld _ 0 0 12288 _ atUprobe rfl unhit_point, inOrder_set nofun nofun nofun⟩
  have h6 := h5.next ⟨.store _ 0 0 12288 _ _ atUprobe rfl unhit_point,
    inOrder_set nofun nofun nofun⟩
  exact h6.next ⟨.readSet _ 1 0 _ (atUprobe.setDynamicUserPtr 12288) rfl (by decide +kernel)
    (by decide), inOrder_set nofun nofun nofun⟩

theorem pointerStored_point :
    pointerStored.k.points.value 0 = some (atUprobe.setDynamicUserPtr 12288) := by
  decide +kernel

/-- A debug trap that comes before the debug list knows is not claimed, although one thread only
has read the pointer as 0. -/
theorem trap_before_rekey : ∃ s, Reachable userInsn s ∧
    s.calls.lookup 0 = some (.stored 0 entered 12288 8194 12290) ∧
    s.calls.lookup 1 = some (.stepped 0 .unclaimed) := by
  have hstored : Reachable userInsn pointerStored :=
    Machine.Reachable.mono (fun _ _ hstep => hstep.1) pointerStored_orderly
  exact ⟨_, hstored.next (.debugTrap _ 1 0 _ ⟨⟨12290, 0, 0, []⟩, []⟩
    (atUprobe.setDynamicUserPtr 12288) rfl pointerStored_point rfl), rfl, rfl⟩

end Hits

end ExtKtrace.Kprobe

