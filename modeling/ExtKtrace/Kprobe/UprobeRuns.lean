import ExtKtrace.Lib.Machine
import ExtKtrace.Kprobe.Uprobe

/-!
# Runs of uprobe calls and hits

Runs of `register_uprobe`, `unregister_uprobe` and breakpoint hits, one at a time, on one manager
and one point list. `Settled` is what holds between them as long as no two processes have probes
at one address.
-/

namespace ExtKtrace.Kprobe
set_option autoImplicit false

open Filing Kernel

/-- A handle that a caller holds, with the process and the address it was registered for. -/
structure UprobeHandle where
  probe : UniProbe
  process : Space
  addr : Nat

/-- The registry, the handles in the order of registration, and for each address the page that
the first hit was sent to, as long as there are probes. -/
structure Uprobes where
  k : Kernel
  handles : List UprobeHandle
  userSlots : Table Nat Nat

namespace Uprobes
variable (s : Uprobes)

def boot (L : Layout) : Uprobes := ⟨Kernel.boot L.code, [], ∅⟩

def probes : List UniProbe := s.handles.map UprobeHandle.probe

/-- The probes registered for a process at an address. -/
def registeredFor (sp : Space) (a : Nat) : List UniProbe :=
  (s.handles.filter fun h => h.process = sp ∧ h.addr = a).map UprobeHandle.probe

def register (b : ProbeBuilder) (res : Except ProbeInstallError UniProbe × Kernel) : Uprobes :=
  match res with
  | (.error _, k) => { s with k := k }
  | (.ok u, k) => { s with k := k, handles := s.handles ++ [⟨u, b.userPid, b.probeAddr⟩] }

def vacated (handles : List UprobeHandle) (a : Nat) : Bool := handles.all fun h => h.addr ≠ a

/-- An address without probes has no page any more. -/
def giveBack (u : UniProbe) : Uprobes :=
  let handles := s.handles.filter fun h => h.probe ≠ u
  { k := s.k.unregisterProbe u
    handles := handles
    userSlots := if vacated handles (s.k.breakKey u) then s.userSlots.erase (s.k.breakKey u)
      else s.userSlots }

def hit (t : Trap) (page : Nat) : Uprobes :=
  let a := t.regs.breakAddress
  { s with
    k := (s.k.uprobeHandlerFromBreak t page).2
    userSlots := if vacated s.handles a ∨ (s.userSlots.lookup a).isSome then s.userSlots
      else s.userSlots.insert a page }

/-- A page for a hit that needs one; `Given` says which pages the processes get. -/
def PageFor (L : Layout) (Given : Kernel → Space → Nat → Prop) (t : Trap) (page : Nat) : Prop :=
  ∀ l pt, s.k.getBreakList t.regs.breakAddress = some l → s.k.firstPoint l = some pt →
    pt.dynamicUserPtr = 0 → FreshUserPage L s.k pt.userPid page ∧ Given s.k pt.userPid page

/-- Any page that the allocator hands out. -/
def AnyPage (_ : Kernel) (_ : Space) (_ : Nat) : Prop := True

/-- A call or a hit; `Own` says for whom probes may be registered where. The kernel side slots are
no user pages. -/
inductive Step (L : Layout) (Own : Uprobes → ProbeBuilder → Prop)
    (Given : Kernel → Space → Nat → Prop) : Uprobes → Uprobes → Prop
  | registerUprobe (s : Uprobes) (b : ProbeBuilder) (page : Nat)
      (res : Except ProbeInstallError UniProbe × Kernel) (hown : Own s b)
      (hsite : AtSite L s.k b) (hfresh : FreshPage L s.k page)
      (husers : ∀ e ∈ s.k.userPages, Apart page e.2) (hres : s.k.registerUprobe b page = some res) :
      Step L Own Given s (s.register b res)
  | unregisterUprobe (s : Uprobes) (arc : Nat) (h : ⟨.uprobe, arc⟩ ∈ s.probes) :
      Step L Own Given s (s.giveBack ⟨.uprobe, arc⟩)
  | setEnable (s : Uprobes) (u : UniProbe) (enable : Bool) :
      Step L Own Given s { s with k := s.k.setEnable u enable }
  | hit (s : Uprobes) (t : Trap) (page : Nat) (hpage : s.PageFor L Given t page) :
      Step L Own Given s (s.hit t page)

/-- The point filed at the address of the builder is in the same process. -/
def Alone (s : Uprobes) (b : ProbeBuilder) : Prop :=
  ∀ p pt, s.k.pointList.lookup b.probeAddr = some p → s.k.points.value p = some pt →
    pt.userPid = b.userPid

def userSlot (pt : ProbePoint) : Option Nat :=
  if pt.dynamicUserPtr = 0 then none else some pt.dynamicUserPtr

structure Settled (L : Layout) (s : Uprobes) : Prop where
  books : Books L s.k s.probes .idle fun _ => 0
  filed : Filed s.k s.probes .idle
  keys : KeysApart s.k.points.value
  owned : ∀ h ∈ s.handles, ∃ pt, s.k.probePoint h.probe = some pt ∧ pt.userPid = h.process ∧
    pt.addr = h.addr ∧ s.userSlots.lookup h.addr = userSlot pt
  users : ∀ p pt, s.k.points.value p = some pt → pt.userPid ≠ none
  vacant : ∀ a, vacated s.handles a → s.userSlots.lookup a = none

variable {s} {L : Layout}

theorem settled_boot (L : Layout) : Settled L (boot L) where
  books := Books.boot L
  filed := Files.empty _
  keys := fun p q pt qt h => by simp [boot, Kernel.boot] at h
  owned := by simp [boot]
  users := fun p pt h => by simp [boot, Kernel.boot] at h
  vacant := fun _ _ => rfl

theorem vacated_iff {handles : List UprobeHandle} {a : Nat} :
    vacated handles a ↔ ∀ h ∈ handles, h.addr ≠ a := by
  simp [vacated]

theorem Settled.addr_eq (h : Settled L s) {x : UprobeHandle} (hx : x ∈ s.handles) :
    s.k.breakKey x.probe = x.addr := by
  obtain ⟨pt, hpt, -, haddr, -⟩ := h.owned x hx
  rw [breakKey_of hpt, ← haddr]
  rfl

theorem Settled.vacated_iff_key (h : Settled L s) {a : Nat} :
    vacated s.handles a ↔ ∀ u ∈ s.probes, s.k.breakKey u ≠ a := by
  rw [vacated_iff]
  constructor
  · intro hall u hu
    obtain ⟨x, hx, rfl⟩ := List.mem_map.mp hu
    rw [h.addr_eq hx]
    exact hall x hx
  · intro hall x hx
    rw [← h.addr_eq hx]
    exact hall x.probe (List.mem_map_of_mem hx)

theorem Settled.debug_handles (h : Settled L s) (a : Nat) (l : List UniProbe)
    (hl : s.k.debugList.lookup a = some l) : ∀ x ∈ l, x ∈ s.probes :=
  fun _ hx => (Files.mem_of_lookup h.filed hl hx).1

/-- Every live point is the point of a handle. -/
theorem Settled.handle_of_point (h : Settled L s) {p : Nat} {pt : ProbePoint}
    (hp : s.k.points.value p = some pt) :
    ∃ x ∈ s.handles, s.k.probePoint x.probe = some pt ∧ pt.userPid = x.process ∧
      pt.addr = x.addr := by
  obtain ⟨-, u, hu, hid⟩ := h.books.point_of_live h.debug_handles hp
  have hprobe : s.k.probePoint u = some pt := by simp [probePoint, hid, hp]
  obtain ⟨x, hx, rfl⟩ := List.mem_map.mp hu
  obtain ⟨qt, hqt, hspace, haddr, -⟩ := h.owned x hx
  rw [hprobe] at hqt
  cases hqt
  exact ⟨x, hx, hprobe, hspace, haddr⟩

/-- Handles at one address are on one point. -/
theorem Settled.same_point (h : Settled L s) {u v : UniProbe} (hu : u ∈ s.probes)
    (hv : v ∈ s.probes) (heq : s.k.breakKey v = s.k.breakKey u) :
    s.k.pointId v = s.k.pointId u ∧ s.k.probePoint v = s.k.probePoint u := by
  have hid : s.k.pointId v = s.k.pointId u := by
    rw [← h.books.pointed_handle hv, ← h.books.pointed_handle hu, heq]
  refine ⟨hid, ?_⟩
  unfold Kernel.probePoint
  rw [hid]

/-- The page of a new point is apart from the pages that threads are sent to. -/
theorem Settled.keys_new (h : Settled L s) {k' : Kernel} {sp : Space} {page : Nat}
    (hnew : NewPoint s.k k' sp page) (hfresh : FreshPage L s.k page)
    (husers : ∀ e ∈ s.k.userPages, Apart page e.2) : KeysApart k'.points.value := by
  have hpage : ∀ q qt, s.k.points.value q = some qt → Apart page qt.debugPage := by
    intro q qt hq
    unfold ProbePoint.debugPage
    split
    · exact hfresh.apart _ (h.books.sound.planted.slot_mem q qt hq)
    · rename_i hdyn
      exact husers _ (h.books.sound.planted.user q qt hq hdyn).2.1
  have hplanted : ∀ a o, (plantedPoint sp a page o).debugPage = page := fun a o =>
    asPtr_allocExecMemory sp page
  intro p q pt qt hp hq hne
  rcases hnew p pt hp with hp | ⟨rfl, a, o, rfl⟩ <;> rcases hnew q qt hq with hq | ⟨rfl, a', o', rfl⟩
  · exact h.keys p q pt qt hp hq hne
  · rw [hplanted]
    exact (hpage p pt hp).symm
  · rw [hplanted]
    exact hpage q qt hq
  · exact absurd rfl hne

theorem Settled.register (h : Settled L s) {b : ProbeBuilder} {page : Nat}
    (hpid : b.userPid ≠ none) (hown : Alone s b) (hsite : AtSite L s.k b)
    (hfresh : FreshPage L s.k page) (husers : ∀ e ∈ s.k.userPages, Apart page e.2) :
    Settled L (s.register b (s.k.registerProbe .uprobe b page)) := by
  rcases h.books.register .uprobe b hsite hfresh with ⟨e, heq⟩ |
    ⟨u, k', heq, -, hb, hf, hkey, hsame⟩
  · rw [heq]
    exact h
  · have hnew := registerProbe_points s.k .uprobe b page
    rw [heq] at hnew ⊢
    have hprobes : (s.register b (.ok u, k')).probes = s.probes ++ [u] := by
      simp [probes, Uprobes.register]
    obtain ⟨pr, pt, -, hpt, hid, hprobe⟩ := hb.live_handle (v := u) (by simp)
    have haddr : pt.addr = b.probeAddr := by
      rw [← hkey, breakKey_of hprobe]
      rfl
    refine ⟨?_, ?_, h.keys_new hnew hfresh husers, ?_, ?_, ?_⟩
    · rw [hprobes]
      exact hb
    · rw [hprobes]
      exact hf h.filed
    · intro x hx
      rcases List.mem_append.mp hx with hx | hx
      · obtain ⟨qt, hqt, hspace, hqaddr, hslot⟩ := h.owned x hx
        exact ⟨qt, (hsame x.probe (List.mem_map_of_mem hx)).2.trans hqt, hspace, hqaddr, hslot⟩
      · rw [List.mem_singleton] at hx
        subst hx
        refine ⟨pt, hprobe, ?_, haddr, ?_⟩
        · rcases hnew _ pt hpt with hold | ⟨-, a, o, rfl⟩
          · have hlook := (h.books.point_of_live h.debug_handles hold).1
            rw [haddr] at hlook
            exact hown _ pt hlook hold
          · rfl
        · show s.userSlots.lookup b.probeAddr = userSlot pt
          by_cases hv : vacated s.handles b.probeAddr
          · rw [h.vacant _ hv]
            rcases hnew _ pt hpt with hold | ⟨-, a, o, rfl⟩
            · obtain ⟨-, v, hv', hid'⟩ := h.books.point_of_live h.debug_handles hold
              have hprobe' : s.k.probePoint v = some pt := by simp [probePoint, hid', hold]
              refine absurd ?_ (h.vacated_iff_key.mp hv v hv')
              rw [breakKey_of hprobe', ← haddr]
              rfl
            · rfl
          · rw [vacated_iff] at hv
            push Not at hv
            obtain ⟨x, hx, hxa⟩ := hv
            obtain ⟨qt, hqt, -, -, hslot⟩ := h.owned x hx
            have hx' : x.probe ∈ s.probes := List.mem_map_of_mem hx
            have hqt' := (hsame x.probe hx').2.trans hqt
            have hxk : k'.breakKey x.probe = k'.breakKey u := by
              rw [hkey, hsame.breakKey hx', h.addr_eq hx, hxa]
            have hsamept : k'.probePoint x.probe = k'.probePoint u := by
              have hidx : k'.pointId x.probe = k'.pointId u := by
                rw [← hb.pointed_handle (List.mem_append_left _ hx'),
                  ← hb.pointed_handle (v := u) (by simp), hxk]
              unfold Kernel.probePoint
              rw [hidx]
            rw [hqt', hprobe] at hsamept
            cases hsamept
            rw [← hxa]
            exact hslot
    · intro q qt hq
      rcases hnew q qt hq with hold | ⟨-, a, o, rfl⟩
      · exact h.users q qt hold
      · exact hpid
    · intro a ha
      apply h.vacant a
      rw [vacated_iff] at ha ⊢
      intro x hx
      exact ha x (List.mem_append_left _ hx)

theorem Settled.giveBack (h : Settled L s) {u : UniProbe} (hu : u ∈ s.probes) :
    Settled L (s.giveBack u) := by
  obtain ⟨hb, hf, hsame⟩ := h.books.unregister hu
  have hfewer := unregisterProbe_points s.k u
  have hprobes : (s.giveBack u).probes = s.probes.filter fun v => v ≠ u := by
    simp only [probes, Uprobes.giveBack, List.filter_map]
    rfl
  have hcases : ∀ a, (s.giveBack u).userSlots.lookup a = s.userSlots.lookup a ∨
      (a = s.k.breakKey u ∧ vacated (s.giveBack u).handles a ∧
        (s.giveBack u).userSlots.lookup a = none) := by
    intro a
    unfold Uprobes.giveBack
    dsimp only
    split
    · rename_i hvac
      by_cases ha : a = s.k.breakKey u
      · subst ha
        exact .inr ⟨rfl, hvac, AList.lookup_erase _ _⟩
      · exact .inl (AList.lookup_erase_ne ha)
    · exact .inl rfl
  refine ⟨?_, ?_, ?_, ?_, ?_, ?_⟩
  · rw [hprobes]
    exact hb
  · rw [hprobes]
    exact hf h.filed
  · exact fun p q pt qt hp hq hne => h.keys p q pt qt (hfewer p pt hp) (hfewer q qt hq) hne
  · intro x hx
    have hx' := List.mem_filter.mp hx
    obtain ⟨pt, hpt, hspace, haddr, hslot⟩ := h.owned x hx'.1
    have hin : x.probe ∈ s.probes.filter fun v => v ≠ u :=
      List.mem_filter.mpr ⟨List.mem_map_of_mem hx'.1, hx'.2⟩
    refine ⟨pt, (hsame x.probe hin).2.trans hpt, hspace, haddr, ?_⟩
    rcases hcases x.addr with heq | ⟨-, hvac, -⟩
    · exact heq.trans hslot
    · exact absurd rfl (vacated_iff.mp hvac x hx)
  · exact fun p pt hp => h.users p pt (hfewer p pt hp)
  · intro a ha
    rcases hcases a with heq | ⟨-, -, hnone⟩
    · rw [heq]
      by_cases hak : a = s.k.breakKey u
      · -- the caller gives back a probe at the address, and no other is left there
        subst hak
        unfold Uprobes.giveBack at heq ha
        dsimp only at heq ha
        rw [if_pos ha, AList.lookup_erase] at heq
        exact heq.symm
      · apply h.vacant a
        rw [vacated_iff] at ha ⊢
        intro x hx hxa
        by_cases hxu : x.probe = u
        · apply hak
          rw [← hxa, ← hxu, h.addr_eq hx]
        · exact ha x (List.mem_filter.mpr ⟨hx, by simp [hxu]⟩) hxa
    · exact hnone

/-- What a hit at an address finds. -/
theorem Settled.break_cases (h : Settled L s) (a : Nat) :
    (s.k.getBreakList a = none ∧ vacated s.handles a) ∨
    ∃ l p pt, s.k.getBreakList a = some l ∧ l.head?.bind s.k.pointId = some p ∧
      s.k.firstPoint l = some pt ∧ s.k.points.value p = some pt ∧ pt.addr = a ∧
      ¬ vacated s.handles a ∧ s.userSlots.lookup a = userSlot pt ∧
      ∃ u ∈ s.probes, s.k.pointId u = some p := by
  cases hl : s.k.getBreakList a with
  | none =>
    left
    refine ⟨rfl, ?_⟩
    rw [h.vacated_iff_key]
    intro u hu hk
    have hsome := (Files.lookup_isSome h.books.breaks a).mpr ⟨u, hu, hk⟩
    rw [show s.k.breakList.lookup a = none from hl] at hsome
    cases hsome
  | some l =>
    right
    have hne := Files.ne_nil h.books.breaks hl
    cases l with
    | nil => exact absurd rfl hne
    | cons u l =>
      obtain ⟨hu, hkey⟩ := Files.mem_of_lookup h.books.breaks hl List.mem_cons_self
      obtain ⟨pr, pt, -, hpt, hid, hprobe⟩ := h.books.live_handle (v := u) hu
      have haddr : pt.addr = a := by
        rw [← hkey, breakKey_of hprobe]
        rfl
      obtain ⟨x, hx, rfl⟩ := List.mem_map.mp (show u ∈ s.probes from hu)
      obtain ⟨qt, hqt, -, hxaddr, hslot⟩ := h.owned x hx
      rw [hprobe] at hqt
      cases hqt
      refine ⟨x.probe :: l, pr.point, pt, rfl, hid, hprobe, hpt, haddr, ?_, ?_, x.probe, hu, hid⟩
      · rw [h.vacated_iff_key]
        exact fun hall => hall x.probe hu hkey
      · rw [← haddr, hxaddr]
        exact hslot

/-- A hit where no page is needed changes nothing. -/
theorem Settled.hit_eq (h : Settled L s) {t : Trap} {page : Nat}
    (hno : ∀ l pt, s.k.getBreakList t.regs.breakAddress = some l → s.k.firstPoint l = some pt →
      pt.dynamicUserPtr ≠ 0) : s.hit t page = s := by
  unfold Uprobes.hit Kernel.uprobeHandlerFromBreak
  rcases h.break_cases t.regs.breakAddress with ⟨hnone, hvac⟩ |
    ⟨l, p, pt, hl, hp, hfirst, hvalue, -, -, hslot, -⟩
  · simp [hnone, hvac]
  · have hdyn := hno l pt hl hfirst
    have hsome : (s.userSlots.lookup t.regs.breakAddress).isSome := by
      rw [hslot, userSlot, if_neg hdyn]
      rfl
    simp [hl, hp, hfirst, hdyn, hsome]

theorem hit_first {t : Trap} {page p : Nat} {pt : ProbePoint} {l : List UniProbe}
    (hl : s.k.getBreakList t.regs.breakAddress = some l)
    (hp : l.head?.bind s.k.pointId = some p) (hfirst : s.k.firstPoint l = some pt)
    (hdyn : pt.dynamicUserPtr = 0) (hvac : ¬ vacated s.handles t.regs.breakAddress)
    (hslot : s.userSlots.lookup t.regs.breakAddress = userSlot pt) :
    s.hit t page = { s with
      k := s.k.firstHit p pt page
      userSlots := s.userSlots.insert t.regs.breakAddress page } := by
  have hnone : s.userSlots.lookup t.regs.breakAddress = none := by
    rw [hslot, userSlot, if_pos hdyn]
  unfold Uprobes.hit Kernel.uprobeHandlerFromBreak
  simp [hl, hp, hfirst, hdyn, hvac, hnone]

theorem Settled.hit (h : Settled L s) {t : Trap} {page : Nat}
    (hpage : s.PageFor L Kernel.Unmixed t page) :
    Settled L (s.hit t page) := by
  rcases h.break_cases t.regs.breakAddress with ⟨hnone, -⟩ |
    ⟨l, p, pt, hl, hp, hfirst, hvalue, haddr, hvac, hslot, hon⟩
  · rw [h.hit_eq fun l pt hl => by rw [hnone] at hl; cases hl]
    exact h
  by_cases hdyn : pt.dynamicUserPtr ≠ 0
  · rw [h.hit_eq fun l' pt' hl' hfirst' => by
      rw [hl] at hl'
      cases hl'
      rw [hfirst] at hfirst'
      cases hfirst'
      exact hdyn]
    exact h
  have hdyn0 : pt.dynamicUserPtr = 0 := not_not.mp hdyn
  obtain ⟨hfresh, hunmixed⟩ := hpage l pt hl hfirst hdyn0
  have heq := firstHit_eq h.books h.filed hvalue hfresh hunmixed
  obtain ⟨hb, hf, hkeys, hvalues⟩ :=
    firstHit_spec h.books h.filed h.keys hvalue (h.users p pt hvalue) hon hfresh hunmixed
  rw [hit_first hl hp hfirst hdyn0 hvac hslot]
  refine ⟨hb, hf, hkeys, ?_, ?_, ?_⟩
  · intro x hx
    obtain ⟨qt, hqt, hspace, hqaddr, hqslot⟩ := h.owned x hx
    have hx' : x.probe ∈ s.probes := List.mem_map_of_mem hx
    have hprobe : (s.k.firstHit p pt page).probePoint x.probe =
        if s.k.pointId x.probe = some p then (s.k.probePoint x.probe).map
          fun pt => pt.setDynamicUserPtr page else s.k.probePoint x.probe := by
      rw [heq]
      exact s.k.probePoint_setDynamicUserPtr p page x.probe
    obtain ⟨u, hu, hid⟩ := hon
    have huprobe : s.k.probePoint u = some pt := by simp [probePoint, hid, hvalue]
    by_cases hxa : x.addr = t.regs.breakAddress
    · have hxk : s.k.breakKey x.probe = s.k.breakKey u := by
        rw [h.addr_eq hx, breakKey_of huprobe, ProbePoint.breakAddress, haddr, hxa]
      obtain ⟨hxid, hxpt⟩ := h.same_point hu hx' hxk
      rw [hqt, huprobe] at hxpt
      cases hxpt
      rw [hqt, if_pos (hxid.trans hid)] at hprobe
      refine ⟨pt.setDynamicUserPtr page, hprobe, hspace, hqaddr, ?_⟩
      rw [hxa, AList.lookup_insert]
      exact (if_neg hfresh.nonzero).symm
    · have hne : s.k.pointId x.probe ≠ some p := by
        intro hxid
        apply hxa
        have hxp : s.k.probePoint x.probe = some pt := by simp [probePoint, hxid, hvalue]
        rw [hqt] at hxp
        cases hxp
        rw [← hqaddr, haddr]
      rw [if_neg hne] at hprobe
      refine ⟨qt, hprobe.trans hqt, hspace, hqaddr, ?_⟩
      rw [AList.lookup_insert_ne hxa]
      exact hqslot
  · intro q qt hq
    rw [hvalues q] at hq
    split at hq
    · cases hq
      exact h.users p pt hvalue
    · exact h.users q qt hq
  · intro a ha
    have hne : a ≠ t.regs.breakAddress := by
      rintro rfl
      exact hvac ha
    show (s.userSlots.insert _ _).lookup a = none
    rw [AList.lookup_insert_ne hne]
    exact h.vacant a ha

theorem pointId_setEnable (k : Kernel) (u v : UniProbe) (enable : Bool) :
    (k.setEnable u enable).pointId v = k.pointId v := by
  unfold Kernel.pointId Kernel.setEnable
  rw [Arcs.value_modify]
  split
  · rename_i heq
    rw [heq]
    cases k.probes.value u.arc <;> rfl
  · rfl

theorem probePoint_setEnable (k : Kernel) (u v : UniProbe) (enable : Bool) :
    (k.setEnable u enable).probePoint v = k.probePoint v := by
  unfold Kernel.probePoint
  rw [pointId_setEnable]
  rfl

theorem Settled.setEnable (h : Settled L s) (u : UniProbe) (enable : Bool) :
    Settled L { s with k := s.k.setEnable u enable } where
  books := h.books.moved (h.books.sound.setEnable u enable) rfl rfl fun v _ =>
    ⟨breakKey_congr (probePoint_setEnable s.k u v enable), pointId_setEnable s.k u v enable⟩
  filed := h.filed.congr fun v _ => debugKey_congr (probePoint_setEnable s.k u v enable)
  keys := h.keys
  owned x hx := by
    obtain ⟨pt, hpt, hrest⟩ := h.owned x hx
    exact ⟨pt, (probePoint_setEnable s.k u x.probe enable).trans hpt, hrest⟩
  users := h.users
  vacant := h.vacant

theorem PageFor.mono {Given Given' : Kernel → Space → Nat → Prop} {t : Trap} {page : Nat}
    (h : s.PageFor L Given t page) (hgiven : ∀ sp, Given s.k sp page → Given' s.k sp page) :
    s.PageFor L Given' t page := by
  intro l pt hl hfirst hdyn
  obtain ⟨hfresh, hpage⟩ := h l pt hl hfirst hdyn
  exact ⟨hfresh, hgiven pt.userPid hpage⟩

theorem Settled.step {Own : Uprobes → ProbeBuilder → Prop} {Given : Kernel → Space → Nat → Prop}
    {s' : Uprobes} (h : Settled L s) (hown : ∀ b, Own s b → Alone s b)
    (hgiven : ∀ t page, s.PageFor L Given t page → s.PageFor L Kernel.Unmixed t page)
    (hstep : Step L Own Given s s') : Settled L s' := by
  cases hstep with
  | registerUprobe b page res hb hsite hfresh husers hres =>
    unfold Kernel.registerUprobe at hres
    split at hres
    · rename_i hpid
      cases hres
      refine h.register ?_ (hown b hb) hsite hfresh husers
      intro hnone
      rw [hnone] at hpid
      cases hpid
    · cases hres
  | unregisterUprobe arc hu => exact h.giveBack hu
  | setEnable u enable => exact h.setEnable u enable
  | hit t page hpage => exact h.hit (hgiven t page hpage)

/-- A hit in a process at an address, from the breakpoint to the debug trap in the slot: the
calls it makes, what the slot holds, and where the thread ends up. -/
def HitRuns (L : Layout) (Given : Kernel → Space → Nat → Prop) (s : Uprobes) (sp : Space)
    (a : Nat) : Prop :=
  ∀ t page, t.regs.breakAddress = a → s.PageFor L Given t page →
    ∃ o out, fetch L.code sp a = .ok o ∧ (s.k.uprobeHandlerFromBreak t page).1 = .claimed out ∧
      out.calls = t.calls ++ s.k.enabledEvents ProbeBasic.preEvents (s.registeredFor sp a) ∧
      (s.hit t page).k.mem.read sp out.regs.epc (o.len + o.len) = o.bytes ++ o.breakBytes ∧
      ∀ t', t'.regs.debugAddress = out.regs.epc + o.len →
        ∃ done, (s.hit t page).k.uprobeHandlerFromDebug t' = .claimed done ∧
          done.calls =
            t'.calls ++ s.k.enabledEvents ProbeBasic.postEvents (s.registeredFor sp a) ∧
          done.regs.epc = (a + o.len) % usizeMod

/-- The probes at an address are all registered for the process of their point. -/
theorem Settled.registeredFor_point (h : Settled L s) {p : Nat} {pt : ProbePoint}
    (hvalue : s.k.points.value p = some pt) (hon : ∃ u ∈ s.probes, s.k.pointId u = some p) :
    s.registeredFor pt.userPid pt.addr = s.probes.filter fun u => s.k.breakKey u = pt.addr := by
  obtain ⟨u, hu, hid⟩ := hon
  have huprobe : s.k.probePoint u = some pt := by simp [probePoint, hid, hvalue]
  unfold Uprobes.registeredFor probes
  rw [List.filter_map]
  congr 1
  apply List.filter_congr
  intro x hx
  have hkey := h.addr_eq hx
  by_cases hxa : x.addr = pt.addr
  · have hxk : s.k.breakKey x.probe = s.k.breakKey u := by
      rw [hkey, breakKey_of huprobe, hxa]
      rfl
    obtain ⟨qt, hqt, hspace, -, -⟩ := h.owned x hx
    have hsame := (h.same_point hu (List.mem_map_of_mem hx) hxk).2
    rw [hqt, huprobe] at hsame
    cases hsame
    simp [hkey, hxa, hspace]
  · simp [hkey, hxa]

/-- The debug list of a point holds the probes at its address. -/
theorem Settled.debugList_point (h : Settled L s) {p : Nat} {pt : ProbePoint}
    (hvalue : s.k.points.value p = some pt) (hon : ∃ u ∈ s.probes, s.k.pointId u = some p) :
    s.k.getDebugList pt.debugAddress = some (s.registeredFor pt.userPid pt.addr) := by
  have hmem := h.registeredFor_point hvalue hon
  obtain ⟨u, hu, hid⟩ := hon
  have huprobe : s.k.probePoint u = some pt := by simp [probePoint, hid, hvalue]
  have hlook := Files.lookup_key h.filed hu
  rw [debugKey_of huprobe] at hlook
  rw [hmem]
  refine hlook.trans ?_
  congr 1
  apply List.filter_congr
  intro v hv
  have hiff : s.k.debugKey v = pt.debugAddress ↔ s.k.breakKey v = pt.addr := by
    rw [h.books.debugKey_iff h.keys hvalue hv]
    constructor
    · intro hvid
      have hvprobe : s.k.probePoint v = some pt := by simp [probePoint, hvid, hvalue]
      rw [breakKey_of hvprobe]
      rfl
    · intro hvk
      have hvu : s.k.breakKey v = s.k.breakKey u := by
        rw [hvk, breakKey_of huprobe]
        rfl
      exact ((h.same_point hu hv hvu).1).trans hid
  simp only [hiff]

theorem Settled.firstPoint_registered (h : Settled L s) {p : Nat} {pt : ProbePoint}
    (hvalue : s.k.points.value p = some pt) (hon : ∃ u ∈ s.probes, s.k.pointId u = some p) :
    s.k.firstPoint (s.registeredFor pt.userPid pt.addr) = some pt := by
  have hlist := h.debugList_point hvalue hon
  have hne := Files.ne_nil h.filed hlist
  cases hl : s.registeredFor pt.userPid pt.addr with
  | nil => exact absurd hl hne
  | cons v l =>
    rw [hl] at hlist
    obtain ⟨hv, hkey⟩ := Files.mem_of_lookup h.filed hlist List.mem_cons_self
    have hid := (h.books.debugKey_iff h.keys hvalue hv).mp hkey
    simp [firstPoint, probePoint, hid, hvalue]

/-- A compressed instruction at 4096, the same in every process. -/
def userInsn : Layout where
  code sp b := if sp.isSome ∧ b = 4096 then 1 else 0
  text sp b := sp.isSome ∧ 4096 ≤ b ∧ b < 4100
  site sp a := sp.isSome ∧ a = 4096
  in_text _ _ _ h hi := ⟨h.1, in_first_word h.2 hi (insnLen_le _ _ _)⟩
  apart _ _ _ ha hb hne := absurd (ha.2.trans hb.2.symm) hne

def userProbe (pid : Pid) : ProbeBuilder where
  symbolAddr := 4096
  offset := 0
  preHandler := some id
  postHandler := some id
  eventCallbacks := [(7, id)]
  enable := true
  userPid := some pid

/-- The first probe is registered. -/
def installed (pid : Pid) : Uprobes :=
  (boot userInsn).register (userProbe pid)
    ((boot userInsn).k.registerProbe .uprobe (userProbe pid) 8192)

theorem installed_step {Own : Uprobes → ProbeBuilder → Prop}
    {Given : Kernel → Space → Nat → Prop} (pid : Pid)
    (hown : Own (boot userInsn) (userProbe pid)) :
    Step userInsn Own Given (boot userInsn) (installed pid) := by
  refine .registerUprobe _ (userProbe pid) 8192 _ hown (fun _ _ _ => ⟨rfl, rfl⟩) ⟨?_, ?_⟩ ?_ rfl
  · intro q hq
    cases hq
  · intro b _ _ htext
    cases htext.1
  · intro e he
    cases he

end Uprobes

end ExtKtrace.Kprobe
