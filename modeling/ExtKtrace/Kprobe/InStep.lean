import ExtKtrace.Lib.Machine
import ExtKtrace.Kprobe.Books

/-!
# The registry and the patched text stay in step

Runs of `register_kprobe`, `unregister_kprobe`, `register_kretprobe` and
`unregister_kretprobe` on one manager and one point list.
-/

namespace ExtKtrace.Kprobe
set_option autoImplicit false

open Filing Kernel

/-- The registry, and the handles that callers hold with the addresses they registered, in the
order of registration. -/
structure Registry where
  k : Kernel
  handles : List (UniProbe × Nat)

namespace Registry

def boot (L : Layout) : Registry := ⟨Kernel.boot L.code, []⟩

def probes (r : Registry) : List UniProbe := r.handles.map Prod.fst

/-- The probes registered at an address. -/
def registeredAt (r : Registry) (a : Nat) : List UniProbe :=
  (r.handles.filter fun h => h.2 = a).map Prod.fst

/-- The caller keeps the handle it gets. -/
def register (r : Registry) (a : Nat) (res : Except ProbeInstallError UniProbe × Kernel) :
    Registry :=
  match res with
  | (.error _, k) => ⟨k, r.handles⟩
  | (.ok u, k) => ⟨k, r.handles ++ [(u, a)]⟩

def giveBack (r : Registry) (u : UniProbe) (k : Kernel) : Registry :=
  ⟨k, r.handles.filter fun h => h.1 ≠ u⟩

/-- A call on the registry. The allocator keeps its promise, and only instructions at probe sites
are patched; a handle is given back by one who holds it. -/
inductive Step (L : Layout) : Registry → Registry → Prop
  | registerKprobe (r : Registry) (b : ProbeBuilder) (page : Nat) (hsite : AtSite L r.k b)
      (hfresh : FreshPage L r.k page) :
      Step L r (r.register b.probeAddr (r.k.registerKprobe b page))
  | registerKretprobe (r : Registry) (b : KretprobeBuilder) (page : Nat)
      (hsite : AtSite L r.k b.toProbeBuilder) (hfresh : FreshPage L r.k page) :
      Step L r (r.register b.toProbeBuilder.probeAddr (r.k.registerKretprobe b page))
  | unregisterKprobe (r : Registry) (arc : Nat) (h : ⟨.kprobe, arc⟩ ∈ r.probes) :
      Step L r (r.giveBack ⟨.kprobe, arc⟩ (r.k.unregisterKprobe arc))
  | unregisterKretprobe (r : Registry) (arc : Nat) (h : ⟨.kretprobe, arc⟩ ∈ r.probes) :
      Step L r (r.giveBack ⟨.kretprobe, arc⟩ (r.k.unregisterKretprobe arc))

def Reachable (L : Layout) : Registry → Prop :=
  Machine.Reachable (· = boot L) (Step L)

/-- The books of the registry between calls. -/
structure Settled (L : Layout) (r : Registry) : Prop where
  books : Books L r.k r.probes .idle fun _ => 0
  filed : Filed r.k r.probes .idle
  addrs : ∀ h ∈ r.handles, r.k.breakKey h.1 = h.2
  inKernel : ∀ p pt, r.k.points.value p = some pt → pt.dynamicUserPtr = 0

theorem settled_boot (L : Layout) : Settled L (boot L) where
  books := Books.boot L
  filed := Files.empty _
  addrs := by simp [boot]
  inKernel := fun p pt h => by simp [boot, Kernel.boot] at h

theorem Settled.register {L : Layout} {r : Registry} (s : Settled L r) (kind : ProbeKind)
    (b : ProbeBuilder) {page : Nat} (hsite : AtSite L r.k b) (hfresh : FreshPage L r.k page) :
    Settled L (r.register b.probeAddr (r.k.registerProbe kind b page)) := by
  rcases s.books.register kind b hsite hfresh with ⟨e, heq⟩ |
    ⟨u, k', heq, -, hb, hf, hkey, hsame⟩
  · rw [heq]
    exact ⟨s.books, s.filed, s.addrs, s.inKernel⟩
  · have hpoints := registerProbe_points r.k kind b page
    rw [heq] at hpoints ⊢
    have hprobes : (r.register b.probeAddr (.ok u, k')).probes = r.probes ++ [u] := by
      simp [probes, Registry.register]
    refine ⟨?_, ?_, ?_, ?_⟩
    · rw [hprobes]
      exact hb
    · rw [hprobes]
      exact hf s.filed
    · intro h hh
      rcases List.mem_append.mp hh with hh | hh
      · have hin : h.1 ∈ r.probes := List.mem_map_of_mem hh
        exact (hsame.breakKey hin).trans (s.addrs h hh)
      · rw [List.mem_singleton] at hh
        subst hh
        exact hkey
    · intro p pt hp
      rcases hpoints p pt hp with hold | ⟨-, a, o, rfl⟩
      · exact s.inKernel p pt hold
      · rfl

theorem Settled.giveBack {L : Layout} {r : Registry} (s : Settled L r) {u : UniProbe}
    (hu : u ∈ r.probes) : Settled L (r.giveBack u (r.k.unregisterProbe u)) := by
  obtain ⟨hb, hf, hsame⟩ := s.books.unregister hu
  have hprobes : (r.giveBack u (r.k.unregisterProbe u)).probes =
      r.probes.filter fun v => v ≠ u := by
    simp only [probes, Registry.giveBack, List.filter_map]
    rfl
  refine ⟨?_, ?_, ?_, ?_⟩
  · rw [hprobes]
    exact hb
  · rw [hprobes]
    exact hf s.filed
  · intro h hh
    have hh' := List.mem_filter.mp hh
    have hin : h.1 ∈ r.probes.filter fun v => v ≠ u :=
      List.mem_filter.mpr ⟨List.mem_map_of_mem hh'.1, hh'.2⟩
    exact (hsame.breakKey hin).trans (s.addrs h hh'.1)
  · intro p pt hp
    exact s.inKernel p pt (unregisterProbe_points r.k u p pt hp)

theorem Settled.step {L : Layout} {r r' : Registry} (s : Settled L r) (h : Step L r r') :
    Settled L r' := by
  cases h with
  | registerKprobe b page hsite hfresh => exact s.register .kprobe b hsite hfresh
  | registerKretprobe b page hsite hfresh =>
    exact s.register .kretprobe b.toProbeBuilder hsite hfresh
  | unregisterKprobe arc h => exact s.giveBack h
  | unregisterKretprobe arc h => exact s.giveBack h

theorem Reachable.settled {L : Layout} {r : Registry} (h : Reachable L r) : Settled L r :=
  Machine.Reachable.invariant (fun _ hs => hs ▸ settled_boot L) (fun _ _ hs hstep => hs.step hstep)
    h

section Settled
variable {L : Layout} {r : Registry}

theorem Settled.debug_handles (s : Settled L r) (a : Nat) (l : List UniProbe)
    (hl : r.k.debugList.lookup a = some l) : ∀ x ∈ l, x ∈ r.probes :=
  fun _ hx => (Files.mem_of_lookup s.filed hl hx).1

theorem Settled.keysApart (s : Settled L r) : KeysApart r.k.points.value := by
  intro p q pt qt hp hq hne
  have hap := s.books.sound.planted.slots_apart p q pt qt hp hq hne
  unfold ProbePoint.debugPage
  rw [if_pos (s.inKernel p pt hp), if_pos (s.inKernel q qt hq)]
  exact hap

theorem Settled.registeredAt (s : Settled L r) (a : Nat) :
    r.registeredAt a = r.probes.filter fun u => r.k.breakKey u = a := by
  unfold Registry.registeredAt probes
  rw [List.filter_map]
  congr 1
  apply List.filter_congr
  intro h hh
  simp [s.addrs h hh]

/-- Probes are at the same address exactly when they have the same debug address. -/
theorem Settled.debugKey_iff (s : Settled L r) {p : Nat} {pt : ProbePoint}
    (ha : r.k.pointList.lookup pt.addr = some p) (hp : r.k.points.value p = some pt)
    {u : UniProbe} (hu : u ∈ r.probes) :
    r.k.debugKey u = pt.debugAddress ↔ r.k.breakKey u = pt.addr := by
  obtain ⟨pr, qt, -, hqt, hid, hprobe⟩ := s.books.live_handle hu
  rw [debugKey_of hprobe, breakKey_of hprobe]
  constructor
  · intro heq
    have hpq := s.keysApart.debugAddress hqt hp heq
    subst hpq
    rw [hp] at hqt
    cases hqt
    rfl
  · intro heq
    have hpointed := s.books.pointed_handle hu
    rw [breakKey_of hprobe, heq, ha, hid] at hpointed
    cases hpointed
    rw [hp] at hqt
    cases hqt
    rfl

/-- A filed point sits at the address it is filed under, with a probe on it. -/
theorem Settled.filed_point (s : Settled L r) {a p : Nat}
    (ha : r.k.pointList.lookup a = some p) :
    ∃ pt, r.k.points.value p = some pt ∧ pt.addr = a ∧ r.registeredAt a ≠ [] := by
  obtain ⟨pt, hpt, haddr⟩ := s.books.point_addr ha
  refine ⟨pt, hpt, haddr, ?_⟩
  rcases s.books.listed a p ha with h | ⟨v, hv, hk⟩
  · cases h
  · have hv' : v ∈ r.probes := by simpa [Writer.fresh] using hv
    rw [s.registeredAt]
    apply List.ne_nil_of_mem (a := v)
    simp [hv', hk]

theorem Settled.breakList (s : Settled L r) (a : Nat) :
    r.k.breakList.lookup a = stored (r.registeredAt a) := by
  rw [s.registeredAt]
  exact s.books.breaks a

theorem Settled.debugList (s : Settled L r) {a p : Nat} {pt : ProbePoint}
    (ha : r.k.pointList.lookup a = some p) (hp : r.k.points.value p = some pt) :
    r.k.debugList.lookup pt.debugAddress = stored (r.registeredAt a) := by
  obtain ⟨pt', hpt', rfl, -⟩ := s.filed_point ha
  rw [hp] at hpt'
  cases hpt'
  have hfiles := s.filed pt.debugAddress
  rw [s.registeredAt, hfiles]
  congr 1
  apply List.filter_congr
  intro u hu
  simp [s.debugKey_iff ha hp hu]

theorem Settled.pointList_isSome (s : Settled L r) (a : Nat) :
    (r.k.pointList.lookup a).isSome ↔ r.registeredAt a ≠ [] := by
  constructor
  · intro h
    obtain ⟨p, hp⟩ := Option.isSome_iff_exists.mp h
    exact (s.filed_point hp).choose_spec.2.2
  · intro h
    obtain ⟨u, hu⟩ := List.exists_mem_of_ne_nil _ h
    rw [s.registeredAt] at hu
    obtain ⟨hu, hk⟩ := List.mem_filter.mp hu
    obtain ⟨pr, qt, -, -, hid, -⟩ := s.books.live_handle hu
    have hpointed := s.books.pointed_handle hu
    rw [of_decide_eq_true hk, hid] at hpointed
    rw [hpointed]
    rfl

end Settled

end Registry

/-- There is a breakpoint instruction in the text at an address. -/
def Breaks (L : Layout) (m : Memory) (sp : Space) (a : Nat) : Prop :=
  ∃ o : OpcodeTy, (∀ i, i < o.len → L.text sp (a + i)) ∧ m.read sp a o.len = o.breakBytes

/-- No breakpoint starts inside another: the first byte of neither is a later byte of one. -/
theorem breakBytes_no_overlap (o o' : OpcodeTy) {d : Nat} (hd : 0 < d) (hlen : d < o'.len) :
    o.breakBytes.getD 0 0 ≠ o'.breakBytes.getD d 0 := by
  cases o' with
  | inst16 i =>
    simp only [OpcodeTy.len] at hlen
    obtain rfl : d = 1 := by omega
    cases o <;> (simp only [OpcodeTy.breakBytes]; decide)
  | inst32 i =>
    simp only [OpcodeTy.len] at hlen
    have hd : d = 1 ∨ d = 2 ∨ d = 3 := by omega
    rcases hd with rfl | rfl | rfl <;> cases o <;> (simp only [OpcodeTy.breakBytes]; decide)

section Planted
variable {L : Layout} {mem : Memory} {pages : List Nat} {userPages : List (Space × Nat)}
  {value : Nat → Option ProbePoint}

theorem Planted.breaks (h : Planted L mem pages userPages value) {p : Nat} {pt : ProbePoint}
    (hp : value p = some pt) :
    Breaks L mem pt.userPid pt.addr ∧ ¬ Breaks L L.code pt.userPid pt.addr := by
  constructor
  · refine ⟨pt.oldInstruction, ?_, h.patched p pt hp⟩
    intro i hi
    exact h.covers_text hp ⟨by omega, by omega⟩
  · rintro ⟨o, -, hread⟩
    exact fetch_break hread (h.found p pt hp)

/-- A breakpoint that the program does not have is one that was planted. -/
theorem Planted.planted_of_breaks (h : Planted L mem pages userPages value) {sp : Space}
    {a : Nat} (hb : Breaks L mem sp a) (hn : ¬ Breaks L L.code sp a) :
    ∃ p pt, value p = some pt ∧ pt.userPid = sp ∧ pt.addr = a := by
  obtain ⟨o, htext, hread⟩ := hb
  by_cases hcov : ∃ i, i < o.len ∧ ∃ p pt, value p = some pt ∧ pt.userPid = sp ∧ pt.covers (a + i)
  · obtain ⟨i, hi, p, pt, hp, hsp, hc1, hc2⟩ := hcov
    refine ⟨p, pt, hp, hsp, ?_⟩
    have hpatched := h.patched p pt hp
    rw [hsp] at hpatched
    by_contra hne
    rcases Nat.lt_or_gt_of_ne hne with hlt | hlt
    · -- the breakpoint starts inside the patch
      have h1 := Memory.apply_of_read hread o.len_pos
      have h2 := Memory.apply_of_read hpatched (i := a - pt.addr) (by omega)
      rw [Nat.add_sub_cancel' (Nat.le_of_lt hlt)] at h2
      rw [Nat.add_zero] at h1
      exact breakBytes_no_overlap o pt.oldInstruction (d := a - pt.addr) (by omega) (by omega)
        (h1.symm.trans h2)
    · have h1 := Memory.apply_of_read hpatched pt.oldInstruction.len_pos
      have h2 := Memory.apply_of_read hread (i := pt.addr - a) (by omega)
      rw [Nat.add_sub_cancel' (Nat.le_of_lt hlt)] at h2
      rw [Nat.add_zero] at h1
      exact breakBytes_no_overlap pt.oldInstruction o (d := pt.addr - a) (by omega) (by omega)
        (h1.symm.trans h2)
  · exfalso
    apply hn
    refine ⟨o, htext, ?_⟩
    rw [← hread]
    symm
    apply Memory.read_congr
    intro i hi
    apply h.unpatched sp (a + i) (htext i hi)
    intro p pt hp hsp hc
    exact hcov ⟨i, hi, p, pt, hp, hsp, hc⟩

end Planted

namespace Registry

/-- The entry at an address is for a point in this address space. -/
def FiledIn (r : Registry) (sp : Space) (a : Nat) : Prop :=
  ∃ p pt, r.k.pointList.lookup a = some p ∧ r.k.points.value p = some pt ∧ pt.userPid = sp

/-- The registry and the text are in step. -/
structure InStep (L : Layout) (r : Registry) : Prop where
  filed_iff_linked : ∀ a, (r.k.pointList.lookup a).isSome ↔
    ∃ l, r.k.breakList.lookup a = some l ∧ l ≠ []
  filed_iff_planted : ∀ sp a, r.FiledIn sp a ↔
    Breaks L r.k.mem sp a ∧ ¬ Breaks L L.code sp a
  same_probes : ∀ a p pt, r.k.pointList.lookup a = some p → r.k.points.value p = some pt →
    r.k.breakList.lookup a = some (r.registeredAt a) ∧
      r.k.debugList.lookup pt.debugAddress = some (r.registeredAt a)
  no_empty : ∀ a l, r.k.breakList.lookup a = some l ∨ r.k.debugList.lookup a = some l →
    l ≠ [] ∧ (r.k.firstPoint l).isSome
  slot : ∀ a p pt, r.k.pointList.lookup a = some p → r.k.points.value p = some pt →
    r.k.mem.read none pt.singleStepAddress pt.oldInstruction.len =
      L.code.read pt.userPid a pt.oldInstruction.len
  text : ∀ sp b, L.text sp b →
    (∀ a p pt, r.k.pointList.lookup a = some p → r.k.points.value p = some pt →
      pt.userPid = sp → ¬ (a ≤ b ∧ b < a + pt.oldInstruction.len)) →
    r.k.mem sp b = L.code sp b
  restored : ∀ sp a, L.site sp a → r.registeredAt a = [] →
    r.k.mem.read sp a (insnLen L.code sp a) = L.code.read sp a (insnLen L.code sp a)

theorem Settled.firstPoint {L : Layout} {r : Registry} (s : Settled L r) {l : List UniProbe}
    (hne : l ≠ []) (hl : ∀ x ∈ l, x ∈ r.probes) : (r.k.firstPoint l).isSome := by
  cases l with
  | nil => exact absurd rfl hne
  | cons x l =>
    obtain ⟨pr, pt, -, -, -, hprobe⟩ := s.books.live_handle (hl x List.mem_cons_self)
    simp [Kernel.firstPoint, hprobe]

theorem Settled.inStep {L : Layout} {r : Registry} (s : Settled L r) : InStep L r where
  filed_iff_linked a := by
    rw [s.pointList_isSome, s.breakList]
    constructor
    · intro h
      exact ⟨_, stored_of_ne h, h⟩
    · rintro ⟨l, hl, hne⟩
      exact (stored_eq_some.mp hl).2
  filed_iff_planted sp a := by
    constructor
    · rintro ⟨p, pt, ha, hp, rfl⟩
      obtain ⟨pt', hpt', rfl, -⟩ := s.filed_point ha
      rw [hp] at hpt'
      cases hpt'
      exact s.books.sound.planted.breaks hp
    · rintro ⟨hb, hn⟩
      obtain ⟨p, pt, hp, hsp, rfl⟩ := s.books.sound.planted.planted_of_breaks hb hn
      exact ⟨p, pt, (s.books.point_of_live s.debug_handles hp).1, hp, hsp⟩
  same_probes a p pt ha hp := by
    obtain ⟨-, -, -, hne⟩ := s.filed_point ha
    rw [s.breakList, s.debugList ha hp]
    exact ⟨stored_of_ne hne, stored_of_ne hne⟩
  no_empty a l hl := by
    have hlist : l ≠ [] ∧ ∀ x ∈ l, x ∈ r.probes := by
      rcases hl with hl | hl
      · exact ⟨Files.ne_nil s.books.breaks hl,
          fun x hx => (Files.mem_of_lookup s.books.breaks hl hx).1⟩
      · exact ⟨Files.ne_nil s.filed hl, s.debug_handles a l hl⟩
    exact ⟨hlist.1, s.firstPoint hlist.1 hlist.2⟩
  slot a p pt ha hp := by
    obtain ⟨pt', hpt', rfl, -⟩ := s.filed_point ha
    rw [hp] at hpt'
    cases hpt'
    have hslot := s.books.sound.planted.slot p pt hp
    rw [ProbePoint.instructionSlotLen_eq, Memory.read_add, ProbePoint.slotBytes] at hslot
    rw [(fetch_ok (s.books.sound.planted.found p pt hp)).1]
    exact List.append_inj_left hslot (by simp)
  text sp b hb hfree := by
    apply s.books.sound.planted.unpatched sp b hb
    intro p pt hp hsp hc
    exact hfree pt.addr p pt (s.books.point_of_live s.debug_handles hp).1 hp hsp hc
  restored sp a hsite hnone := by
    apply s.books.sound.planted.read_site hsite
    intro p pt hp _ haddr
    have hlook := (s.books.point_of_live s.debug_handles hp).1
    rw [haddr] at hlook
    have hsome := (s.pointList_isSome a).mp (by rw [hlook]; rfl)
    exact hsome hnone

/-- A registration that fails changes nothing. -/
def Refused (r : Registry) : Prop :=
  (∀ b page e k', r.k.registerKprobe b page = (.error e, k') → k' = r.k) ∧
    ∀ b page e k', r.k.registerKretprobe b page = (.error e, k') → k' = r.k

theorem registerProbe_error {k k' : Kernel} {kind : ProbeKind} {b : ProbeBuilder} {page : Nat}
    {e : ProbeInstallError} (h : k.registerProbe kind b page = (.error e, k')) : k' = k := by
  rcases k.registerProbe_cases kind b page with ⟨e', k₁, hbegin, heq⟩ | ⟨u, k₁, -, heq⟩ |
    ⟨pr, p, k₁, -, heq⟩
  · rw [heq] at h
    cases h
    unfold Kernel.beginRegister at hbegin
    dsimp only at hbegin
    split at hbegin
    · cases hbegin
    · rw [Kernel.install, Kernel.replaceInst_eq] at hbegin
      cases hf : fetch k.mem b.userPid b.probeAddr with
      | error e' =>
        simp only [hf] at hbegin
        cases hbegin
        rfl
      | ok o =>
        simp only [hf] at hbegin
        cases hbegin
  · rw [heq] at h
    cases h
  · rw [heq] at h
    cases h

theorem refused (r : Registry) : r.Refused :=
  ⟨fun _ _ _ _ h => registerProbe_error h, fun _ _ _ _ h => registerProbe_error h⟩

/-- In every state that calls of the four functions reach, the registry and the patched text are
in step, and a registration that fails changes nothing. -/
theorem registry_in_step (L : Layout) (r : Registry) (h : Reachable L r) :
    InStep L r ∧ r.Refused :=
  ⟨h.settled.inStep, r.refused⟩

/-- A program of one compressed instruction at 4096. -/
def oneInsn (inst : Nat) : Layout where
  code sp b := if sp = none ∧ b = 4096 then UInt8.ofNat inst
    else if sp = none ∧ b = 4097 then UInt8.ofNat (inst / 256) else 0
  text sp b := sp = none ∧ 4096 ≤ b ∧ b < 4100
  site sp a := sp = none ∧ a = 4096
  in_text _ _ _ h hi := ⟨h.1, in_first_word h.2 hi (insnLen_le _ _ _)⟩
  apart _ _ _ ha hb hne := absurd (ha.2.trans hb.2.symm) hne

/-- A probe on that instruction. -/
def oneProbe : ProbeBuilder where
  symbolAddr := 4096
  offset := 0
  preHandler := none
  postHandler := none
  eventCallbacks := []
  enable := true
  userPid := none

theorem oneInsn_fresh {inst : Nat} {k : Kernel} (hk : k.pages = []) :
    FreshPage (oneInsn inst) k 8192 where
  apart q hq := by
    rw [hk] at hq
    cases hq
  off b hlo _ htext := by
    have h := htext.2.2
    omega

/-- The registry with that probe. -/
def oneRegistered : Registry :=
  (boot (oneInsn 1)).register oneProbe.probeAddr
    ((boot (oneInsn 1)).k.registerKprobe oneProbe 8192)

theorem oneRegistered_reachable : Reachable (oneInsn 1) oneRegistered := by
  have hboot : Reachable (oneInsn 1) (boot (oneInsn 1)) := Machine.Reachable.start rfl
  exact hboot.next (Step.registerKprobe _ oneProbe 8192 (fun _ _ _ => ⟨rfl, rfl⟩)
    (oneInsn_fresh rfl))

theorem registry_in_step_one :
    oneRegistered.registeredAt 4096 = [⟨.kprobe, 0⟩] ∧
      InStep (oneInsn 1) oneRegistered ∧ oneRegistered.Refused :=
  ⟨by decide +kernel, registry_in_step (oneInsn 1) oneRegistered oneRegistered_reachable⟩

/-- A breakpoint of the program's own is in the text, and nothing is filed there. -/
theorem native_breakpoint_unfiled :
    Reachable (oneInsn cEbreakInst) (boot (oneInsn cEbreakInst)) ∧
      Breaks (oneInsn cEbreakInst) (boot (oneInsn cEbreakInst)).k.mem none 4096 ∧
      (boot (oneInsn cEbreakInst)).k.pointList.lookup 4096 = none := by
  refine ⟨Machine.Reachable.start rfl, ⟨.inst16 0, ?_, by decide⟩, rfl⟩
  intro i hi
  have hi' : i < 2 := hi
  exact ⟨rfl, by omega, by omega⟩

end Registry

end ExtKtrace.Kprobe
