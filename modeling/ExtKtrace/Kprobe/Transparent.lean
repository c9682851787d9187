import ExtKtrace.Kprobe.SingleStep
import ExtKtrace.Kprobe.Uprobe
import ExtKtrace.Lib.Stuttering

/-!
# A probed program does what it did

A thread runs kernel text while probes come and go. Handlers that leave the registers alone go
unnoticed: the thread does what the program without probes does, one instruction in at most three
steps. Handlers that do not are hooks: the program with a call before and after the instruction.
-/

namespace ExtKtrace.Kprobe
set_option autoImplicit false

open Filing Kernel

namespace ProbeBasic

/-- The map stays in the order of its ids. -/
def registerEventCallback (p : ProbeBasic) (callbackId : Nat) (callback : ProbeHandlerFunc) :
    ProbeBasic :=
  { p with
    eventCallbacks := p.eventCallbacks.filter (fun c => c.1 < callbackId) ++
      (callbackId, callback) :: p.eventCallbacks.filter fun c => callbackId < c.1 }

def unregisterEventCallback (p : ProbeBasic) (callbackId : Nat) : ProbeBasic :=
  { p with eventCallbacks := p.eventCallbacks.filter fun c => c.1 ≠ callbackId }

end ProbeBasic

inductive ProbeConfig where
  | enable
  | disable
  | registerEventCallback (callbackId : Nat) (callback : ProbeHandlerFunc)
  | unregisterEventCallback (callbackId : Nat)

def ProbeConfig.apply (p : ProbeBasic) : ProbeConfig → ProbeBasic
  | enable => { p with enable := true }
  | disable => { p with enable := false }
  | registerEventCallback callbackId callback => p.registerEventCallback callbackId callback
  | unregisterEventCallback callbackId => p.unregisterEventCallback callbackId

def Kernel.configure (k : Kernel) (u : UniProbe) (c : ProbeConfig) : Kernel :=
  { k with probes := k.probes.modify u.arc fun pr => { pr with basic := c.apply pr.basic } }

theorem Kernel.pointId_configure (k : Kernel) (u v : UniProbe) (c : ProbeConfig) :
    (k.configure u c).pointId v = k.pointId v := by
  unfold Kernel.pointId Kernel.configure
  rw [Arcs.value_modify]
  split
  · rename_i heq
    rw [heq]
    cases k.probes.value u.arc <;> rfl
  · rfl

theorem Kernel.probePoint_configure (k : Kernel) (u v : UniProbe) (c : ProbeConfig) :
    (k.configure u c).probePoint v = k.probePoint v := by
  unfold Kernel.probePoint
  rw [pointId_configure]
  rfl

theorem Sound.configure {L : Layout} {k : Kernel} {held pheld : Nat → Nat}
    (s : Sound L k held pheld) (u : UniProbe) (c : ProbeConfig) :
    Sound L (k.configure u c) held pheld where
  probes := s.probes.modify _ _
  points := s.points.congr fun q => by
    unfold Kernel.filed Kernel.configure
    rw [Arcs.tally_modify]
    intro pr
    rfl
  planted := s.planted

namespace Registry

def configure (r : Registry) (u : UniProbe) (c : ProbeConfig) : Registry :=
  { r with k := r.k.configure u c }

variable {L : Layout} {r r' : Registry} {a p : Nat} {pt : ProbePoint}

theorem Settled.configure (s : Settled L r) (u : UniProbe) (c : ProbeConfig) :
    Settled L (r.configure u c) where
  books := s.books.moved (s.books.sound.configure u c) rfl rfl fun v _ =>
    ⟨breakKey_congr (r.k.probePoint_configure u v c), r.k.pointId_configure u v c⟩
  filed := s.filed.congr fun v _ => debugKey_congr (r.k.probePoint_configure u v c)
  addrs h hh := (breakKey_congr (r.k.probePoint_configure u h.1 c)).trans (s.addrs h hh)
  inKernel := s.inKernel

theorem Settled.step_same (s : Settled L r) (h : Step L r r') :
    (∀ v ∈ r.probes, v ∈ r'.probes) ∧ Same r.k r'.k r.probes ∨
      (∀ v ∈ r'.probes, v ∈ r.probes) ∧ Same r.k r'.k r'.probes := by
  have hregister : ∀ (kind : ProbeKind) (b : ProbeBuilder) (page : Nat), AtSite L r.k b →
      FreshPage L r.k page →
      (∀ v ∈ r.probes, v ∈ (r.register b.probeAddr (r.k.registerProbe kind b page)).probes) ∧
        Same r.k (r.register b.probeAddr (r.k.registerProbe kind b page)).k r.probes := by
    intro kind b page hsite hfresh
    rcases s.books.register kind b hsite hfresh with ⟨e, heq⟩ | ⟨u, k', heq, -, -, -, -, hsame⟩
    · rw [heq]
      exact ⟨fun v hv => hv, fun v _ => ⟨rfl, rfl⟩⟩
    · rw [heq]
      refine ⟨?_, hsame⟩
      intro v hv
      have hprobes : (r.register b.probeAddr (.ok u, k')).probes = r.probes ++ [u] := by
        simp [probes, Registry.register]
      rw [hprobes]
      exact List.mem_append_left _ hv
  have hgiveBack : ∀ u ∈ r.probes, (∀ v ∈ (r.giveBack u (r.k.unregisterProbe u)).probes,
      v ∈ r.probes) ∧ Same r.k (r.giveBack u (r.k.unregisterProbe u)).k
        (r.giveBack u (r.k.unregisterProbe u)).probes := by
    intro u hu
    obtain ⟨-, -, hsame⟩ := s.books.unregister hu
    have hprobes : (r.giveBack u (r.k.unregisterProbe u)).probes =
        r.probes.filter fun v => v ≠ u := by
      simp only [probes, Registry.giveBack, List.filter_map]
      rfl
    rw [hprobes]
    exact ⟨fun v hv => (List.mem_filter.mp hv).1, hsame⟩
  cases h with
  | registerKprobe b page hsite hfresh => exact .inl (hregister .kprobe b page hsite hfresh)
  | registerKretprobe b page hsite hfresh =>
    exact .inl (hregister .kretprobe b.toProbeBuilder page hsite hfresh)
  | unregisterKprobe arc h => exact .inr (hgiveBack _ h)
  | unregisterKretprobe arc h => exact .inr (hgiveBack _ h)

theorem Settled.point_kept (s : Settled L r) (h : Step L r r') (hat : r.PointAt a p pt)
    (hne : r'.registeredAt a ≠ []) : r'.PointAt a p pt := by
  have s' := s.step h
  -- a probe that is there before and after
  have hboth : ∃ v ∈ r.registeredAt a, v ∈ r'.probes ∧ Same r.k r'.k [v] := by
    rcases s.step_same h with ⟨hsub, hsame⟩ | ⟨hsub, hsame⟩
    · obtain ⟨v, hv⟩ := List.exists_mem_of_ne_nil _ (s.registered_ne hat)
      have hin : v ∈ r.probes := by
        rw [s.registeredAt] at hv
        exact (List.mem_filter.mp hv).1
      exact ⟨v, hv, hsub v hin, hsame.mono (by simpa using hin)⟩
    · obtain ⟨v, hv⟩ := List.exists_mem_of_ne_nil _ hne
      rw [s'.registeredAt] at hv
      obtain ⟨hin, hkey⟩ := List.mem_filter.mp hv
      refine ⟨v, ?_, hin, hsame.mono (by simpa using hin)⟩
      rw [s.registeredAt]
      refine List.mem_filter.mpr ⟨hsub v hin, ?_⟩
      rwa [hsame.breakKey hin] at hkey
  obtain ⟨v, hv, hin, hsame⟩ := hboth
  obtain ⟨hid, hpoint⟩ := s.point_of_registered hat hv
  obtain ⟨hid', hpoint'⟩ := hsame v List.mem_cons_self
  have hkey : r'.k.breakKey v = a := by
    rw [hsame.breakKey List.mem_cons_self]
    rw [s.registeredAt] at hv
    exact of_decide_eq_true (List.mem_filter.mp hv).2
  have hpointed := s'.books.pointed_handle hin
  rw [hkey, hid', hid] at hpointed
  rw [hpoint] at hpoint'
  unfold Kernel.probePoint at hpoint'
  rw [hid', hid] at hpoint'
  exact ⟨hpointed, hpoint'⟩

end Registry

/-- The program counter is set anew after every handler. -/
def Keeps (f : ProbeHandlerFunc) : Prop := ∀ r : PtRegs, (f r).updatePc r.epc = r

structure ProbeBasic.Harmless (p : ProbeBasic) : Prop where
  pre : ∀ f, p.preHandler = some f → Keeps f
  post : ∀ f, p.postHandler = some f → Keeps f
  callbacks : ∀ c ∈ p.eventCallbacks, Keeps c.2

def Kernel.Harmless (k : Kernel) : Prop := ∀ u pr, k.probes.value u = some pr → pr.basic.Harmless

theorem Keeps.updatePc {f : ProbeHandlerFunc} (h : Keeps f) (r : PtRegs) (pc : Nat) :
    (f r).updatePc pc = r.updatePc pc := by
  have hkeep := congrArg (fun x : PtRegs => x.updatePc pc) (h r)
  exact hkeep

namespace ProbeBasic
variable {b : ProbeBasic} (hb : b.Harmless) (u : UniProbe) (t : Trap) (pc : Nat)
include hb

theorem Harmless.callPreHandler :
    (b.callPreHandler u t).regs.updatePc pc = t.regs.updatePc pc := by
  unfold ProbeBasic.callPreHandler
  split
  · rfl
  · rename_i f hf
    exact (hb.pre f hf).updatePc t.regs pc

theorem Harmless.callPostHandler :
    (b.callPostHandler u t).regs.updatePc pc = t.regs.updatePc pc := by
  unfold ProbeBasic.callPostHandler
  split
  · rfl
  · rename_i f hf
    exact (hb.post f hf).updatePc t.regs pc

theorem Harmless.callEventCallback :
    (b.callEventCallback u t).regs.updatePc pc = t.regs.updatePc pc := by
  have hkeep := hb.callbacks
  unfold ProbeBasic.callEventCallback
  generalize b.eventCallbacks = l at hkeep ⊢
  induction l generalizing t with
  | nil => rfl
  | cons c cs ih =>
    rw [List.foldl_cons, ih _ fun c' hc' => hkeep c' (List.mem_cons_of_mem c hc')]
    exact (hkeep c List.mem_cons_self).updatePc t.regs pc

end ProbeBasic

namespace Kernel
variable {k : Kernel} (hk : k.Harmless) (l : List UniProbe) (t : Trap) (pc : Nat)
include hk

theorem Harmless.forEnabled {call : ProbeBasic → UniProbe → Trap → Trap}
    (hcall : ∀ (b : ProbeBasic) (u : UniProbe) (t : Trap), b.Harmless →
      (call b u t).regs.updatePc pc = t.regs.updatePc pc) :
    (k.forEnabled call l t).regs.updatePc pc = t.regs.updatePc pc := by
  unfold Kernel.forEnabled
  induction l generalizing t with
  | nil => rfl
  | cons u l ih =>
    rw [List.foldl_cons, ih]
    cases hu : k.probes.value u.arc with
    | none => rfl
    | some pr =>
      dsimp only
      split
      · exact hcall pr.basic u t (hk u.arc pr hu)
      · rfl

theorem Harmless.runPre : (k.runPre l t).regs.updatePc pc = t.regs.updatePc pc :=
  hk.forEnabled l t pc fun _ u t hb => hb.callPreHandler u t pc

theorem Harmless.runPost : (k.runPost l t).regs.updatePc pc = t.regs.updatePc pc := by
  apply hk.forEnabled l t pc
  intro b u t hb
  rw [hb.callEventCallback, hb.callPostHandler]

end Kernel

/-- A thread on probed text. -/
structure Probed (δ : Type) where
  registry : Registry
  walker : Walker δ

namespace Probed
variable {δ : Type} (P : Processor δ) (L : Layout)

def boot (n : Native δ) : Probed δ := ⟨Registry.boot L, ⟨n.regs, n.data, []⟩⟩

def Own (s s' : Probed δ) : Prop :=
  ∃ th, s.walker.step P s.registry.k = some th ∧ s' = { s with walker := th }

/-- The thread has been sent to the slot of the point at `a`. -/
def InSlotOf (s : Probed δ) (a : Nat) : Prop :=
  ∃ p pt, s.registry.PointAt a p pt ∧
    (s.walker.regs.epc = pt.singleStepAddress ∨ s.walker.regs.epc = pt.debugAddress)

/-- A call that registers or removes a kernel probe, or changes one. The last probe is not taken
from an instruction that the thread is in the middle of. -/
inductive Manage : Probed δ → Probed δ → Prop where
  | call (s : Probed δ) (r : Registry) (hstep : Registry.Step L s.registry r)
      (hspace : InSpace r.k) (hkeep : ∀ a, s.InSlotOf a → r.registeredAt a ≠ []) :
      Manage s { s with registry := r }
  | configure (s : Probed δ) (u : UniProbe) (c : ProbeConfig) :
      Manage s { s with registry := s.registry.configure u c }

/-- The same with handlers that leave the registers alone. The pre handler of a kretprobe does not, as
long as an instance is free. -/
def ManageHarmless (s s' : Probed δ) : Prop := Manage L s s' ∧ s'.registry.k.Harmless

variable {P L}

theorem own_of_step {r : Registry} {th th' : Walker δ} (h : th.step P r.k = some th') :
    Own P ⟨r, th⟩ ⟨r, th'⟩ := ⟨th', h, rfl⟩

/-- What is true of the registry in every run. -/
structure Sane (L : Layout) (s : Probed δ) : Prop where
  settled : Registry.Settled L s.registry
  space : InSpace s.registry.k

theorem sane_boot (n : Native δ) : Sane L (boot L n) where
  settled := Registry.settled_boot L
  space := ⟨fun p pt h => by simp [boot, Registry.boot, Kernel.boot] at h,
    fun q hq => by simp [boot, Registry.boot, Kernel.boot] at hq⟩

theorem Sane.own {s s' : Probed δ} (h : Sane L s) (hown : Own P s s') : Sane L s' := by
  obtain ⟨th, -, rfl⟩ := hown
  exact ⟨h.settled, h.space⟩

theorem Sane.manage {s s' : Probed δ} (h : Sane L s) (hmanage : Manage L s s') : Sane L s' := by
  cases hmanage with
  | call r hstep hspace hkeep => exact ⟨h.settled.step hstep, hspace⟩
  | configure u c => exact ⟨h.settled.configure u c, h.space.kernel, h.space.room⟩

/-- What goes on does not touch the point of the instruction that the thread is in. -/
theorem Sane.point_kept {s s' : Probed δ} (h : Sane L s) (hmanage : Manage L s s') {a p : Nat}
    {pt : ProbePoint} (hat : s.registry.PointAt a p pt)
    (hin : s.walker.regs.epc = pt.singleStepAddress ∨ s.walker.regs.epc = pt.debugAddress) :
    s'.registry.PointAt a p pt := by
  cases hmanage with
  | call r hstep hspace hkeep =>
    exact h.settled.point_kept hstep hat (hkeep a ⟨p, pt, hat, hin⟩)
  | configure u c => exact ⟨hat.filed, hat.value⟩

theorem manage_walker {s s' : Probed δ} (h : Manage L s s') : s'.walker = s.walker := by
  cases h <;> rfl

/-- How far the thread is past the state `n` of the program without probes: not at all, sent to the
slot, or behind it. -/
def Place (P : Processor δ) (s : Probed δ) (n : Native δ) : Nat → Prop
  | 0 => s.walker.regs = n.regs ∧ s.walker.data = n.data
  | 1 => ∃ p pt, s.registry.PointAt n.regs.epc p pt ∧
      s.walker.regs = n.regs.updatePc pt.singleStepAddress ∧ s.walker.data = n.data
  | _ => ∃ p pt, s.registry.PointAt n.regs.epc p pt ∧
      s.walker.regs =
        (P.execute pt.oldInstruction.bytes n.regs n.data).1.updatePc pt.debugAddress ∧
      s.walker.data = (P.execute pt.oldInstruction.bytes n.regs n.data).2

structure Tracks (P : Processor δ) (L : Layout) (s : Probed δ) (n : Native δ) (k : Nat) : Prop
    where
  sane : Sane L s
  harmless : s.registry.k.Harmless
  place : Place P s n k

theorem tracks_boot (n : Native δ) : Tracks P L (boot L n) n 0 where
  sane := sane_boot n
  harmless := fun u pr h => by simp [boot, Registry.boot, Kernel.boot] at h
  place := ⟨rfl, rfl⟩

/-- The thread, wherever it is, gets one step further with the instruction. -/
theorem Tracks.own {s s' : Probed δ} {n : Native δ} {k : Nat} (hsite : L.site none n.regs.epc)
    (h : Tracks P L s n k) (hown : Own P s s') :
    (k < 2 ∧ Tracks P L s' n (k + 1)) ∨
      ∃ n', Native.Next P L.code n n' ∧ Tracks P L s' n' 0 := by
  have hsane := h.sane.own hown
  obtain ⟨th, hstep, rfl⟩ := hown
  have hs := h.sane.settled
  match k, h.place with
  | 0, ⟨hregs, hdata⟩ =>
    by_cases hnone : s.registry.registeredAt n.regs.epc = []
    · right
      rw [← hregs] at hsite hnone
      rw [hs.step_unprobed P hsite hnone, hregs, hdata] at hstep
      obtain ⟨n', hn', rfl⟩ := Option.map_eq_some_iff.mp hstep
      exact ⟨n', hn', hsane, h.harmless, rfl, rfl⟩
    · left
      obtain ⟨p, pt, hat⟩ := hs.pointAt hnone
      rw [hs.step_site P h.sane.space hat (congrArg PtRegs.epc hregs)] at hstep
      cases hstep
      refine ⟨Nat.two_pos, hsane, h.harmless, p, pt, hat, ?_, hdata⟩
      dsimp only
      rw [h.harmless.runPre, hregs]
  | 1, ⟨p, pt, hat, hregs, hdata⟩ =>
    left
    rw [hs.step_slot P h.sane.space hat s.walker n.regs hregs] at hstep
    cases hstep
    refine ⟨Nat.one_lt_two, hsane, h.harmless, p, pt, hat, ?_, ?_⟩
    · dsimp only
      rw [hdata]
    · dsimp only
      rw [hdata]
  | k + 2, ⟨p, pt, hat, hregs, hdata⟩ =>
    right
    obtain ⟨hnext, hpc⟩ := hs.native_step P h.sane.space hat n rfl
    rw [hs.step_behind P h.sane.space hat s.walker (congrArg PtRegs.epc hregs)] at hstep
    cases hstep
    refine ⟨_, hnext, hsane, h.harmless, ?_, hdata⟩
    dsimp only
    rw [h.harmless.runPost, hregs, PtRegs.updatePc_updatePc, ← hpc, PtRegs.updatePc_epc]

theorem Tracks.manage {s s' : Probed δ} {n : Native δ} {k : Nat} (h : Tracks P L s n k)
    (hmanage : ManageHarmless L s s') : Tracks P L s' n k := by
  refine ⟨h.sane.manage hmanage.1, hmanage.2, ?_⟩
  have hwalker := manage_walker hmanage.1
  match k, h.place with
  | 0, hplace =>
    unfold Place
    rwa [hwalker]
  | 1, ⟨p, pt, hat, hregs, hdata⟩ =>
    unfold Place
    rw [hwalker]
    exact ⟨p, pt, h.sane.point_kept hmanage.1 hat (.inl (congrArg PtRegs.epc hregs)), hregs, hdata⟩
  | k + 2, ⟨p, pt, hat, hregs, hdata⟩ =>
    unfold Place
    rw [hwalker]
    exact ⟨p, pt, h.sane.point_kept hmanage.1 hat (.inr (congrArg PtRegs.epc hregs)), hregs, hdata⟩

/-- The thread stops where the program has a breakpoint of its own, and nowhere else. -/
theorem Tracks.stops {s : Probed δ} {n : Native δ} {k : Nat} (hsite : L.site none n.regs.epc)
    (h : Tracks P L s n k) :
    s.walker.step P s.registry.k = none ↔ k = 0 ∧ n.step P L.code = none := by
  have hs := h.sane.settled
  match k, h.place with
  | 0, ⟨hregs, hdata⟩ =>
    by_cases hnone : s.registry.registeredAt n.regs.epc = []
    · rw [← hregs] at hsite hnone
      rw [hs.step_unprobed P hsite hnone, Option.map_eq_none_iff, hregs, hdata]
      exact ⟨fun hstop => ⟨rfl, hstop⟩, And.right⟩
    · obtain ⟨p, pt, hat⟩ := hs.pointAt hnone
      rw [hs.step_site P h.sane.space hat (congrArg PtRegs.epc hregs),
        (hs.native_step P h.sane.space hat n rfl).1]
      simp
  | 1, ⟨p, pt, hat, hregs, hdata⟩ =>
    rw [hs.step_slot P h.sane.space hat s.walker n.regs hregs]
    simp
  | k + 2, ⟨p, pt, hat, hregs, hdata⟩ =>
    rw [hs.step_behind P h.sane.space hat s.walker (congrArg PtRegs.epc hregs)]
    simp

/-- Whoever registers, removes and changes probes in whatever order, the thread does what the
program without probes does, one instruction in at most three steps. -/
theorem probes_unnoticed (P : Processor δ) (L : Layout) {start : Native δ}
    (hprog : ∀ m n, Runs (Native.Next P L.code) Alone m start n → L.site none n.regs.epc)
    {c : Nat} {s : Probed δ} (hrun : Runs (Own P) (ManageHarmless L) c (boot L start) s) :
    ∃ m n k, Runs (Native.Next P L.code) Alone m start n ∧ Place P s n k ∧
      m + k ≤ c ∧ c ≤ 3 * m + k ∧ k ≤ 2 ∧
      (s.walker.step P s.registry.k = none ↔ k = 0 ∧ n.step P L.code = none) := by
  obtain ⟨m, n, k, hnative, htracks, hle, hpace, hk⟩ :=
    hrun.paced (fun _ _ n _ hsite htracks hown => htracks.own hsite hown)
      (fun _ _ n _ _ htracks hmanage => htracks.manage hmanage) hprog (tracks_boot start)
  exact ⟨m, n, k, hnative, htracks.place, hle, hpace, hk, htracks.stops (hprog m n hnative)⟩

/-- `c.nop`, and behind it a breakpoint of the program's own. -/
def nopThenBreak : Layout where
  code sp b := if sp = none then [0x01, 0x00, 0x02, 0x90].getD (b - 4096) 0 else 0
  text sp b := sp = none ∧ 4096 ≤ b ∧ b < 4100
  site sp a := sp = none ∧ (a = 4096 ∨ a = 4098)
  in_text sp a i h hi := by
    obtain ⟨rfl, rfl | rfl⟩ := h
    · have hlen : i < 2 := hi
      exact ⟨rfl, by omega, by omega⟩
    · have hlen : i < 2 := hi
      exact ⟨rfl, by omega, by omega⟩
  apart sp a b ha hb hne := by
    obtain ⟨rfl, rfl | rfl⟩ := ha
    · obtain ⟨-, rfl | rfl⟩ := hb
      · exact absurd rfl hne
      · exact .inl (Nat.le_refl 4098)
    · obtain ⟨-, rfl | rfl⟩ := hb
      · exact .inr (Nat.le_refl 4098)
      · exact absurd rfl hne

/-- No instruction does more than go to the next one. -/
def idle : Processor Unit where
  execute bytes r d := (r.updatePc ((r.epc + bytes.length) % usizeMod), d)
  movable o _ r d pc := by simp

def atNop : Native Unit := ⟨⟨4096, 0, 0, []⟩, ()⟩

theorem next_of_nop {n n' : Native Unit} (h : Native.Next idle nopThenBreak.code n n')
    (hpc : n.regs.epc = 4096 ∨ n.regs.epc = 4098) :
    n'.regs.epc = 4096 ∨ n'.regs.epc = 4098 := by
  unfold Native.Next Native.step at h
  rcases hpc with hpc | hpc
  · right
    have hnop : insnBytes nopThenBreak.code none 4096 = [0x01, 0x00] := by decide
    rw [hpc, hnop] at h
    cases h
    rw [idle, PtRegs.epc_updatePc, hpc]
    rfl
  · have hbreak : insnBytes nopThenBreak.code none 4098 = [0x02, 0x90] := by decide
    rw [hpc, hbreak] at h
    cases h

theorem nop_at_site (m : Nat) (n : Native Unit)
    (hrun : Runs (Native.Next idle nopThenBreak.code) Alone m atNop n) :
    nopThenBreak.site none n.regs.epc := by
  have hpc : n.regs.epc = 4096 ∨ n.regs.epc = 4098 := by
    apply Runs.invariant _ _ hrun (.inl rfl)
    · exact fun _ _ hs hnext => next_of_nop hnext hs
    · exact fun _ _ _ h => h.elim
  exact ⟨rfl, hpc⟩

/-- A probe on the `c.nop`, with a pre handler that does nothing. -/
def nopProbe : ProbeBuilder := { Registry.oneProbe with preHandler := some fun r => r }

def nopProbed : Registry :=
  (Registry.boot nopThenBreak).register nopProbe.probeAddr
    ((Registry.boot nopThenBreak).k.registerKprobe nopProbe 8192)

theorem nopProbed_step : Registry.Step nopThenBreak (Registry.boot nopThenBreak) nopProbed := by
  refine .registerKprobe _ nopProbe 8192 (fun _ _ _ => ⟨rfl, .inl rfl⟩) ⟨?_, ?_⟩
  · exact fun q hq => absurd hq List.not_mem_nil
  · intro b hlow _ htext
    have hhigh := htext.2.2
    omega

theorem nopProbed_manage : Manage nopThenBreak (boot nopThenBreak atNop)
    { boot nopThenBreak atNop with registry := nopProbed } := by
  refine .call _ nopProbed nopProbed_step ⟨?_, ?_⟩ ?_
  · intro p pt hpt
    have hpoints := registerProbe_points (Registry.boot nopThenBreak).k .kprobe nopProbe 8192
    rcases hpoints p pt hpt with hold | ⟨-, a, o, rfl⟩
    · cases hold
    · rfl
  · have hpages : nopProbed.k.pages = [8192] := by decide +kernel
    intro q hq
    rw [hpages, List.mem_singleton] at hq
    rw [hq]
    decide
  · intro a hin
    obtain ⟨p, pt, hat, -⟩ := hin
    cases hat.filed

theorem nopProbed_harmless : nopProbed.k.Harmless := by
  intro u pr hpr
  have hcells : nopProbed.k.probes.cells.entries = [⟨0, (3, ⟨nopProbe.basic, 0⟩)⟩] := rfl
  have hbasic : pr = ⟨nopProbe.basic, 0⟩ := by
    unfold Arcs.value AList.lookup at hpr
    rw [hcells] at hpr
    by_cases hu : 0 = u
    · subst hu
      cases hpr
      rfl
    · rw [List.dlookup_cons_ne _ _ (Ne.symm hu)] at hpr
      cases hpr
  rw [hbasic]
  refine ⟨?_, ?_, ?_⟩
  · intro f hf
    cases hf
    exact fun _ => rfl
  · intro f hf
    cases hf
  · exact fun c hc => absurd hc List.not_mem_nil

/-- The registration, and then the two traps and the instruction between them. -/
theorem nop_walked : ∃ s, Runs (Own idle) (ManageHarmless nopThenBreak) 3
    (boot nopThenBreak atNop) s ∧ s.walker.calls = [.pre ⟨.kprobe, 0⟩] := by
  have hmanage : ManageHarmless nopThenBreak (boot nopThenBreak atNop)
      { boot nopThenBreak atNop with registry := nopProbed } := ⟨nopProbed_manage, nopProbed_harmless⟩
  have hfirst : Walker.step idle nopProbed.k ⟨⟨4096, 0, 0, []⟩, (), []⟩ =
      some ⟨⟨8192, 0, 0, []⟩, (), [.pre ⟨.kprobe, 0⟩]⟩ := rfl
  have hsecond : Walker.step idle nopProbed.k ⟨⟨8192, 0, 0, []⟩, (), [.pre ⟨.kprobe, 0⟩]⟩ =
      some ⟨⟨8194, 0, 0, []⟩, (), [.pre ⟨.kprobe, 0⟩]⟩ := rfl
  have hthird : Walker.step idle nopProbed.k ⟨⟨8194, 0, 0, []⟩, (), [.pre ⟨.kprobe, 0⟩]⟩ =
      some ⟨⟨4098, 0, 0, []⟩, (), [.pre ⟨.kprobe, 0⟩]⟩ := rfl
  refine ⟨⟨nopProbed, ⟨⟨4098, 0, 0, []⟩, (), [.pre ⟨.kprobe, 0⟩]⟩⟩, ?_, rfl⟩
  exact (((Runs.refl _).other hmanage).own (own_of_step hfirst)).own (own_of_step hsecond) |>.own
    (own_of_step hthird)

/-- The thread is past the `c.nop`, and its handler has been called. -/
theorem probes_unnoticed_nop : ∃ s : Probed Unit, s.walker.calls = [.pre ⟨.kprobe, 0⟩] ∧
    ∃ m n k, Runs (Native.Next idle nopThenBreak.code) Alone m atNop n ∧ Place idle s n k ∧
      m + k ≤ 3 ∧ 3 ≤ 3 * m + k ∧ k ≤ 2 ∧
      (s.walker.step idle s.registry.k = none ↔ k = 0 ∧ n.step idle nopThenBreak.code = none) := by
  obtain ⟨s, hrun, hcalls⟩ := nop_walked
  exact ⟨s, hcalls, probes_unnoticed idle nopThenBreak nop_at_site hrun⟩

section Hooks
variable (P L)

/-- The program with hooks: at an instruction with probes, the pre handlers before it and the post
handlers and callbacks behind it. It goes on where the instruction goes on, whatever the handlers
have made of the program counter. -/
inductive Hooked : Probed δ → Probed δ → Prop where
  | unprobed (s : Probed δ) (n : Native δ) (hsite : L.site none s.walker.regs.epc)
      (hnone : s.registry.registeredAt s.walker.regs.epc = [])
      (hnext : Native.Next P L.code ⟨s.walker.regs, s.walker.data⟩ n) :
      Hooked s { s with walker := ⟨n.regs, n.data, s.walker.calls⟩ }
  | probed (s : Probed δ) (pt : ProbePoint) (before after : Trap) (n : Native δ)
      (hfirst : s.registry.k.firstPoint (s.registry.registeredAt s.walker.regs.epc) = some pt)
      (hbefore : before = s.registry.k.runPre (s.registry.registeredAt s.walker.regs.epc)
        ⟨s.walker.regs, s.walker.calls⟩)
      (hnext : Native.Next P L.code
        ⟨before.regs.updatePc s.walker.regs.epc, s.walker.data⟩ n)
      (hafter : after = s.registry.k.runPost (s.registry.registeredAt s.walker.regs.epc)
        ⟨n.regs.updatePc pt.debugAddress, before.calls⟩) :
      Hooked s { s with walker := ⟨after.regs.updatePc n.regs.epc, n.data, after.calls⟩ }

end Hooks

theorem Sane.hooked {s s' : Probed δ} (h : Sane L s) (hstep : Hooked P L s s') : Sane L s' := by
  cases hstep with
  | unprobed => exact ⟨h.settled, h.space⟩
  | probed => exact ⟨h.settled, h.space⟩

/-- Two traps and the instruction between them. -/
theorem Sane.own_of_hooked {s s' : Probed δ} (h : Sane L s) (hstep : Hooked P L s s')
    (other : Probed δ → Probed δ → Prop) :
    ∃ c, Runs (Own P) other c s s' ∧ 1 ≤ c ∧ c ≤ 3 := by
  have hs := h.settled
  cases hstep with
  | unprobed n hsite hnone hnext =>
    refine ⟨1, .single ⟨_, ?_, rfl⟩, Nat.le_refl 1, by omega⟩
    rw [hs.step_unprobed P hsite hnone, hnext]
    rfl
  | probed pt before after n hfirst hbefore hnext hafter =>
    have hne : s.registry.registeredAt s.walker.regs.epc ≠ [] := by
      intro hnone
      rw [hnone] at hfirst
      cases hfirst
    obtain ⟨p, qt, hat⟩ := hs.pointAt hne
    rw [hs.firstPoint_registered hat] at hfirst
    cases hfirst
    obtain ⟨hnative, hpc⟩ := hs.native_step P h.space hat
      ⟨before.regs.updatePc s.walker.regs.epc, s.walker.data⟩ rfl
    cases hnative.symm.trans hnext
    have hsite := hs.step_site P h.space hat rfl
    rw [← hbefore] at hsite
    have hslot := hs.step_slot P h.space hat
      ⟨before.regs.updatePc pt.singleStepAddress, s.walker.data, before.calls⟩
      (before.regs.updatePc s.walker.regs.epc) rfl
    have hbehind := hs.step_behind P h.space hat
      ⟨(P.execute pt.oldInstruction.bytes (before.regs.updatePc s.walker.regs.epc)
        s.walker.data).1.updatePc pt.debugAddress,
        (P.execute pt.oldInstruction.bytes (before.regs.updatePc s.walker.regs.epc)
          s.walker.data).2, before.calls⟩ rfl
    dsimp only at hbehind hafter
    rw [← hafter, ← hpc] at hbehind
    refine ⟨3, ?_, by omega, Nat.le_refl 3⟩
    exact ((Runs.single (own_of_step hsite)).own (own_of_step hslot)).own (own_of_step hbehind)

theorem Sane.carried_out {m : Nat} {s₀ s : Probed δ} (h : Sane L s₀)
    (hrun : Runs (Hooked P L) (Manage L) m s₀ s) :
    ∃ c, Runs (Own P) (Manage L) c s₀ s ∧ m ≤ c ∧ c ≤ 3 * m := by
  induction hrun with
  | refl _ => exact ⟨0, .refl _, Nat.le_refl 0, Nat.le_refl 0⟩
  | own hrun hstep ih =>
    obtain ⟨c, hown, hle, hge⟩ := ih h
    have hsane := hrun.invariant (fun _ _ hs hnext => hs.hooked hnext)
      (fun _ _ hs hmanage => hs.manage hmanage) h
    obtain ⟨d, hone, hlow, hhigh⟩ := hsane.own_of_hooked hstep (Manage L)
    exact ⟨c + d, hown.trans hone, by omega, by omega⟩
  | other _ hstep ih =>
    obtain ⟨c, hown, hle, hge⟩ := ih h
    exact ⟨c, hown.other hstep, hle, hge⟩

/-- What the program with hooks does, with changes of the registry between its instructions, the
patched program does. -/
theorem hooks_carried_out (P : Processor δ) (L : Layout) (start : Native δ) {m : Nat}
    {s : Probed δ} (hrun : Runs (Hooked P L) (Manage L) m (boot L start) s) :
    ∃ c, Runs (Own P) (Manage L) c (boot L start) s ∧ m ≤ c ∧ c ≤ 3 * m :=
  (sane_boot start).carried_out hrun

theorem hooks_carried_out_nop : ∃ s : Probed Unit, s.walker.regs.epc = 4098 ∧
    ∃ c, Runs (Own idle) (Manage nopThenBreak) c (boot nopThenBreak atNop) s ∧
      1 ≤ c ∧ c ≤ 3 * 1 := by
  have hhook : Hooked idle nopThenBreak { boot nopThenBreak atNop with registry := nopProbed }
      ⟨nopProbed, ⟨⟨4098, 0, 0, []⟩, (), [.pre ⟨.kprobe, 0⟩]⟩⟩ :=
    .probed ⟨nopProbed, ⟨⟨4096, 0, 0, []⟩, (), []⟩⟩ (plantedPoint none 4096 8192 (.inst16 1))
      ⟨⟨4096, 0, 0, []⟩, [.pre ⟨.kprobe, 0⟩]⟩ ⟨⟨8194, 0, 0, []⟩, [.pre ⟨.kprobe, 0⟩]⟩
      ⟨⟨4098, 0, 0, []⟩, ()⟩ rfl rfl rfl rfl
  exact ⟨_, rfl, hooks_carried_out idle nopThenBreak atNop
    (((Runs.refl _).other nopProbed_manage).own hhook)⟩

end Probed

end ExtKtrace.Kprobe
