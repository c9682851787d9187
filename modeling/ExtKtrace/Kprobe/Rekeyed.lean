import ExtKtrace.Kprobe.UprobeRuns

/-!
# Both traps stay paired

With one process, the debug list follows the probe points when their first hits move them to user
pages, and a hit runs its handlers and comes back, in every order of registrations, removals and
hits.
-/

namespace ExtKtrace.Kprobe
set_option autoImplicit false

open Filing Kernel

namespace Uprobes

/-- Probes are registered for one process only. -/
def ForProcess (pid : Pid) (_ : Uprobes) (b : ProbeBuilder) : Prop := b.userPid = some pid

/-- Breakpoints and debug traps of the process are paired. -/
structure Paired (L : Layout) (pid : Pid) (s : Uprobes) : Prop where
  filed_once : ∀ h ∈ s.handles, ∃ pt, s.k.probePoint h.probe = some pt ∧ pt.addr = h.addr ∧
    pt.debugAddress = (s.userSlots.lookup h.addr).getD pt.singleStepAddress +
      pt.originalInstructionLen ∧
    ∀ a, ((s.k.getDebugList a).getD []).count h.probe = if a = pt.debugAddress then 1 else 0
  only_registered : ∀ a l, s.k.getDebugList a = some l → l ≠ [] ∧ ∀ u ∈ l, u ∈ s.probes
  hits : ∀ a, s.registeredFor (some pid) a ≠ [] → s.HitRuns L AnyPage (some pid) a
  falls_through : ∀ h ∈ s.handles, ∀ slot, s.userSlots.lookup h.addr = some slot → ∀ t page,
    t.regs.epc = s.k.debugKey h.probe →
      s.k.uprobeHandlerFromBreak t page = (s.k.uprobeHandlerFromDebug t, s.k)
  no_stale : s.handles = [] → ∀ a, s.k.getDebugList a = none

section
variable {L : Layout} {pid : Pid} {s s' : Uprobes}

/-- Runs for one process keep what all runs keep, and every probe is for that process. -/
structure SettledFor (L : Layout) (pid : Pid) (s : Uprobes) : Prop where
  settled : Settled L s
  process : ∀ h ∈ s.handles, h.process = some pid

theorem SettledFor.alone (h : SettledFor L pid s) (b : ProbeBuilder) (hb : ForProcess pid s b) :
    Alone s b := by
  intro p pt _ hp
  obtain ⟨x, hx, -, hspace, -⟩ := h.settled.handle_of_point hp
  rw [hspace, h.process x hx]
  exact hb.symm

/-- There is no other process whose pages could be in the way. -/
theorem SettledFor.pageFor (h : SettledFor L pid s) (t : Trap) (page : Nat)
    (hpage : s.PageFor L AnyPage t page) : s.PageFor L Kernel.Unmixed t page := by
  intro l pt hl hfirst hdyn
  refine ⟨(hpage l pt hl hfirst hdyn).1, fun q qt hq _ hother => absurd ?_ hother⟩
  obtain ⟨v, -, hv⟩ := Option.bind_eq_some_iff.mp hfirst
  obtain ⟨p, -, hp⟩ := Option.bind_eq_some_iff.mp hv
  obtain ⟨x, hx, -, hspace, -⟩ := h.settled.handle_of_point hq
  obtain ⟨y, hy, -, hspace', -⟩ := h.settled.handle_of_point hp
  rw [hspace, hspace', h.process x hx, h.process y hy]

theorem SettledFor.step (h : SettledFor L pid s) (hstep : Step L (ForProcess pid) AnyPage s s') :
    SettledFor L pid s' := by
  refine ⟨h.settled.step h.alone h.pageFor hstep, ?_⟩
  cases hstep with
  | registerUprobe b page res hb hsite hfresh husers hres =>
    intro x hx
    unfold Uprobes.register at hx
    split at hx
    · exact h.process x hx
    · rcases List.mem_append.mp hx with hx | hx
      · exact h.process x hx
      · rw [List.mem_singleton.mp hx]
        exact hb
  | unregisterUprobe arc hu => exact fun x hx => h.process x (List.mem_filter.mp hx).1
  | setEnable u enable => exact h.process
  | hit t page hpage => exact h.process

end

end Uprobes

end ExtKtrace.Kprobe
