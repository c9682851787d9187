import ExtKtrace.Kprobe.UprobeRuns

/-!
# Probes in several processes

The registry knows probes and debug traps by address only. Processes do not disturb each other as
long as no two have probes at one address or user pages at one address.
-/

namespace ExtKtrace.Kprobe
set_option autoImplicit false

open Filing Kernel

namespace Uprobes

/-- The states of the runs in which a probe is registered at an address only for the process that
has the point there, if there is one, and a hit is given no page at an address where a point of
another process has one. -/
def Reachable (L : Layout) : Uprobes → Prop :=
  Machine.Reachable (· = boot L) (Step L Alone Kernel.Unmixed)

/-- The states of all runs. -/
def ReachableAny (L : Layout) : Uprobes → Prop :=
  Machine.Reachable (· = boot L) (Step L (fun _ _ => True) AnyPage)

/-- No probe of another process is at the address, and no debug trap is expected there. -/
def Unshared (s : Uprobes) (sp : Space) (a : Nat) : Prop :=
  ∀ h ∈ s.handles, (h.addr = a → h.process = sp) ∧ s.k.debugKey h.probe ≠ a

section
variable {L : Layout} {s : Uprobes}

theorem registeredFor_ne_nil {x : UprobeHandle} (hx : x ∈ s.handles) :
    s.registeredFor x.process x.addr ≠ [] := by
  apply List.ne_nil_of_mem (a := x.probe)
  exact List.mem_map_of_mem (List.mem_filter.mpr ⟨hx, by simp⟩)

theorem Settled.unclaimed (h : Settled L s) {sp : Space} {a : Nat}
    (hnone : s.registeredFor sp a = []) (hunshared : s.Unshared sp a) (t : Trap) (page : Nat)
    (ht : t.regs.breakAddress = a) : s.k.uprobeHandlerFromBreak t page = (.unclaimed, s.k) := by
  have hvac : vacated s.handles a := by
    rw [vacated_iff]
    intro x hx hxa
    apply registeredFor_ne_nil hx
    rw [(hunshared x hx).1 hxa, hxa]
    exact hnone
  have hbreak : s.k.getBreakList t.regs.breakAddress = none := by
    rcases h.break_cases t.regs.breakAddress with ⟨hl, -⟩ | ⟨l, p, pt, -, -, -, -, -, hvac', -⟩
    · exact hl
    · rw [ht] at hvac'
      exact absurd hvac hvac'
  have hdebug : s.k.getDebugList t.regs.debugAddress = none := by
    cases hl : s.k.getDebugList t.regs.debugAddress with
    | none => rfl
    | some l =>
      exfalso
      obtain ⟨u, hu⟩ := List.exists_mem_of_ne_nil _ (Files.ne_nil h.filed hl)
      obtain ⟨hu', hkey⟩ := Files.mem_of_lookup h.filed hl hu
      obtain ⟨x, hx, rfl⟩ := List.mem_map.mp (show u ∈ s.probes from hu')
      exact (hunshared x hx).2 (hkey.trans ht)
  unfold Kernel.uprobeHandlerFromBreak
  rw [hbreak]
  dsimp only
  unfold Kernel.uprobeHandlerFromDebug Kernel.kprobeHandlerFromDebug
  rw [hdebug]

theorem Reachable.settled (h : Reachable L s) : Settled L s :=
  Machine.Reachable.invariant (fun _ hs => hs ▸ settled_boot L)
    (fun _ _ hs hstep => hs.step (fun _ hb => hb) (fun _ _ hpage => hpage) hstep) h

end

/-- Compressed instructions at 4096 and 4100, the same in every process. -/
def twoInsns : Layout where
  code sp b := if sp.isSome ∧ (b = 4096 ∨ b = 4100) then 1 else 0
  text sp b := sp.isSome ∧ 4096 ≤ b ∧ b < 4104
  site sp a := sp.isSome ∧ (a = 4096 ∨ a = 4100)
  in_text sp a i h hi := by
    have hlen := insnLen_le (fun sp b => if sp.isSome ∧ (b = 4096 ∨ b = 4100) then 1 else 0) sp a
    refine ⟨h.1, ?_⟩
    rcases h.2 with rfl | rfl <;> omega
  apart sp a b ha hb hne := by
    have hlen := insnLen_le (fun sp b => if sp.isSome ∧ (b = 4096 ∨ b = 4100) then 1 else 0)
    rcases ha.2 with rfl | rfl <;> rcases hb.2 with rfl | rfl
    · exact absurd rfl hne
    · have h := hlen sp 4096
      omega
    · have h := hlen sp 4096
      omega
    · exact absurd rfl hne

def probeAt (pid : Pid) (a : Nat) : ProbeBuilder := { userProbe pid with symbolAddr := a }

def oneOfTwo : Uprobes :=
  (boot twoInsns).register (probeAt 1 4096)
    ((boot twoInsns).k.registerProbe .uprobe (probeAt 1 4096) 8192)

/-- Process 1 has a probe at 4096 and process 2 one at 4100. -/
def oneEach : Uprobes :=
  oneOfTwo.register (probeAt 2 4100) (oneOfTwo.k.registerProbe .uprobe (probeAt 2 4100) 12288)

/-- Process 1 has hit its probe. -/
def hitOne : Uprobes := oneEach.hit ⟨⟨4096, 0, 0, []⟩, []⟩ 16384

/-- Process 2 has hit its probe too, and was given a page. -/
def hitBoth (page : Nat) : Uprobes := hitOne.hit ⟨⟨4100, 0, 0, []⟩, []⟩ page

section
variable {Own : Uprobes → ProbeBuilder → Prop} {Given : Kernel → Space → Nat → Prop}

theorem off_twoInsns {sp : Space} {page : Nat} (h : 8192 ≤ page) : OffText twoInsns sp page := by
  intro b hb _ htext
  have hlt : b < 4104 := htext.2.2
  omega

theorem oneEach_reachable (hown : ∀ s b, (∀ p pt, s.k.pointList.lookup b.probeAddr = some p →
    s.k.points.value p = some pt → pt.userPid = b.userPid) → Own s b) :
    Machine.Reachable (· = boot twoInsns) (Step twoInsns Own Given) oneEach := by
  have hboot : Machine.Reachable (· = boot twoInsns) (Step twoInsns Own Given) (boot twoInsns) :=
    .start rfl
  have hfirst : Step twoInsns Own Given (boot twoInsns) oneOfTwo :=
    .registerUprobe _ (probeAt 1 4096) 8192 _ (hown _ _ nofun) (fun _ _ _ => ⟨rfl, .inl rfl⟩)
      ⟨nofun, off_twoInsns (Nat.le_refl _)⟩ nofun rfl
  have hpages : oneOfTwo.k.pages = [8192] := by decide +kernel
  have husers : oneOfTwo.k.userPages = [] := by decide +kernel
  have hnone : oneOfTwo.k.pointList.lookup 4100 = none := by decide +kernel
  have hsecond : Step twoInsns Own Given oneOfTwo oneEach := by
    refine .registerUprobe _ (probeAt 2 4100) 12288 _ (hown _ _ ?_) (fun _ _ _ => ⟨rfl, .inr rfl⟩)
      ⟨?_, off_twoInsns (by decide)⟩ ?_ rfl
    · intro p pt hp
      rw [show (probeAt 2 4100).probeAddr = 4100 from rfl, hnone] at hp
      cases hp
    · intro q hq
      rw [hpages, List.mem_singleton] at hq
      subst hq
      right
      decide
    · rw [husers]
      exact nofun
  exact (hboot.next hfirst).next hsecond

theorem fresh_twoInsns {k : Kernel} {sp : Space} {page : Nat} (hpages : k.pages = [12288, 8192])
    (hlo : 16384 ≤ page) (husers : ∀ e ∈ k.userPages, e.1 ≠ sp) :
    FreshUserPage twoInsns k sp page where
  nonzero := by omega
  slots q hq := by
    rw [hpages] at hq
    rcases List.mem_cons.mp hq with rfl | hq
    · exact .inr hlo
    · rw [List.mem_singleton.mp hq]
      exact .inr (by unfold pageSize; omega)
  users e he hsp := absurd hsp (husers e he)
  off := off_twoInsns (by omega)

theorem hitOne_step (hgiven : ∀ sp, Given oneEach.k sp 16384) :
    Step twoInsns Own Given oneEach hitOne := by
  refine .hit _ _ _ fun l pt _ _ _ => ⟨fresh_twoInsns (by decide +kernel) (Nat.le_refl _) ?_,
    hgiven pt.userPid⟩
  have husers : oneEach.k.userPages = [] := by decide +kernel
  rw [husers]
  exact nofun

theorem hitBoth_step {page : Nat} (hlo : 16384 ≤ page) (hgiven : Given hitOne.k (some 2) page) :
    Step twoInsns Own Given hitOne (hitBoth page) := by
  refine .hit _ _ _ fun l pt hl hfirst _ => ?_
  have hlist : hitOne.k.getBreakList 4100 = some [⟨.uprobe, 1⟩] := by decide +kernel
  have hpoint : hitOne.k.firstPoint [⟨.uprobe, 1⟩] =
      some (plantedPoint (some 2) 4100 12288 (.inst16 1)) := by
    decide +kernel
  have husers : hitOne.k.userPages = [(some 1, 16384)] := by decide +kernel
  cases hlist.symm.trans hl
  cases hpoint.symm.trans hfirst
  refine ⟨fresh_twoInsns (by decide +kernel) hlo ?_, hgiven⟩
  rw [husers]
  intro e he hsp
  rw [List.mem_singleton.mp he] at hsp
  cases hsp

end

/-- Both processes are given a page at one address: the probe of the first one is filed nowhere any
more, and its debug trap runs the post handlers of the second one and comes back behind the
instruction of that. -/
theorem shared_page_mixes_processes :
    ReachableAny twoInsns (hitBoth 16384) ∧
      (hitBoth 16384).registeredFor (some 1) 4096 = [⟨.uprobe, 0⟩] ∧
      (hitBoth 16384).k.getBreakList 4096 = some [⟨.uprobe, 0⟩] ∧
      (hitBoth 16384).k.getDebugList 16386 = some [⟨.uprobe, 1⟩] ∧
      ∃ t out, t.regs.debugAddress = 16386 ∧ (hitBoth 16384).k.uprobeHandlerFromDebug t =
        .claimed out ∧ out.calls = [.post ⟨.uprobe, 1⟩, .callback ⟨.uprobe, 1⟩ 7] ∧
        out.regs.epc = 4102 := by
  have hboth : ReachableAny twoInsns oneEach := oneEach_reachable fun _ _ _ => trivial
  have hone := hboth.next (hitOne_step fun _ => trivial)
  exact ⟨hone.next (hitBoth_step (Nat.le_refl _) trivial), by decide +kernel, by decide +kernel,
    by decide +kernel, ⟨⟨16386, 0, 0, []⟩, []⟩, _, rfl, rfl, by decide +kernel, by decide +kernel⟩

end Uprobes

end ExtKtrace.Kprobe
