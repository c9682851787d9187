import ExtKtrace.Lib.Machine
import ExtKtrace.Kprobe.Books

/-!
# Traps on other CPUs

One CPU registers and unregisters kernel probes, step by step; on the others, threads run into
breakpoints at any moment. A trap handler holds a clone of the list it has looked up until it
returns; between its two traps a thread is in the slot and holds nothing.
-/

namespace ExtKtrace.Kprobe
set_option autoImplicit false

open Filing Kernel

inductive Thread where
  /-- In `kprobe_handler_from_break`, with the break list it found. -/
  | handling (site : Nat) (list : List UniProbe) (t : Trap)
  /-- Sent into the slot of the point `home`. -/
  | stepping (site : Nat) (home : ProbePoint) (t : Trap)
  /-- In `kprobe_handler_from_debug`, with the debug list it found. -/
  | finishing (site : Nat) (home : ProbePoint) (list : List UniProbe) (t : Trap)
  /-- Both traps are handled; the thread goes on from its program counter. -/
  | returned (site : Nat) (t : Trap)

def Thread.clones : Thread → List UniProbe
  | handling _ l _ => l
  | stepping _ _ _ => []
  | finishing _ _ l _ => l
  | returned _ _ => []

/-- `registered` are the handles that callers hold, with the one being given back. -/
structure Sys where
  k : Kernel
  registered : List UniProbe
  writer : Writer
  threads : Table Nat Thread

/-- Where a thread traps again: at the breakpoint after the instruction in the slot, whatever the
instruction has done to the other registers. -/
def atDebug (home : ProbePoint) (t : Trap) : Prop :=
  t.regs.epc = home.singleStepAddress + home.originalInstructionLen

namespace Sys

def boot (L : Layout) : Sys := ⟨Kernel.boot L.code, [], .idle, ∅⟩

/-- The references to a probe that trap handlers hold. -/
def cloned (s : Sys) (v : Nat) : Nat := Table.tally (fun th => handles th.clones v) s.threads

def begun (s : Sys) (res : Except ProbeInstallError Writer × Kernel) : Sys :=
  match res with
  | (.error _, k) => { s with k := k }
  | (.ok w, k) => { s with k := k, writer := w }

def writerStep (s : Sys) : Option Sys :=
  match s.writer with
  | .idle => none
  | .filePoint kind probe point address =>
    let (u, k) := s.k.filePoint kind probe point address
    some { s with k := k, writer := .linkBreak u }
  | .linkBreak u => some { s with k := s.k.linkBreak u, writer := .linkDebug u }
  | .linkDebug u =>
    some { s with k := s.k.linkDebug u, registered := s.registered ++ [u], writer := .idle }
  | .unlinkBreak u => some { s with k := s.k.unlinkBreak u, writer := .unlinkDebug u }
  | .unlinkDebug u =>
    some { s with k := s.k.unlinkDebug u, writer := .release u (s.k.breakKey u) }
  | .release u a =>
    some { s with
      k := s.k.dropProbe u
      registered := s.registered.filter fun v => v ≠ u
      writer := .unfile a }
  | .unfile a => some { s with k := s.k.unfile a, writer := .idle }

inductive Step (L : Layout) : Sys → Sys → Prop
  | beginRegister (s : Sys) (b : ProbeBuilder) (page : Nat) (hidle : s.writer = .idle)
      (hkernel : b.userPid = none) (hsite : AtSite L s.k b) (hfresh : FreshPage L s.k page) :
      Step L s (s.begun (s.k.beginRegister .kprobe b page))
  | beginUnregister (s : Sys) (u : UniProbe) (hidle : s.writer = .idle) (hu : u ∈ s.registered) :
      Step L s { s with writer := .unlinkBreak u }
  | writer (s s' : Sys) (h : s.writerStep = some s') : Step L s s'
  | trap (s : Sys) (i : Nat) (t : Trap) (l : List UniProbe) (hi : s.threads.lookup i = none)
      (hl : s.k.getBreakList t.regs.breakAddress = some l) :
      Step L s { s with
        k := s.k.cloneList l
        threads := s.threads.insert i (.handling t.regs.breakAddress l t) }
  | redirect (s : Sys) (i site : Nat) (l : List UniProbe) (t : Trap) (home : ProbePoint)
      (hi : s.threads.lookup i = some (.handling site l t)) (hp : s.k.firstPoint l = some home) :
      Step L s { s with
        k := s.k.dropProbes l
        threads := s.threads.insert i (.stepping site home
          { s.k.runPre l t with
            regs := setupSingleStep (s.k.runPre l t).regs home.singleStepAddress }) }
  | debugTrap (s : Sys) (i site : Nat) (home : ProbePoint) (t t' : Trap) (l : List UniProbe)
      (hi : s.threads.lookup i = some (.stepping site home t)) (hpc : atDebug home t')
      (hbreak : s.k.getBreakList t'.regs.breakAddress = none)
      (hl : s.k.getDebugList t'.regs.debugAddress = some l) :
      Step L s { s with
        k := s.k.cloneList l
        threads := s.threads.insert i (.finishing site home l t') }
  | finish (s : Sys) (i site : Nat) (home p : ProbePoint) (l : List UniProbe) (t : Trap)
      (hi : s.threads.lookup i = some (.finishing site home l t)) (hp : s.k.firstPoint l = some p) :
      Step L s { s with
        k := s.k.dropProbes l
        threads := s.threads.insert i (.returned site
          { s.k.runPost l t with
            regs := clearSingleStep (s.k.runPost l t).regs p.returnAddress }) }
  | resume (s : Sys) (i site : Nat) (t : Trap)
      (hi : s.threads.lookup i = some (.returned site t)) :
      Step L s { s with threads := s.threads.erase i }

def Reachable (L : Layout) : Sys → Prop := Machine.Reachable (· = boot L) (Step L)

structure Kept (L : Layout) (s : Sys) : Prop where
  books : Books L s.k s.registered s.writer s.cloned
  filed : Filed s.k s.registered s.writer
  kernel : ∀ p pt, s.k.points.value p = some pt → pt.userPid = none ∧ pt.dynamicUserPtr = 0

theorem kept_boot (L : Layout) : Kept L (boot L) where
  books := Books.boot L
  filed := Files.empty _
  kernel := fun p pt h => by simp [boot, Kernel.boot] at h

section Kept
variable {L : Layout} {s s' : Sys}

theorem Kept.beginRegister (h : Kept L s) {b : ProbeBuilder} {page : Nat} (hidle : s.writer = .idle)
    (hkernel : b.userPid = none) (hsite : AtSite L s.k b) (hfresh : FreshPage L s.k page) :
    Kept L (s.begun (s.k.beginRegister .kprobe b page)) := by
  have hbooks := h.books
  have hfiled := h.filed
  rw [hidle] at hbooks hfiled
  have hpoints : ∀ q y, (s.k.beginRegister .kprobe b page).2.points.value q = some y →
      y.userPid = none ∧ y.dynamicUserPtr = 0 := by
    intro q y hy
    rcases beginRegister_points s.k .kprobe b page q y hy with hold | ⟨-, a, o, rfl⟩
    · exact h.kernel q y hold
    · exact ⟨hkernel, rfl⟩
  cases hp : s.k.pointList.lookup b.probeAddr with
  | some p =>
    obtain ⟨u, k', hbegin, -, hb, hf, -, -⟩ :=
      beginRegister_shared .kprobe page hbooks hp
    rw [hbegin] at hpoints ⊢
    exact ⟨hb, hf hfiled, hpoints⟩
  | none =>
    cases hf : fetch s.k.mem b.userPid b.probeAddr with
    | error e =>
      rw [beginRegister_refused .kprobe page hp hf]
      exact h
    | ok o =>
      obtain ⟨k', hbegin, hb, hf', -, -⟩ :=
        beginRegister_planted .kprobe hbooks hp hfresh (hsite hp o hf) hf
      rw [hbegin] at hpoints ⊢
      exact ⟨hb, hf' hfiled, hpoints⟩

theorem Kept.writer (h : Kept L s) (hs : s.writerStep = some s') : Kept L s' := by
  have hbooks := h.books
  have hfiled := h.filed
  unfold writerStep at hs
  cases hw : s.writer with
  | idle =>
    rw [hw] at hs
    cases hs
  | filePoint kind probe point address =>
    rw [hw] at hs hbooks hfiled
    obtain ⟨u, k', hfile, -, hb, hf, -, -⟩ := hbooks.filePoint
    have hpoints := insertPoint_points s.k address point
    simp only [hfile] at hs
    cases hs
    refine ⟨hb, hf hfiled, ?_⟩
    intro p pt hp
    apply h.kernel p pt
    have hk : k' = (s.k.filePoint kind probe point address).2 := by rw [hfile]
    rw [hk] at hp
    exact hpoints p pt hp
  | linkBreak u =>
    rw [hw] at hs hbooks hfiled
    cases hs
    exact ⟨hbooks.linkBreak, Filed.linkBreak hbooks hfiled,
      fun p pt hp => h.kernel p pt (linkBreak_points s.k u p pt hp)⟩
  | linkDebug u =>
    rw [hw] at hs hbooks hfiled
    cases hs
    exact ⟨hbooks.linkDebug, Filed.linkDebug hbooks hfiled,
      fun p pt hp => h.kernel p pt (linkDebug_points s.k u p pt hp)⟩
  | unlinkBreak u =>
    rw [hw] at hs hbooks hfiled
    cases hs
    refine ⟨hbooks.unlinkBreak, Filed.unlinkBreak hbooks hfiled, ?_⟩
    intro p pt hp
    dsimp only at hp
    rw [unlinkBreak_eq hbooks] at hp
    exact h.kernel p pt ((removeOneBreak_shrinks s.k _ u).points p pt hp)
  | unlinkDebug u =>
    rw [hw] at hs hbooks hfiled
    cases hs
    refine ⟨hbooks.unlinkDebug, Filed.unlinkDebug hbooks hfiled, ?_⟩
    intro p pt hp
    dsimp only at hp
    rw [unlinkDebug_eq hbooks] at hp
    exact h.kernel p pt ((removeOneDebug_shrinks s.k _ u).points p pt hp)
  | release u a =>
    rw [hw] at hs hbooks hfiled
    cases hs
    exact ⟨hbooks.release, Filed.release hbooks hfiled,
      fun p pt hp => h.kernel p pt ((dropProbe_shrinks s.k u).points p pt hp)⟩
  | unfile a =>
    rw [hw] at hs hbooks hfiled
    cases hs
    refine ⟨hbooks.unfile, Filed.unfile hbooks hfiled, ?_⟩
    intro p pt hp
    apply h.kernel p pt
    dsimp only at hp
    unfold Kernel.unfile at hp
    split at hp
    · exact (removePoint_shrinks s.k a).points p pt hp
    · exact hp

/-- A step of a thread changes no list and no value: it takes or drops references. -/
theorem Kept.thread (h : Kept L s) {k' : Kernel} {threads : Table Nat Thread}
    (hshr : Shrinks s.k k')
    (hsound : Sound L k' (fun v => handles s.registered v + s.writer.held v +
      Table.tally (fun th => handles th.clones v) threads) s.writer.pheld) :
    Kept L { s with k := k', threads := threads } where
  books := h.books.others hshr hsound
  filed := by
    have hsame : Same s.k k' s.registered :=
      hshr.same hsound fun v hv => by
        have hpos := handles_pos hv
        omega
    exact Filed.others h.filed hshr.debugList hsame
  kernel p pt hp := h.kernel p pt (hshr.points p pt hp)

theorem cloned_insert (s : Sys) (i : Nat) (th : Thread) (v : Nat) :
    Table.tally (fun th => handles th.clones v) (s.threads.insert i th) +
      (s.threads.lookup i).elim 0 (fun th => handles th.clones v) =
        s.cloned v + handles th.clones v :=
  Table.tally_insert _ i th s.threads

/-- A thread takes a clone of a list it has looked up. -/
theorem Kept.clone (h : Kept L s) {i : Nat} {th : Thread} {l : List UniProbe}
    (hl : ∀ x ∈ l, ∃ pr, s.k.probes.value x.arc = some pr) (hth : th.clones = l)
    (hi : ∀ v, (s.threads.lookup i).elim 0 (fun th => handles th.clones v) = 0) :
    Kept L { s with k := s.k.cloneList l, threads := s.threads.insert i th } := by
  apply h.thread (s.k.cloneList_shrinks l)
  refine h.books.sound.cloneList hl ?_
  intro v
  have hsum := cloned_insert s i th v
  rw [hi v, hth] at hsum
  omega

theorem Kept.drop (h : Kept L s) {i : Nat} {th th' : Thread} (hi : s.threads.lookup i = some th)
    (hth : th'.clones = []) :
    Kept L { s with k := s.k.dropProbes th.clones, threads := s.threads.insert i th' } := by
  apply h.thread (s.k.dropProbes_shrinks _)
  refine h.books.sound.dropProbes ?_
  intro v
  have hsum := cloned_insert s i th' v
  rw [hi, Option.elim_some, hth, handles_nil] at hsum
  omega

theorem Kept.step (h : Kept L s) (hstep : Step L s s') : Kept L s' := by
  cases hstep with
  | beginRegister b page hidle hkernel hsite hfresh =>
    exact h.beginRegister hidle hkernel hsite hfresh
  | beginUnregister u hidle hu =>
    have hbooks := h.books
    have hfiled := h.filed
    rw [hidle] at hbooks hfiled
    exact ⟨hbooks.beginUnregister hu, hfiled, h.kernel⟩
  | writer _ hw => exact h.writer hw
  | trap i t l hi hl =>
    refine h.clone (fun x hx => h.books.sound.live_of_break hl hx) rfl ?_
    intro v
    rw [hi]
    rfl
  | redirect i site l t home hi hp => exact h.drop hi rfl
  | debugTrap i site home t t' l hi hpc hbreak hl =>
    refine h.clone (fun x hx => h.books.sound.live_of_debug hl hx) rfl ?_
    intro v
    rw [hi]
    rfl
  | finish i site home p l t hi hp => exact h.drop hi rfl
  | resume i site t hi =>
    apply h.thread (.refl s.k)
    refine h.books.sound.congr ?_ fun _ => rfl
    intro v
    have hsum := Table.tally_erase (fun th : Thread => handles th.clones v) i s.threads
    rw [hi] at hsum
    have hzero : handles (Thread.returned site t).clones v = 0 := rfl
    rw [Option.elim_some, hzero, Nat.add_zero] at hsum
    rw [hsum]
    rfl

end Kept

theorem Reachable.kept {L : Layout} {s : Sys} (h : Reachable L s) : Kept L s :=
  Machine.Reachable.invariant (fun _ hs => hs ▸ kept_boot L) (fun _ _ hs hstep => hs.step hstep) h

end Sys

end ExtKtrace.Kprobe
