import ExtKtrace.Kprobe.TrampolineX86

/-!
# Return probes over the trampolines

The machine of return probes takes what it needs of an architecture from `Arch`. The instructions of
the trampolines do what it takes: a run of a trampoline is the two steps of a task from the return
of a function to the address that was kept.
-/

namespace ExtKtrace.Kprobe
set_option autoImplicit false

open Spill

namespace Rethook

namespace LoongArch64

/-- `regs[1]` -/
structure PtRegs where
  ra : UInt64
  deriving DecidableEq

def archRethookPrepare {P : Type} (trampoline : UInt64) (i : RetprobeInstance P) (r : PtRegs) :
    RetprobeInstance P × PtRegs :=
  ({ i with retAddr := r.ra, frame := 0 }, { r with ra := trampoline })

def arch (trampoline : UInt64) : Arch where
  PtRegs := PtRegs
  trampoline := trampoline
  returnsTo := PtRegs.ra
  frameOf _ := 0
  prepare := archRethookPrepare trampoline
  callbackFrame _ := 0
  fixupReturn r correctRetAddr := { r with ra := correctRetAddr }
  prepare_keeps _ _ := rfl
  prepare_returnsTo _ _ := rfl
  prepare_frameOf _ _ := rfl
  callbackFrame_eq _ := rfl
  fixupReturn_returnsTo _ _ := rfl
  fixupReturn_frameOf _ _ := rfl

end LoongArch64

namespace Aarch64

/-- `regs[30]` and `regs[29]` -/
structure PtRegs where
  lr : UInt64
  fp : UInt64
  deriving DecidableEq

def archRethookPrepare {P : Type} (trampoline : UInt64) (i : RetprobeInstance P) (r : PtRegs) :
    RetprobeInstance P × PtRegs :=
  ({ i with retAddr := r.lr, frame := r.fp }, { r with lr := trampoline })

def arch (trampoline : UInt64) : Arch where
  PtRegs := PtRegs
  trampoline := trampoline
  returnsTo := PtRegs.lr
  frameOf := PtRegs.fp
  prepare := archRethookPrepare trampoline
  callbackFrame := PtRegs.fp
  fixupReturn r correctRetAddr := { r with lr := correctRetAddr }
  prepare_keeps _ _ := rfl
  prepare_returnsTo _ _ := rfl
  prepare_frameOf _ _ := rfl
  callbackFrame_eq _ := rfl
  fixupReturn_returnsTo _ _ := rfl
  fixupReturn_frameOf _ _ := rfl

end Aarch64

end Rethook

namespace Trampoline
open Rethook hiding State

/-- `rethook_trampoline_handler` in a task with these instances: it pops the newest, which has to be
for the frame that it is passed. The handlers and the callbacks of the probe are given the registers
to write. -/
def rethookTrampolineHandler {P : Type} (alive : P → Bool) (instances : List (RetprobeInstance P))
    (handlers : P → UInt64 → Words → Words) : Handler :=
  fun ptRegs frame m => do
    let (inst, p, _) ← (popInstance alive frame instances).toOption
    return (handlers p ptRegs m, inst.retAddr)

variable {R : Type} [DecidableEq R]

/-- Where no instance is taken the trampoline panics. -/
theorem Faithful.panics {T : Trampoline R} {valid : State R → Prop} {size : UInt64}
    {frameOf : State R → UInt64} {view : Words → UInt64 → R → UInt64} {seen restored : List R}
    (h : Faithful T valid size frameOf view seen restored) {s : State R} (hs : valid s)
    {P : Type} {alive : P → Bool} {instances : List (RetprobeInstance P)} {e : Panic}
    (hpop : popInstance alive (frameOf s) instances = .error e)
    (handlers : P → UInt64 → Words → Words) (left : R → UInt64) :
    T.run (rethookTrampolineHandler alive instances handlers) left s = none := by
  obtain ⟨m, -, -, hpanics, -⟩ := h.carries s hs
  apply hpanics
  unfold rethookTrampolineHandler
  rw [hpop]
  rfl

/-- Registers that the handlers leave as they are, the caller finds as they were. -/
theorem Faithful.keeps {T : Trampoline R} {valid : State R → Prop} {size : UInt64}
    {frameOf : State R → UInt64} {view : Words → UInt64 → R → UInt64} {seen restored : List R}
    (h : Faithful T valid size frameOf view seen restored) {s : State R} (hs : valid s)
    {P : Type} {alive : P → Bool} {instances rest : List (RetprobeInstance P)}
    {inst : RetprobeInstance P} {p : P}
    (hpop : popInstance alive (frameOf s) instances = .ok (inst, p, rest))
    {handlers : P → UInt64 → Words → Words} {kept : List R}
    (hkept : ∀ r ∈ kept, r ∈ seen ∧ r ∈ restored) (left : R → UInt64) :
    ∃ final, T.run (rethookTrampolineHandler alive instances handlers) left s = some final ∧
      final.2 = inst.retAddr ∧ final.1.reg T.sp = s.reg T.sp ∧
      ((∀ r ∈ kept, ∀ m, view (handlers p (s.reg T.sp - size) m) (s.reg T.sp - size) r =
        view m (s.reg T.sp - size) r) → ∀ r ∈ kept, final.1.reg r = s.reg r) := by
  obtain ⟨m, hseen, -, -, hcarries⟩ := h.carries s hs
  have hanswer : rethookTrampolineHandler alive instances handlers (s.reg T.sp - size) (frameOf s)
      m = some (handlers p (s.reg T.sp - size) m, inst.retAddr) := by
    unfold rethookTrampolineHandler
    rw [hpop]
    rfl
  obtain ⟨final, hrun, hgoes, hsp, hrestored, -⟩ := hcarries _ left _ hanswer
  refine ⟨final, hrun, hgoes, hsp, ?_⟩
  intro hleave r hr
  obtain ⟨hin, hout⟩ := hkept r hr
  rw [hrestored r hout, ← hseen r hin]
  exact hleave r hr m

/-- What the machine of return probes is told of a function's return: the registers at an address
that is gone on to. -/
structure Shown (T : Trampoline R) (A : Arch) (kept : List R) (frameOf : State R → UInt64) where
  regsAt : State R → UInt64 → A.PtRegs
  returnsTo : ∀ s pc, A.returnsTo (regsAt s pc) = pc
  callbackFrame : ∀ s pc, A.callbackFrame (regsAt s pc) = frameOf s
  fixupReturn : ∀ s pc pc', A.fixupReturn (regsAt s pc) pc' = regsAt s pc'
  regsAt_congr : ∀ s s' : State R, s.reg T.sp = s'.reg T.sp → (∀ r ∈ kept, s.reg r = s'.reg r) →
    regsAt s = regsAt s'

/-- A task returns to the trampoline. One run of its instructions, whose handler takes an instance by
the frame that the callback passes on, panics where the machine does; where it goes on, the machine
takes that instance and goes on with the same registers at the same address. -/
structure Simulates (T : Trampoline R) (valid : State R → Prop) (size : UInt64)
    {frameOf : State R → UInt64} (view : Words → UInt64 → R → UInt64) {A : Arch} (kept : List R)
    (shown : Shown T A kept frameOf) : Prop where
  panics : ∀ {P : Type} [DecidableEq P] (alive : P → Bool) (pools : P → Pool P) (t : Task A P)
    (a : Activation A P) (rest : List (Frame A P)) (s : State R)
    (handlers : P → UInt64 → Words → Words) (left : R → UInt64), valid s →
    t.control = .leaving a :: rest → a.regs = shown.regsAt s A.trampoline →
      (T.run (rethookTrampolineHandler alive t.instances handlers) left s = none ↔
        ∃ e, goOn alive pools t = some (.error e))
  returns : ∀ {P : Type} [DecidableEq P] (alive : P → Bool) (pools : P → Pool P) (t : Task A P)
    (a : Activation A P) (rest : List (Frame A P)) (s : State R)
    (handlers : P → UInt64 → Words → Words) (left : R → UInt64) (final : State R × UInt64), valid s →
    t.control = .leaving a :: rest → a.regs = shown.regsAt s A.trampoline →
    (∀ p, ∀ r ∈ kept, ∀ m, view (handlers p (s.reg T.sp - size) m) (s.reg T.sp - size) r =
      view m (s.reg T.sp - size) r) →
    T.run (rethookTrampolineHandler alive t.instances handlers) left s = some final →
      let within := { a with pushed := a.pushed.tail }
      ∃ inst p instances,
        goOn alive pools t = some (.ok (pools, ⟨.trampoline within inst p :: rest, instances⟩)) ∧
        ∀ (alive : P → Bool) (pools : P → Pool P) (t : Task A P),
          t.control = .trampoline within inst p :: rest →
          goOn alive pools t = some (.ok (recycle pools p inst, { t with
            control := .leaving { within with regs := shown.regsAt final.1 final.2 } :: rest }))

/-- The machine pops the newest instance by the frame that the architecture's callback reads. -/
theorem goOn_returned {A : Arch} {P : Type} [DecidableEq P] (alive : P → Bool) (pools : P → Pool P)
    {t : Task A P} {a : Activation A P} {rest : List (Frame A P)}
    (hcontrol : t.control = .leaving a :: rest) (hreturns : A.returnsTo a.regs = A.trampoline) :
    goOn alive pools t = some do
      let (inst, p, instances) ← popInstance alive (A.callbackFrame a.regs) t.instances
      return (pools, ⟨.trampoline { a with pushed := a.pushed.tail } inst p :: rest, instances⟩) := by
  unfold goOn
  rw [hcontrol]
  exact if_pos hreturns

theorem Faithful.simulates {T : Trampoline R} {valid : State R → Prop} {size : UInt64}
    {frameOf : State R → UInt64} {view : Words → UInt64 → R → UInt64} {seen restored : List R}
    (h : Faithful T valid size frameOf view seen restored) {A : Arch} {kept : List R}
    (hkept : ∀ r ∈ kept, r ∈ seen ∧ r ∈ restored) (shown : Shown T A kept frameOf) :
    Simulates T valid size view kept shown where
  panics alive pools t a rest s handlers left hs hcontrol hregs := by
    have hreturns : A.returnsTo a.regs = A.trampoline := by rw [hregs, shown.returnsTo]
    have hframe : A.callbackFrame a.regs = frameOf s := by rw [hregs, shown.callbackFrame]
    rw [goOn_returned alive pools hcontrol hreturns, hframe]
    cases hpop : popInstance alive (frameOf s) t.instances with
    | error e => exact iff_of_true (h.panics hs hpop handlers left) ⟨e, rfl⟩
    | ok popped =>
      obtain ⟨inst, p, instances⟩ := popped
      obtain ⟨final, hrun, -⟩ := h.keeps hs hpop hkept left
      refine iff_of_false ?_ ?_
      · rw [hrun]
        exact Option.some_ne_none final
      · rintro ⟨e, he⟩
        cases he
  returns alive pools t a rest s handlers left final hs hcontrol hregs hleave hrun := by
    intro within
    have hreturns : A.returnsTo a.regs = A.trampoline := by rw [hregs, shown.returnsTo]
    have hframe : A.callbackFrame a.regs = frameOf s := by rw [hregs, shown.callbackFrame]
    rw [goOn_returned alive pools hcontrol hreturns, hframe]
    cases hpop : popInstance alive (frameOf s) t.instances with
    | error e =>
      rw [h.panics hs hpop handlers left] at hrun
      cases hrun
    | ok popped =>
      obtain ⟨inst, p, instances⟩ := popped
      obtain ⟨final', hrun', hgoes, hsp, hsame⟩ := h.keeps hs hpop hkept left
      cases hrun.symm.trans hrun'
      have hfinal : shown.regsAt final.1 final.2 = A.fixupReturn a.regs inst.retAddr := by
        rw [hregs, shown.fixupReturn, shown.regsAt_congr final.1 s hsp (hsame (hleave p)), hgoes]
      refine ⟨inst, p, instances, rfl, ?_⟩
      intro alive' pools' t' hcontrol'
      unfold goOn
      rw [hcontrol']
      dsimp only
      rw [hfinal]

theorem Rv64.regs_congr (s s' : State Rv64.Reg) (_ : s.reg .sp = s'.reg .sp)
    (h : ∀ r ∈ [Rv64.Reg.s0], s.reg r = s'.reg r) :
    (fun pc => (⟨pc, s.reg .s0⟩ : Rethook.Rv64.PtRegs)) = fun pc => ⟨pc, s'.reg .s0⟩ := by
  rw [h .s0 List.mem_cons_self]

def Rv64.shown (trampoline : UInt64) : Shown Rv64.archRethookTrampoline
    (Rethook.Rv64.arch trampoline) [.s0] (fun s => s.reg .s0) where
  regsAt s pc := ⟨pc, s.reg .s0⟩
  returnsTo _ _ := rfl
  callbackFrame _ _ := rfl
  fixupReturn _ _ _ := rfl
  regsAt_congr := Rv64.regs_congr

def LoongArch64.shown (trampoline : UInt64) : Shown LoongArch64.archRethookTrampoline
    (Rethook.LoongArch64.arch trampoline) [] (fun _ => 0) where
  regsAt _ pc := ⟨pc⟩
  returnsTo _ _ := rfl
  callbackFrame _ _ := rfl
  fixupReturn _ _ _ := rfl
  regsAt_congr _ _ _ _ := rfl

theorem Aarch64.regs_congr (s s' : State Aarch64.Reg) (_ : s.reg .sp = s'.reg .sp)
    (h : ∀ r ∈ [Aarch64.fp], s.reg r = s'.reg r) :
    (fun pc => (⟨pc, s.reg Aarch64.fp⟩ : Rethook.Aarch64.PtRegs)) =
      fun pc => ⟨pc, s'.reg Aarch64.fp⟩ := by
  rw [h Aarch64.fp List.mem_cons_self]

def Aarch64.shown (trampoline : UInt64) : Shown Aarch64.archRethookTrampoline
    (Rethook.Aarch64.arch trampoline) [Aarch64.fp] (fun s => s.reg Aarch64.fp) where
  regsAt s pc := ⟨pc, s.reg Aarch64.fp⟩
  returnsTo _ _ := rfl
  callbackFrame _ _ := rfl
  fixupReturn _ _ _ := rfl
  regsAt_congr := Aarch64.regs_congr

theorem X86.frame_passed (rsp pc : UInt64) :
    Rethook.X86.ptRegsPointer ⟨rsp - 8, pc⟩ = rsp - X86.frameSize + X86.ptSize := by
  have hword : -X86.frameSize + X86.ptSize = -8 := by decide +kernel
  rw [Rethook.X86.ptRegsPointer_eq, UInt64.sub_eq_add_neg rsp X86.frameSize, UInt64.add_assoc,
    hword, ← UInt64.sub_eq_add_neg]

theorem X86.regs_fixed (rsp pc pc' : UInt64) :
    Rethook.X86.archRethookFixupReturn ⟨rsp - 8, pc⟩ pc' = ⟨rsp - 8, pc'⟩ := by
  unfold Rethook.X86.archRethookFixupReturn
  rw [Rethook.X86.ptRegsPointer_eq]

theorem X86.regs_congr (s s' : State X86.Reg) (h : s.reg .rsp = s'.reg .rsp) :
    (fun pc => (⟨s.reg .rsp - 8, pc⟩ : Rethook.X86.PtRegs)) = fun pc => ⟨s'.reg .rsp - 8, pc⟩ := by
  rw [h]

/-- The return address is behind the stack pointer, where `ret` has taken it from. -/
def X86.shown (flagsOf : UInt64 → UInt64 → UInt64) (trampoline : UInt64) :
    Shown (X86.archRethookTrampoline flagsOf trampoline) (Rethook.X86.arch trampoline) []
      (fun s => s.reg .rsp - X86.frameSize + X86.ptSize) where
  regsAt s pc := ⟨s.reg .rsp - 8, pc⟩
  returnsTo _ _ := rfl
  callbackFrame s pc := X86.frame_passed (s.reg .rsp) pc
  fixupReturn s pc pc' := X86.regs_fixed (s.reg .rsp) pc pc'
  regsAt_congr s s' h _ := X86.regs_congr s s' h

/-- The return trampolines keep the registers for the handlers and for the caller. -/
theorem trampolines_faithful :
    Faithful Rv64.archRethookTrampoline (fun _ => True) Rv64.ptSize (fun s => s.reg .s0) Rv64.view
      (.ra :: Rv64.general.map Prod.fst) (Rv64.general.map Prod.fst) ∧
    Faithful LoongArch64.archRethookTrampoline (fun _ => True) LoongArch64.ptSize (fun _ => 0)
      LoongArch64.view (.sp :: .ra :: LoongArch64.general.map Prod.fst)
      (LoongArch64.general.map Prod.fst) ∧
    Faithful Aarch64.archRethookTrampoline Aarch64.Valid Aarch64.ptSize
      (fun s => s.reg Aarch64.fp) Aarch64.view
      (.nzcv :: .sp :: Aarch64.lr :: Aarch64.general.map Prod.fst)
      (.nzcv :: Aarch64.general.map Prod.fst) ∧
    ∀ flagsOf trampoline, Faithful (X86.archRethookTrampoline flagsOf trampoline) (fun _ => True)
      X86.frameSize (fun s => s.reg .rsp - X86.frameSize + X86.ptSize) X86.view
      (.rsp :: .rflags :: X86.pushed) (.rflags :: X86.pushed) := by
  refine ⟨Rv64.trampoline_faithful, LoongArch64.trampoline_faithful, Aarch64.trampoline_faithful,
    ?_⟩
  intro flagsOf trampoline
  exact X86.trampoline_faithful flagsOf trampoline

/-- The return trampolines do what the machine of return probes takes an architecture to do. -/
theorem trampolines_simulate (trampoline : UInt64) :
    Simulates Rv64.archRethookTrampoline (fun _ => True) Rv64.ptSize Rv64.view [.s0]
      (Rv64.shown trampoline) ∧
    Simulates LoongArch64.archRethookTrampoline (fun _ => True) LoongArch64.ptSize
      LoongArch64.view [] (LoongArch64.shown trampoline) ∧
    Simulates Aarch64.archRethookTrampoline Aarch64.Valid Aarch64.ptSize Aarch64.view
      [Aarch64.fp] (Aarch64.shown trampoline) ∧
    ∀ flagsOf, Simulates (X86.archRethookTrampoline flagsOf trampoline) (fun _ => True)
      X86.frameSize X86.view [] (X86.shown flagsOf trampoline) := by
  refine ⟨?_, ?_, ?_, ?_⟩
  · exact Rv64.trampoline_faithful.simulates (by decide) _
  · exact LoongArch64.trampoline_faithful.simulates (by decide) _
  · exact Aarch64.trampoline_faithful.simulates (by decide) _
  · intro flagsOf
    exact (X86.trampoline_faithful flagsOf trampoline).simulates (fun _ h => absurd h List.not_mem_nil) _

end Trampoline

end ExtKtrace.Kprobe
