import ExtKtrace.Lib.Spill

/-!
# Return trampolines

The instructions of `arch_rethook_trampoline` on riscv64, loongarch64 and aarch64. A probed
function returns to them. They save the registers as a `PtRegs` on the stack, call the callback with
its address, load the registers again and go on where the callback says.
-/

namespace ExtKtrace.Kprobe
set_option autoImplicit false

open Spill

/-- `rethook_trampoline_handler` with the address of `PtRegs` and the frame: what it makes of the
memory, and the return address that was kept; `none` for a panic. -/
abbrev Handler := UInt64 → UInt64 → Words → Option (Words × UInt64)

/-- The instructions before the call, `arch_rethook_trampoline_callback`, and the instructions
behind the call with the address they go on at. -/
structure Trampoline (R : Type) where
  sp : R
  argument : R
  result : R
  before : State R → State R
  callback : Handler → UInt64 → Words → Option (Words × UInt64)
  after : State R → State R × UInt64

namespace Trampoline
variable {R : Type} [DecidableEq R]

/-- The callback gives the stack pointer back; what it leaves in the other registers is anything. -/
def called (T : Trampoline R) (handler : Handler) (left : R → UInt64) (b : State R) :
    Option (State R) := do
  let answer ← T.callback handler (b.reg T.argument) b.mem
  return (State.mk left answer.1).set T.sp (b.reg T.sp) |>.set T.result answer.2

def run (T : Trampoline R) (handler : Handler) (left : R → UInt64) (s : State R) :
    Option (State R × UInt64) := do
  let c ← T.called handler left (T.before s)
  return T.after c

theorem run_eq (T : Trampoline R) {handler : Handler} {p : UInt64} {answer : Words × UInt64}
    {s : State R}
    (hcall : T.callback handler ((T.before s).reg T.argument) (T.before s).mem = some answer)
    (hsp : (T.before s).reg T.sp = p) (left : R → UInt64) :
    T.run handler left s =
      some (T.after (((State.mk left answer.1).set T.sp p).set T.result answer.2)) := by
  unfold run called
  rw [hcall, hsp]
  rfl

theorem run_eq_none (T : Trampoline R) {handler : Handler} {s : State R}
    (hcall : T.callback handler ((T.before s).reg T.argument) (T.before s).mem = none)
    (left : R → UInt64) : T.run handler left s = none := by
  unfold run called
  rw [hcall]
  rfl

/-- What a trampoline is for. `size` is what it takes of the stack, and `view` what the `PtRegs` at
an address says of a register. -/
structure Faithful (T : Trampoline R) (valid : State R → Prop) (size : UInt64)
    (frameOf : State R → UInt64) (view : Words → UInt64 → R → UInt64) (seen restored : List R) :
    Prop where
  carries : ∀ (s : State R), valid s → ∃ m : Words,
    (∀ r ∈ seen, view m (s.reg T.sp - size) r = s.reg r) ∧
    (∀ a, (∀ off < size, a ≠ s.reg T.sp - size + off) → m a = s.mem a) ∧
    (∀ (handler : Handler) (left : R → UInt64),
      handler (s.reg T.sp - size) (frameOf s) m = none → T.run handler left s = none) ∧
    ∀ (handler : Handler) (left : R → UInt64) (answer : Words × UInt64),
      handler (s.reg T.sp - size) (frameOf s) m = some answer →
      ∃ final, T.run handler left s = some final ∧
        final.2 = answer.2 ∧ final.1.reg T.sp = s.reg T.sp ∧
        (∀ r ∈ restored, final.1.reg r = view answer.1 (s.reg T.sp - size) r) ∧
        ∀ a, (∀ off < size, a ≠ s.reg T.sp - size + off) → final.1.mem a = answer.1 a

/-- The trampolines that keep the return address in a register. -/
theorem faithful_of_steps {T : Trampoline R} {valid : State R → Prop} {size : UInt64}
    {frameOf : State R → UInt64} {view : Words → UInt64 → R → UInt64} {seen restored : List R}
    (hne : T.sp ≠ T.result)
    (hbefore : ∀ s, valid s → (T.before s).reg T.argument = s.reg T.sp - size ∧
      (T.before s).reg T.sp = s.reg T.sp - size ∧
      (∀ r ∈ seen, view (T.before s).mem (s.reg T.sp - size) r = s.reg r) ∧
      ∀ a, (∀ off < size, a ≠ s.reg T.sp - size + off) → (T.before s).mem a = s.mem a)
    (hcallback : ∀ s, valid s → ∀ handler : Handler,
      T.callback handler (s.reg T.sp - size) (T.before s).mem =
        handler (s.reg T.sp - size) (frameOf s) (T.before s).mem)
    (hafter : ∀ c, (T.after c).2 = c.reg T.result ∧ (T.after c).1.reg T.sp = c.reg T.sp + size ∧
      (∀ r ∈ restored, (T.after c).1.reg r = view c.mem (c.reg T.sp) r) ∧
      (T.after c).1.mem = c.mem) :
    Faithful T valid size frameOf view seen restored where
  carries s hs := by
    obtain ⟨hargument, hsp, hseen, hframe⟩ := hbefore s hs
    refine ⟨(T.before s).mem, hseen, hframe, ?_, ?_⟩
    · intro handler left hnone
      refine T.run_eq_none ?_ left
      rw [hargument, hcallback s hs, hnone]
    · intro handler left answer hanswer
      have hcall : T.callback handler ((T.before s).reg T.argument) (T.before s).mem =
          some answer := by
        rw [hargument, hcallback s hs, hanswer]
      obtain ⟨hgoes, hback, hrestored, hmem⟩ := hafter (((State.mk left answer.1).set T.sp
        (s.reg T.sp - size)).set T.result answer.2)
      rw [State.set_reg_self] at hgoes
      rw [State.set_reg_of_ne _ hne, State.set_reg_self, UInt64.sub_add_cancel] at hback
      rw [State.set_reg_of_ne _ hne, State.set_reg_self] at hrestored
      exact ⟨_, T.run_eq hcall hsp left, hgoes, hback, hrestored, fun a _ => congrFun hmem a⟩

/-- Stores and loads are at an offset from the stack pointer. -/
inductive Insn (R : Type) where
  | addi (rd rs : R) (imm : UInt64)
  | store (rs : R) (off : UInt64)
  | load (rd : R) (off : UInt64)
  | move (rd rs : R)
  | or (rd rs rt : R)
  | andi (rd rs : R) (imm : UInt64)

def Insn.exec (sp : R) (s : State R) : Insn R → State R
  | addi rd rs imm => s.set rd (s.reg rs + imm)
  | store rs off => s.write (s.reg sp + off) (s.reg rs)
  | load rd off => s.set rd (s.mem (s.reg sp + off))
  | move rd rs => s.set rd (s.reg rs)
  | or rd rs rt => s.set rd (s.reg rs ||| s.reg rt)
  | andi rd rs imm => s.set rd (s.reg rs &&& imm)

def execAll (sp : R) (l : List (Insn R)) (s : State R) : State R := l.foldl (Insn.exec sp) s

theorem execAll_append (sp : R) (l l' : List (Insn R)) (s : State R) :
    execAll sp (l ++ l') s = execAll sp l' (execAll sp l s) := List.foldl_append ..

theorem execAll_cons (sp : R) (i : Insn R) (l : List (Insn R)) (s : State R) :
    execAll sp (i :: l) s = execAll sp l (i.exec sp s) := rfl

def stores (l : List (R × UInt64)) : List (Insn R) := l.map fun e => .store e.1 e.2

def loads (l : List (R × UInt64)) : List (Insn R) := l.map fun e => .load e.1 e.2

theorem execAll_stores (sp : R) (l : List (R × UInt64)) (s : State R) :
    execAll sp (stores l) s = s.spill (s.reg sp) l := by
  induction l generalizing s with
  | nil => rfl
  | cons e l ih => exact ih (s.write (s.reg sp + e.2) (s.reg e.1))

theorem execAll_loads (sp : R) (l : List (R × UInt64)) (s : State R) (hsp : sp ∉ l.map Prod.fst) :
    execAll sp (loads l) s = s.fill (s.reg sp) l := by
  induction l generalizing s with
  | nil => rfl
  | cons e l ih =>
    rw [List.map_cons, List.mem_cons, not_or] at hsp
    have hkeep : (s.set e.1 (s.mem (s.reg sp + e.2))).reg sp = s.reg sp := s.set_reg_of_ne hsp.1 _
    have hnext := ih (s.set e.1 (s.mem (s.reg sp + e.2))) hsp.2
    rw [hkeep] at hnext
    exact hnext

/-- Room on the stack, and registers saved in it. -/
theorem execAll_prologue (sp : R) (size : UInt64) (l : List (R × UInt64)) (s : State R) :
    execAll sp (.addi sp sp (-size) :: stores l) s =
      (s.set sp (s.reg sp - size)).spill (s.reg sp - size) l := by
  rw [execAll_cons, execAll_stores]
  unfold Insn.exec
  dsimp only
  rw [State.set_reg_self, ← UInt64.sub_eq_add_neg]

/-- Registers loaded from the stack, and the room given back. -/
theorem execAll_epilogue (sp : R) (size : UInt64) (l : List (R × UInt64)) (s : State R)
    (hsp : sp ∉ l.map Prod.fst) :
    execAll sp (loads l ++ [.addi sp sp size]) s =
      (s.fill (s.reg sp) l).set sp (s.reg sp + size) := by
  rw [execAll_append, execAll_loads sp l s hsp, execAll_cons]
  unfold Insn.exec
  dsimp only
  rw [State.fill_reg_other _ _ _ hsp]
  rfl

/-- The callback's answer becomes the return address, the registers are loaded, and the trampoline
returns. -/
def leave (sp link result : R) (size : UInt64) (l : List (R × UInt64)) (s : State R) :
    State R × UInt64 :=
  let s := execAll sp (.move link result :: (loads l ++ [.addi sp sp size])) s
  (s, s.reg link)

/-- Registers and the offsets they are saved at, in a `PtRegs` whose field for a register is at
`fieldOf`. -/
structure SavedFrame {R : Type} (sp : R) (size : UInt64) (fieldOf : R → UInt64) (l : List (R × UInt64)) :
    Prop where
  fields : ∀ e ∈ l, e.2 = fieldOf e.1
  fieldsApart : (l.map Prod.snd).Nodup
  regsApart : (l.map Prod.fst).Nodup
  inFrame : ∀ e ∈ l, e.2 < size
  noSp : sp ∉ l.map Prod.fst

theorem SavedFrame.ne_sp {R : Type} {sp : R} {size : UInt64} {fieldOf : R → UInt64}
    {l : List (R × UInt64)} (h : SavedFrame sp size fieldOf l) {r : R} (hr : r ∈ l.map Prod.fst) :
    r ≠ sp := by
  rintro rfl
  exact h.noSp hr

namespace SavedFrame
variable {sp : R} {size : UInt64} {fieldOf : R → UInt64} {l : List (R × UInt64)}

theorem spilled (h : SavedFrame sp size fieldOf l) (p : UInt64) (s : State R) {r : R}
    (hr : r ∈ l.map Prod.fst) : ((s.set sp p).spill p l).mem (p + fieldOf r) = s.reg r := by
  obtain ⟨e, he, rfl⟩ := List.mem_map.mp hr
  have hne : e.1 ≠ sp := fun heq => h.noSp (heq ▸ List.mem_map_of_mem he)
  rw [← h.fields e he, State.spill_mem _ _ _ h.fieldsApart he, State.set_reg_of_ne _ hne]

theorem outside (h : SavedFrame sp size fieldOf l) (p : UInt64) (s : State R) {a : UInt64}
    (ha : ∀ off < size, a ≠ p + off) : ((s.set sp p).spill p l).mem a = s.mem a := by
  rw [State.spill_mem_other, State.mem_set]
  exact fun e he => ha e.2 (h.inFrame e he)

theorem filled (h : SavedFrame sp size fieldOf l) (p : UInt64) (s : State R) {r : R}
    (hr : r ∈ l.map Prod.fst) : (s.fill p l).reg r = s.mem (p + fieldOf r) := by
  obtain ⟨e, he, rfl⟩ := List.mem_map.mp hr
  rw [State.fill_reg _ _ _ h.regsApart he, h.fields e he]

/-- The end of a trampoline: the registers are loaded and the room is given back. -/
theorem loaded (h : SavedFrame sp size fieldOf l) (c : State R) :
    (execAll sp (loads l ++ [.addi sp sp size]) c).reg sp = c.reg sp + size ∧
      (∀ r ∈ l.map Prod.fst, (execAll sp (loads l ++ [.addi sp sp size]) c).reg r =
        c.mem (c.reg sp + fieldOf r)) ∧
      (∀ r, r ∉ l.map Prod.fst → r ≠ sp →
        (execAll sp (loads l ++ [.addi sp sp size]) c).reg r = c.reg r) ∧
      (execAll sp (loads l ++ [.addi sp sp size]) c).mem = c.mem := by
  rw [execAll_epilogue sp size l c h.noSp]
  refine ⟨State.set_reg_self .., ?_, ?_, ?_⟩
  · intro r hr
    rw [State.set_reg_of_ne _ (h.ne_sp hr), h.filled _ _ hr]
  · intro r hr hne
    rw [State.set_reg_of_ne _ hne, State.fill_reg_other _ _ _ hr]
  · rw [State.mem_set, State.fill_mem]

theorem leaves (h : SavedFrame sp size fieldOf l) {link result : R} (hlink : link ≠ sp)
    (hsaved : link ∉ l.map Prod.fst) (c : State R) :
    (leave sp link result size l c).2 = c.reg result ∧
      (leave sp link result size l c).1.reg sp = c.reg sp + size ∧
      (∀ r ∈ l.map Prod.fst, (leave sp link result size l c).1.reg r =
        c.mem (c.reg sp + fieldOf r)) ∧
      (leave sp link result size l c).1.mem = c.mem := by
  have hsp : (c.set link (c.reg result)).reg sp = c.reg sp := c.set_reg_of_ne hlink.symm _
  have hcons : execAll sp (.move link result :: (loads l ++ [.addi sp sp size])) c =
      execAll sp (loads l ++ [.addi sp sp size]) (c.set link (c.reg result)) := execAll_cons ..
  obtain ⟨hback, hloaded, hkept, hmem⟩ := h.loaded (c.set link (c.reg result))
  rw [hsp] at hback hloaded
  unfold leave
  dsimp only
  rw [hcons]
  refine ⟨?_, hback, hloaded, hmem⟩
  rw [hkept link hsaved hlink, State.set_reg_self]

end SavedFrame

namespace Rv64

inductive Reg where
  | ra | sp | gp | tp | t0 | t1 | t2 | s0 | s1
  | a0 | a1 | a2 | a3 | a4 | a5 | a6 | a7
  | s2 | s3 | s4 | s5 | s6 | s7 | s8 | s9 | s10 | s11 | t3 | t4 | t5 | t6
  deriving DecidableEq

/-- The fields of `PtRegs` in their order; `none` are those that are no general register. -/
def ptRegs : List (Option Reg) := [
  none, some .ra, some .sp, some .gp, some .tp, some .t0, some .t1, some .t2, some .s0, some .s1,
  some .a0, some .a1, some .a2, some .a3, some .a4, some .a5, some .a6, some .a7, some .s2,
  some .s3, some .s4, some .s5, some .s6, some .s7, some .s8, some .s9, some .s10, some .s11,
  some .t3, some .t4, some .t5, some .t6, none, none, none, none]

def ptSize : UInt64 := 8 * ptRegs.length.toUInt64

def fieldOf (r : Reg) : UInt64 := 8 * (ptRegs.idxOf (some r)).toUInt64

/-- What is saved behind `ra`, and loaded again. -/
def general : List (Reg × UInt64) := [
  (.gp, 24), (.tp, 32), (.t0, 40), (.t1, 48), (.t2, 56), (.s0, 64), (.s1, 72),
  (.a0, 80), (.a1, 88), (.a2, 96), (.a3, 104), (.a4, 112), (.a5, 120), (.a6, 128), (.a7, 136),
  (.s2, 144), (.s3, 152), (.s4, 160), (.s5, 168), (.s6, 176), (.s7, 184), (.s8, 192), (.s9, 200),
  (.s10, 208), (.s11, 216), (.t3, 224), (.t4, 232), (.t5, 240), (.t6, 248)]

def archRethookTrampoline : Trampoline Reg where
  sp := .sp
  argument := .a0
  result := .a0
  before := execAll .sp
    (.addi .sp .sp (-ptSize) :: stores ((.ra, 8) :: general) ++ [.move .a0 .sp])
  callback handler p m := handler p (m (p + fieldOf .s0)) m
  after := leave .sp .ra .a0 ptSize general

theorem saved : SavedFrame .sp ptSize fieldOf ((.ra, 8) :: general) where
  fields := by decide +kernel
  fieldsApart := by decide +kernel
  regsApart := by decide +kernel
  inFrame := by decide +kernel
  noSp := by decide

theorem saved_general : SavedFrame .sp ptSize fieldOf general where
  fields e he := saved.fields e (List.mem_cons_of_mem _ he)
  fieldsApart := (List.nodup_cons.mp saved.fieldsApart).2
  regsApart := (List.nodup_cons.mp saved.regsApart).2
  inFrame e he := saved.inFrame e (List.mem_cons_of_mem _ he)
  noSp h := saved.noSp (List.mem_cons_of_mem _ h)

/-- `PtRegs` says of a register what is in its field. -/
def view (m : Words) (p : UInt64) (r : Reg) : UInt64 := m (p + fieldOf r)

theorem before_eq (s : State Reg) : archRethookTrampoline.before s =
    ((s.set .sp (s.reg .sp - ptSize)).spill (s.reg .sp - ptSize) ((.ra, 8) :: general)).set .a0
      (s.reg .sp - ptSize) := by
  unfold archRethookTrampoline
  dsimp only
  rw [execAll_append, execAll_prologue, execAll_cons]
  unfold Insn.exec
  dsimp only
  rw [State.spill_reg, State.set_reg_self]
  rfl

theorem trampoline_sp : archRethookTrampoline.sp = .sp := rfl

theorem trampoline_faithful : Faithful archRethookTrampoline (fun _ => True) ptSize
    (fun s => s.reg .s0) view (((Reg.ra, 8) :: general).map Prod.fst) (general.map Prod.fst) := by
  have hseen : ∀ s : State Reg, ∀ r ∈ ((Reg.ra, 8) :: general).map Prod.fst,
      view (archRethookTrampoline.before s).mem (s.reg .sp - ptSize) r = s.reg r := by
    intro s r hr
    unfold view
    rw [before_eq, State.mem_set, saved.spilled _ _ hr]
  apply faithful_of_steps
  · decide
  · intro s _
    rw [trampoline_sp]
    refine ⟨?_, ?_, hseen s, ?_⟩
    · rw [before_eq]
      exact State.set_reg_self ..
    · rw [before_eq, State.set_reg_of_ne _ (by decide), State.spill_reg, State.set_reg_self]
    · intro a ha
      rw [before_eq, State.mem_set]
      exact saved.outside _ s ha
  · intro s _ handler
    have hs0 := hseen s .s0 (by decide)
    unfold view at hs0
    show handler _ (_ : UInt64) _ = _
    rw [← hs0]
    rfl
  · exact saved_general.leaves (by decide) (by decide)

end Rv64

namespace LoongArch64

inductive Reg where
  | ra | tp | sp
  | a0 | a1 | a2 | a3 | a4 | a5 | a6 | a7
  | t0 | t1 | t2 | t3 | t4 | t5 | t6 | t7 | t8 | r21 | fp
  | s0 | s1 | s2 | s3 | s4 | s5 | s6 | s7 | s8
  deriving DecidableEq

/-- The general registers by number, from the second on. -/
def numbered : List Reg := [
  .ra, .tp, .sp, .a0, .a1, .a2, .a3, .a4, .a5, .a6, .a7, .t0, .t1, .t2, .t3, .t4, .t5, .t6, .t7,
  .t8, .r21, .fp, .s0, .s1, .s2, .s3, .s4, .s5, .s6, .s7, .s8]

/-- `PtRegs` has 32 general registers and 8 words behind them. -/
def ptSize : UInt64 := 8 * (32 + 8)

def fieldOf (r : Reg) : UInt64 := 8 * (numbered.idxOf r + 1).toUInt64

def general : List (Reg × UInt64) := [
  (.tp, 2 * 8), (.a0, 4 * 8), (.a1, 5 * 8), (.a2, 6 * 8), (.a3, 7 * 8), (.a4, 8 * 8),
  (.a5, 9 * 8), (.a6, 10 * 8), (.a7, 11 * 8), (.t0, 12 * 8), (.t1, 13 * 8), (.t2, 14 * 8),
  (.t3, 15 * 8), (.t4, 16 * 8), (.t5, 17 * 8), (.t6, 18 * 8), (.t7, 19 * 8), (.t8, 20 * 8),
  (.r21, 21 * 8), (.fp, 22 * 8), (.s0, 23 * 8), (.s1, 24 * 8), (.s2, 25 * 8), (.s3, 26 * 8),
  (.s4, 27 * 8), (.s5, 28 * 8), (.s6, 29 * 8), (.s7, 30 * 8), (.s8, 31 * 8)]

def archRethookTrampoline : Trampoline Reg where
  sp := .sp
  argument := .a0
  result := .a0
  before := execAll .sp
    (.addi .sp .sp (-ptSize) :: stores ((.ra, 1 * 8) :: general) ++
      [.addi .t0 .sp ptSize, .store .t0 (3 * 8), .move .a0 .sp])
  callback handler p m := handler p 0 m
  after := leave .sp .ra .a0 ptSize general

theorem saved : SavedFrame .sp ptSize fieldOf ((.ra, 1 * 8) :: general) where
  fields := by decide +kernel
  fieldsApart := by decide +kernel
  regsApart := by decide +kernel
  inFrame := by decide +kernel
  noSp := by decide

theorem saved_general : SavedFrame .sp ptSize fieldOf general where
  fields e he := saved.fields e (List.mem_cons_of_mem _ he)
  fieldsApart := (List.nodup_cons.mp saved.fieldsApart).2
  regsApart := (List.nodup_cons.mp saved.regsApart).2
  inFrame e he := saved.inFrame e (List.mem_cons_of_mem _ he)
  noSp h := saved.noSp (List.mem_cons_of_mem _ h)

def view (m : Words) (p : UInt64) (r : Reg) : UInt64 := m (p + fieldOf r)

/-- The stack pointer of the function is saved last. -/
theorem before_eq (s : State Reg) : archRethookTrampoline.before s =
    ((((s.set .sp (s.reg .sp - ptSize)).spill (s.reg .sp - ptSize)
      ((.ra, 1 * 8) :: general)).set .t0 (s.reg .sp)).write
        (s.reg .sp - ptSize + 3 * 8) (s.reg .sp)).set .a0 (s.reg .sp - ptSize) := by
  have hsp : (((s.set .sp (s.reg .sp - ptSize)).spill (s.reg .sp - ptSize)
      ((.ra, 1 * 8) :: general)).reg .sp) = s.reg .sp - ptSize := by
    rw [State.spill_reg, State.set_reg_self]
  unfold archRethookTrampoline
  dsimp only
  rw [execAll_append, execAll_prologue, execAll_cons, execAll_cons, execAll_cons]
  unfold Insn.exec
  dsimp only
  rw [hsp, UInt64.sub_add_cancel]
  rw [State.reg_write, State.set_reg_of_ne _ (by decide), hsp, State.set_reg_self]
  rfl

theorem trampoline_sp : archRethookTrampoline.sp = .sp := rfl

theorem trampoline_faithful : Faithful archRethookTrampoline (fun _ => True) ptSize (fun _ => 0)
    view (.sp :: ((Reg.ra, 1 * 8) :: general).map Prod.fst) (general.map Prod.fst) := by
  apply faithful_of_steps
  · decide
  · intro s _
    rw [trampoline_sp]
    refine ⟨?_, ?_, ?_, ?_⟩
    · rw [before_eq]
      exact State.set_reg_self ..
    · rw [before_eq, State.set_reg_of_ne _ (by decide), State.reg_write,
        State.set_reg_of_ne _ (by decide), State.spill_reg, State.set_reg_self]
    · intro r hr
      unfold view
      rw [before_eq, State.mem_set]
      rcases List.mem_cons.mp hr with rfl | hr
      · exact State.write_mem_self ..
      · have hfield : fieldOf r ≠ 3 * 8 := by
          have hall : ∀ r ∈ ((Reg.ra, 1 * 8) :: general).map Prod.fst, fieldOf r ≠ 3 * 8 := by
            decide +kernel
          exact hall r hr
        rw [State.write_mem_of_ne _ (fun heq => hfield ((UInt64.add_right_inj _).mp heq)),
          State.mem_set]
        exact saved.spilled _ s hr
    · intro a ha
      rw [before_eq, State.mem_set, State.write_mem_of_ne _ (ha (3 * 8) (by decide)),
        State.mem_set]
      exact saved.outside _ s ha
  · exact fun _ _ _ => rfl
  · exact saved_general.leaves (by decide) (by decide)

end LoongArch64

namespace Aarch64

inductive Reg where
  | x (n : Fin 31)
  | sp
  | xzr
  | nzcv
  | daif
  | currentEL
  | spSel
  deriving DecidableEq

def fp : Reg := .x 29

def lr : Reg := .x 30

/-- `PtRegs`: 31 general registers, `sp`, `pc`, `pstate`, `orig_x0`, and two halves of a word. -/
def ptSize : UInt64 := 8 * (31 + 4 + 1)

def sPstate : UInt64 := 33 * 8

def fpOffset : UInt64 := 29 * 8

def mFlags : UInt64 := 0x10000000 ||| 0x20000000 ||| 0x40000000 ||| 0x80000000

def fieldOf : Reg → UInt64
  | .x n => 8 * n.val.toUInt64
  | .sp => 31 * 8
  | _ => sPstate

/-- The operands of the `stp` and `ldp`, with the offset of the first. -/
def pairs : List (Fin 31 × Fin 31 × UInt64) := [
  (0, 1, 0), (2, 3, 2 * 8), (4, 5, 4 * 8), (6, 7, 6 * 8), (8, 9, 8 * 8), (10, 11, 10 * 8),
  (12, 13, 12 * 8), (14, 15, 14 * 8), (16, 17, 16 * 8), (18, 19, 18 * 8), (20, 21, 20 * 8),
  (22, 23, 22 * 8), (24, 25, 24 * 8), (26, 27, 26 * 8), (28, 29, 28 * 8)]

def general : List (Reg × UInt64) :=
  pairs.flatMap fun e => [(.x e.1, e.2.2), (.x e.2.1, e.2.2 + 8)]

def pstate : List (Insn Reg) := [
  .move (.x 0) .nzcv, .move (.x 1) .daif, .or (.x 0) (.x 0) (.x 1),
  .move (.x 1) .currentEL, .or (.x 0) (.x 0) (.x 1),
  .move (.x 1) .spSel, .or (.x 0) (.x 0) (.x 1)]

def restore (s : State Reg) : State Reg × UInt64 :=
  let s := execAll .sp
    [.move lr (.x 0), .load (.x 0) sPstate, .andi (.x 0) (.x 0) mFlags, .move .nzcv (.x 0)] s
  let s := execAll .sp (loads general ++ [.addi .sp .sp ptSize]) s
  (s, s.reg lr)

def archRethookTrampoline : Trampoline Reg where
  sp := .sp
  argument := .x 0
  result := .x 0
  before := execAll .sp
    (.addi .sp .sp (-ptSize) :: stores general ++
      ([.addi (.x 0) .sp ptSize, .store lr (30 * 8), .store (.x 0) (30 * 8 + 8)] ++ pstate ++
        [.store .xzr (32 * 8), .store (.x 0) (32 * 8 + 8), .addi fp .sp fpOffset,
          .move (.x 0) .sp]))
  callback handler p m := handler p (m (p + fieldOf fp)) m
  after := restore

/-- The condition flags have bits of their own in the processor state. -/
structure Valid (s : State Reg) : Prop where
  nzcv : s.reg .nzcv &&& mFlags = s.reg .nzcv
  daif : s.reg .daif &&& mFlags = 0
  currentEL : s.reg .currentEL &&& mFlags = 0
  spSel : s.reg .spSel &&& mFlags = 0

/-- The flags are in the processor state with others. -/
def view (m : Words) (p : UInt64) : Reg → UInt64
  | .nzcv => m (p + sPstate) &&& mFlags
  | r => m (p + fieldOf r)

theorem saved : SavedFrame .sp ptSize fieldOf general where
  fields := by decide +kernel
  fieldsApart := by decide +kernel
  regsApart := by decide +kernel
  inFrame := by decide +kernel
  noSp := by decide

theorem before_eq (s : State Reg) :
    let p := s.reg .sp - ptSize
    let state := s.reg .nzcv ||| s.reg .daif ||| s.reg .currentEL ||| s.reg .spSel
    (archRethookTrampoline.before s).reg (.x 0) = p ∧
      (archRethookTrampoline.before s).reg .sp = p ∧
      (archRethookTrampoline.before s).mem =
        ((((((s.set .sp p).spill p general).write (p + 30 * 8) (s.reg lr)).write
          (p + (30 * 8 + 8)) (s.reg .sp)).write (p + 32 * 8) (s.reg .xzr)).write
            (p + (32 * 8 + 8)) state).mem := by
  intro p state
  have hsp : ((s.set .sp p).spill p general).reg .sp = p := by
    rw [State.spill_reg, State.set_reg_self]
  have hother : ∀ r, r ≠ .sp → ((s.set .sp p).spill p general).reg r = s.reg r := by
    intro r hr
    rw [State.spill_reg, State.set_reg_of_ne _ hr]
  have hbefore : archRethookTrampoline.before s = execAll .sp
      ([.addi (.x 0) .sp ptSize, .store lr (30 * 8), .store (.x 0) (30 * 8 + 8)] ++ pstate ++
        [.store .xzr (32 * 8), .store (.x 0) (32 * 8 + 8), .addi fp .sp fpOffset,
          .move (.x 0) .sp]) ((s.set .sp p).spill p general) := by
    unfold archRethookTrampoline
    dsimp only
    rw [execAll_append, execAll_prologue]
  rw [hbefore]
  generalize (s.set .sp p).spill p general = b at hsp hother ⊢
  unfold execAll pstate lr fp
  simp (disch := decide) only [List.cons_append, List.nil_append, List.foldl, Insn.exec,
    State.set_reg_self, State.set_reg_of_ne, State.reg_write, State.mem_set, hsp, hother]
  have hback : p + ptSize = s.reg .sp := UInt64.sub_add_cancel ..
  rw [hback]
  exact ⟨trivial, trivial, rfl⟩

theorem trampoline_sp : archRethookTrampoline.sp = .sp := rfl

theorem or_and (a b m : UInt64) : (a ||| b) &&& m = a &&& m ||| b &&& m :=
  UInt64.eq_of_toBitVec_eq BitVec.and_or_distrib_right

theorem flags_of_state {s : State Reg} (hs : Valid s) :
    (s.reg .nzcv ||| s.reg .daif ||| s.reg .currentEL ||| s.reg .spSel) &&& mFlags =
      s.reg .nzcv := by
  rw [or_and, or_and, or_and, hs.nzcv, hs.daif, hs.currentEL, hs.spSel, UInt64.or_zero,
    UInt64.or_zero, UInt64.or_zero]

theorem view_general {r : Reg} (h : r ≠ .nzcv) {m : Words} {p : UInt64} :
    view m p r = m (p + fieldOf r) := by
  cases r with
  | nzcv => exact absurd rfl h
  | _ => rfl

/-- What `PtRegs` says of the registers before the handlers. -/
theorem seen_before {s : State Reg} (hs : Valid s) (r : Reg)
    (hr : r ∈ .nzcv :: .sp :: lr :: general.map Prod.fst) :
    view (archRethookTrampoline.before s).mem (s.reg .sp - ptSize) r = s.reg r := by
  obtain ⟨-, -, hmem⟩ := before_eq s
  have hne : ∀ off off' : UInt64, off ≠ off' →
      s.reg .sp - ptSize + off ≠ s.reg .sp - ptSize + off' :=
    fun off off' h heq => h ((UInt64.add_right_inj _).mp heq)
  have hfields : ∀ r ∈ general.map Prod.fst, fieldOf r ≠ 32 * 8 + 8 ∧ fieldOf r ≠ 32 * 8 ∧
      fieldOf r ≠ 30 * 8 + 8 ∧ fieldOf r ≠ 30 * 8 := by
    decide +kernel
  rw [hmem]
  rcases List.mem_cons.mp hr with rfl | hr
  · exact (congrArg (· &&& mFlags) (State.write_mem_self ..)).trans (flags_of_state hs)
  have hflags : ∀ r ∈ .sp :: lr :: general.map Prod.fst, r ≠ .nzcv := by decide
  rw [view_general (hflags r hr)]
  rcases List.mem_cons.mp hr with rfl | hr
  · rw [State.write_mem_of_ne _ (hne _ _ (by decide)),
      State.write_mem_of_ne _ (hne _ _ (by decide))]
    exact State.write_mem_self ..
  rcases List.mem_cons.mp hr with rfl | hr
  · rw [State.write_mem_of_ne _ (hne _ _ (by decide)),
      State.write_mem_of_ne _ (hne _ _ (by decide)), State.write_mem_of_ne _ (hne _ _ (by decide))]
    exact State.write_mem_self ..
  obtain ⟨h1, h2, h3, h4⟩ := hfields r hr
  rw [State.write_mem_of_ne _ (hne _ _ h1), State.write_mem_of_ne _ (hne _ _ h2),
    State.write_mem_of_ne _ (hne _ _ h3), State.write_mem_of_ne _ (hne _ _ h4)]
  exact saved.spilled _ s hr

/-- The flags are loaded before the registers they are loaded with. -/
theorem flags_loaded (c : State Reg) :
    let d := execAll .sp
      [.move lr (.x 0), .load (.x 0) sPstate, .andi (.x 0) (.x 0) mFlags, .move .nzcv (.x 0)] c
    d.reg lr = c.reg (.x 0) ∧ d.reg .sp = c.reg .sp ∧ d.mem = c.mem ∧
      d.reg .nzcv = c.mem (c.reg .sp + sPstate) &&& mFlags := by
  unfold execAll lr
  simp (disch := decide) only [List.foldl, Insn.exec, State.set_reg_self, State.set_reg_of_ne,
    State.mem_set, and_self]

theorem restores (c : State Reg) : (restore c).2 = c.reg (.x 0) ∧
    (restore c).1.reg .sp = c.reg .sp + ptSize ∧
    (∀ r ∈ .nzcv :: general.map Prod.fst, (restore c).1.reg r = view c.mem (c.reg .sp) r) ∧
    (restore c).1.mem = c.mem := by
  obtain ⟨hlr, hsp, hmem, hflags⟩ := flags_loaded c
  unfold restore
  generalize execAll .sp
    [.move lr (.x 0), .load (.x 0) sPstate, .andi (.x 0) (.x 0) mFlags, .move .nzcv (.x 0)] c = d
    at hlr hsp hmem hflags ⊢
  obtain ⟨hback, hloaded, hkept, hrest⟩ := saved.loaded d
  rw [hsp, hmem] at hloaded
  rw [hsp] at hback
  refine ⟨(hkept lr (by decide) (by decide)).trans hlr, hback, ?_, hrest.trans hmem⟩
  intro r hr
  rcases List.mem_cons.mp hr with rfl | hr
  · exact (hkept .nzcv (by decide) (by decide)).trans hflags
  · have hne : ∀ r ∈ general.map Prod.fst, r ≠ .nzcv := by decide
    rw [view_general (hne r hr)]
    exact hloaded r hr

theorem trampoline_faithful : Faithful archRethookTrampoline Valid ptSize
    (fun s => s.reg fp) view (.nzcv :: .sp :: lr :: general.map Prod.fst)
    (.nzcv :: general.map Prod.fst) := by
  apply faithful_of_steps
  · decide
  · intro s hs
    rw [trampoline_sp]
    obtain ⟨hargument, hsp, hmem⟩ := before_eq s
    refine ⟨hargument, hsp, fun r hr => seen_before hs r hr, ?_⟩
    intro a ha
    rw [hmem, State.write_mem_of_ne _ (ha _ (by decide)), State.write_mem_of_ne _ (ha _ (by decide)),
      State.write_mem_of_ne _ (ha _ (by decide)), State.write_mem_of_ne _ (ha _ (by decide))]
    exact saved.outside _ s ha
  · intro s hs handler
    have hframe := seen_before hs fp (by decide)
    show handler _ (_ : UInt64) _ = _
    rw [← hframe]
    rfl
  · exact restores

end Aarch64

end Trampoline

end ExtKtrace.Kprobe
