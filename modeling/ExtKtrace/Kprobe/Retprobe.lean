import Mathlib.Algebra.GroupWithZero.Nat
import Mathlib.Logic.Function.Basic
import ExtKtrace.Lib.Machine

/-!
# Return probes

A kretprobe owns a pool of instances. Its pre handler takes one, keeps in it where the function
returns to and lets the function return to the trampoline. The trampoline takes the newest
instance of the task, runs the handlers of its kretprobe and goes on to the address that was kept.
-/

namespace ExtKtrace.Kprobe.Rethook
set_option autoImplicit false

structure RetprobeInstance (P : Type) where
  retAddr : UInt64
  frame : UInt64
  /-- Which clone of the user data it has; this tells the instances of a kretprobe apart. -/
  userData : Nat
  /-- The `Weak` reference, `none` being `Weak::new()`. -/
  retprobe : Option P
  deriving DecidableEq

/-- What return probes use of an architecture. The registers are those at the entry of a function
or at its return, where they are the same but for results. -/
structure Arch : Type 1 where
  PtRegs : Type
  trampoline : UInt64
  returnsTo : PtRegs → UInt64
  frameOf : PtRegs → UInt64
  prepare : ∀ {P : Type}, RetprobeInstance P → PtRegs → RetprobeInstance P × PtRegs
  callbackFrame : PtRegs → UInt64
  /-- `arch_rethook_fixup_return` and the end of the trampoline. -/
  fixupReturn : PtRegs → UInt64 → PtRegs
  prepare_keeps : ∀ {P : Type} (i : RetprobeInstance P) r,
    (prepare i r).1 = { i with retAddr := returnsTo r, frame := frameOf r }
  prepare_returnsTo : ∀ {P : Type} (i : RetprobeInstance P) r,
    returnsTo (prepare i r).2 = trampoline
  prepare_frameOf : ∀ {P : Type} (i : RetprobeInstance P) r, frameOf (prepare i r).2 = frameOf r
  callbackFrame_eq : ∀ r, callbackFrame r = frameOf r
  fixupReturn_returnsTo : ∀ r a, returnsTo (fixupReturn r a) = a
  fixupReturn_frameOf : ∀ r a, frameOf (fixupReturn r a) = frameOf r

namespace Rv64

structure PtRegs where
  ra : UInt64
  s0 : UInt64
  deriving DecidableEq

def archRethookPrepare {P : Type} (trampoline : UInt64) (i : RetprobeInstance P) (r : PtRegs) :
    RetprobeInstance P × PtRegs :=
  ({ i with retAddr := r.ra, frame := r.s0 }, { r with ra := trampoline })

def leaveTrampoline (r : PtRegs) (correctRetAddr : UInt64) : PtRegs := { r with ra := correctRetAddr }

def arch (trampoline : UInt64) : Arch where
  PtRegs := PtRegs
  trampoline := trampoline
  returnsTo := PtRegs.ra
  frameOf := PtRegs.s0
  prepare := archRethookPrepare trampoline
  callbackFrame := PtRegs.s0
  fixupReturn := leaveTrampoline
  prepare_keeps _ _ := rfl
  prepare_returnsTo _ _ := rfl
  prepare_frameOf _ _ := rfl
  callbackFrame_eq _ := rfl
  fixupReturn_returnsTo _ _ := rfl
  fixupReturn_frameOf _ _ := rfl

end Rv64

namespace X86

/-- The stack pointer and the word that it points at, the return address. -/
structure PtRegs where
  rsp : UInt64
  top : UInt64
  deriving DecidableEq

def WORD : UInt64 := 8

def PT_REGS_SIZE : UInt64 := 21 * WORD

def archRethookPrepare {P : Type} (trampoline : UInt64) (i : RetprobeInstance P) (r : PtRegs) :
    RetprobeInstance P × PtRegs :=
  ({ i with retAddr := r.top, frame := r.rsp }, { r with top := trampoline })

/-- `ret` has taken the return address; the trampoline pushes a word in its place and the
registers below it. -/
def ptRegs (r : PtRegs) : UInt64 := r.rsp + WORD - WORD - PT_REGS_SIZE

def ptRegsPointer (r : PtRegs) : UInt64 := ptRegs r + PT_REGS_SIZE

theorem ptRegsPointer_eq (r : PtRegs) : ptRegsPointer r = r.rsp := by
  unfold ptRegsPointer ptRegs
  rw [UInt64.sub_add_cancel, UInt64.add_sub_cancel]

def archRethookFixupReturn (r : PtRegs) (correctRetAddr : UInt64) : PtRegs :=
  ⟨ptRegsPointer r, correctRetAddr⟩

def arch (trampoline : UInt64) : Arch where
  PtRegs := PtRegs
  trampoline := trampoline
  returnsTo := PtRegs.top
  frameOf := PtRegs.rsp
  prepare := archRethookPrepare trampoline
  callbackFrame := ptRegsPointer
  fixupReturn := archRethookFixupReturn
  prepare_keeps _ _ := rfl
  prepare_returnsTo _ _ := rfl
  prepare_frameOf _ _ := rfl
  callbackFrame_eq := ptRegsPointer_eq
  fixupReturn_returnsTo _ _ := rfl
  fixupReturn_frameOf r _ := ptRegsPointer_eq r

end X86

inductive Panic where
  | noInstance
  /-- `assert_eq!` of the frames. -/
  | frame
  | retprobeDropped
  /-- "Retprobe is not available in pre_handler_kretprobe" -/
  | retprobeNotAvailable
  deriving DecidableEq

/-- `RetprobeData` and the counter of misses. -/
structure Pool (P : Type) where
  /-- The last one of the `Vec` first. -/
  freeInstances : List (RetprobeInstance P)
  nmissed : UInt64
  /-- How often a pre handler has found no instance; the source does not keep this. -/
  emptied : Nat

def newPool (P : Type) (maxactive : UInt32) : Pool P where
  freeInstances := (List.range maxactive.toNat).map fun k => ⟨0, 0, k, none⟩
  nmissed := 0
  emptied := 0

section Machine
variable (A : Arch) (P : Type)

structure Activation where
  caller : UInt64
  regs : A.PtRegs
  /-- The instances that were put on the stack of the task for this call and are still there,
  the newest first; the source does not keep this. -/
  pushed : List (RetprobeInstance P)

/-- How far the breakpoint handler is: the kretprobes that it has yet to call, the one whose pre
handler it is in. -/
inductive Phase where
  | next (todo : List P)
  | popped (p : P) (inst : RetprobeInstance P) (todo : List P)
  /-- The entry handler runs, with `retprobe_data.retprobe` locked. -/
  | entry (p : P) (inst : RetprobeInstance P) (todo : List P)
  | missed (p : P) (todo : List P)
  | counting (p : P) (todo : List P)

inductive Frame where
  /-- In the breakpoint handler at the entry, with a clone of the break list. -/
  | trap (a : Activation A P) (list : List P) (phase : Phase P)
  | body (a : Activation A P)
  /-- At the return of the function, or at the end of the trampoline. -/
  | leaving (a : Activation A P)
  /-- In the trampoline, the handlers running on an instance that has been popped; `p` is the
  kretprobe that its `Weak` was upgraded to. -/
  | trampoline (a : Activation A P) (inst : RetprobeInstance P) (p : P)

/-- A task: the innermost call first, and its stack of instances, the newest first. -/
structure Task where
  control : List (Frame A P)
  instances : List (RetprobeInstance P)

end Machine

section Step
variable {A : Arch} {P : Type} [DecidableEq P] (alive : P → Bool)

/-- `free_instances.lock().pop()`, and `arch_rethook_prepare` of what is popped. -/
def takeInstance (pools : P → Pool P) (a : Activation A P) (list : List P) (p : P)
    (todo : List P) : (P → Pool P) × Frame A P :=
  match (pools p).freeInstances with
  | inst :: free =>
    let (inst, regs) := A.prepare inst a.regs
    (Function.update pools p { pools p with freeInstances := free },
      .trap { a with regs } list (.popped p inst todo))
  | [] =>
    (Function.update pools p { pools p with emptied := (pools p).emptied + 1 },
      .trap a list (.missed p todo))

/-- The breakpoint handler, a step of `pre_handler_kretprobe` at a time. -/
def preHandlerKretprobe (pools : P → Pool P) (instances : List (RetprobeInstance P))
    (a : Activation A P) (list : List P) :
    Phase P → Except Panic ((P → Pool P) × Frame A P × List (RetprobeInstance P))
  | .next [] => .ok (pools, .body a, instances)
  | .next (p :: todo) =>
    let (pools, frame) := takeInstance pools a list p todo
    .ok (pools, frame, instances)
  | .popped p inst todo =>
    if alive p then .ok (pools, .trap a list (.entry p inst todo), instances)
    else .error .retprobeDropped
  | .entry p inst todo =>
    let inst := { inst with retprobe := some p }
    .ok (pools, .trap { a with pushed := inst :: a.pushed } list (.next todo), inst :: instances)
  | .missed p todo =>
    if alive p then .ok (pools, .trap a list (.counting p todo), instances)
    else .error .retprobeNotAvailable
  | .counting p todo =>
    .ok (Function.update pools p { pools p with nmissed := (pools p).nmissed + 1 },
      .trap a list (.next todo), instances)

def popInstance (frame : UInt64) : List (RetprobeInstance P) →
    Except Panic (RetprobeInstance P × P × List (RetprobeInstance P))
  | [] => .error .noInstance
  | inst :: instances =>
    if inst.frame ≠ frame then .error .frame
    else match inst.retprobe with
      | none => .error .retprobeDropped
      | some p => if alive p then .ok (inst, p, instances) else .error .retprobeDropped

def recycle (pools : P → Pool P) (p : P) (inst : RetprobeInstance P) : P → Pool P :=
  Function.update pools p { pools p with freeInstances := inst :: (pools p).freeInstances }

def goOn (pools : P → Pool P) (t : Task A P) : Option (Except Panic ((P → Pool P) × Task A P)) :=
  match t.control with
  | [] => none
  | .trap a list phase :: rest => some do
    let (pools, frame, instances) ← preHandlerKretprobe alive pools t.instances a list phase
    return (pools, ⟨frame :: rest, instances⟩)
  | .body a :: rest => some (.ok (pools, { t with control := .leaving a :: rest }))
  | .leaving a :: rest =>
    if A.returnsTo a.regs = A.trampoline then some do
      let (inst, p, instances) ← popInstance alive (A.callbackFrame a.regs) t.instances
      return (pools, ⟨.trampoline { a with pushed := a.pushed.tail } inst p :: rest, instances⟩)
    else some (.ok (pools, { t with control := rest }))
  | .trampoline a inst p :: rest =>
    some (.ok (recycle pools p inst,
      { t with control := .leaving { a with regs := A.fixupReturn a.regs inst.retAddr } :: rest }))

end Step

/-- How far `unregister_kretprobe` is with a kretprobe. -/
inductive Stage where
  | registered
  | outOfBreakList
  | outOfDebugList
  | unregistered
  deriving DecidableEq

structure State (A : Arch) (P : Type) where
  pools : P → Pool P
  stage : P → Stage
  /-- The clones of the handle that callers have besides the one for `unregister_kretprobe`. -/
  clones : P → Nat
  tasks : List (Task A P)

structure System (P : Type) where
  maxactive : P → UInt32
  probes : UInt64 → List P

section Runs
variable {A : Arch} {P : Type} [DecidableEq P]

def Frame.holds (p : P) : Frame A P → Bool
  | .trap _ list _ => list.contains p
  | .trampoline _ _ q => q = p
  | _ => false

/-- The guard of `retprobe_data.retprobe.lock()`: the second `let` shadows it, so that it lives to
the end of the block. -/
def Frame.guards (p : P) : Frame A P → Bool
  | .trap _ _ (.entry q _ _) => q = p
  | .trap _ _ (.counting q _) => q = p
  | _ => false

def Task.waitsFor (t : Task A P) : Option P :=
  match t.control with
  | .trap _ _ (.popped p _ _) :: _ => some p
  | .trap _ _ (.missed p _) :: _ => some p
  | _ => none

def State.locked (s : State A P) (p : P) : Bool :=
  s.tasks.any fun t => t.control.any fun f => f.guards p

def State.alive (s : State A P) (p : P) : Bool :=
  s.stage p ≠ .unregistered || 0 < s.clones p ||
    s.tasks.any fun t => t.control.any fun f => f.holds p

inductive Event (P : Type) where
  | task
  | unregister (p : P)
  | clone (p : P)
  | drop (p : P)

/-- A step, or the panic that it ends in. A function may be called at any moment, also by a
handler or an interrupt; its return address is not the trampoline. A pre handler goes on into its
critical section once the lock is free. -/
inductive Step (sys : System P) (s : State A P) : Event P → Except Panic (State A P) → Prop
  | call (pre post : List (Task A P)) (t : Task A P) (f : UInt64) (regs : A.PtRegs)
      (hits : List P) (htasks : s.tasks = pre ++ t :: post)
      (hcaller : A.returnsTo regs ≠ A.trampoline)
      (hhits : hits.Sublist ((sys.probes f).filter fun p => s.stage p = .registered)) :
      Step sys s .task (.ok { s with
        tasks := pre ++ ⟨.trap ⟨A.returnsTo regs, regs, []⟩
          ((sys.probes f).filter fun p => s.stage p = .registered) (.next hits) :: t.control,
          t.instances⟩ :: post })
  | goOn (pre post : List (Task A P)) (t : Task A P) (r : Except Panic ((P → Pool P) × Task A P))
      (htasks : s.tasks = pre ++ t :: post) (hrun : goOn s.alive s.pools t = some r)
      (hlock : ∀ p, t.waitsFor = some p → s.locked p = false) :
      Step sys s .task (r.map fun res =>
        { s with pools := res.1, tasks := pre ++ res.2 :: post })
  | unlinkBreak (p : P) (h : s.stage p = .registered) :
      Step sys s (.unregister p) (.ok { s with
        stage := Function.update s.stage p .outOfBreakList })
  | unlinkDebug (p : P) (h : s.stage p = .outOfBreakList) :
      Step sys s (.unregister p) (.ok { s with
        stage := Function.update s.stage p .outOfDebugList })
  | dropHandle (p : P) (h : s.stage p = .outOfDebugList) :
      Step sys s (.unregister p) (.ok { s with
        stage := Function.update s.stage p .unregistered })
  | clone (p : P) (h : s.stage p = .registered ∨ 0 < s.clones p) :
      Step sys s (.clone p) (.ok { s with
        clones := Function.update s.clones p (s.clones p + 1) })
  | drop (p : P) (h : 0 < s.clones p) :
      Step sys s (.drop p) (.ok { s with
        clones := Function.update s.clones p (s.clones p - 1) })

/-- Kretprobes that have just been registered, and tasks that are in no probed function. -/
structure Init (sys : System P) (s : State A P) : Prop where
  pools : ∀ p, s.pools p = newPool P (sys.maxactive p)
  stage : ∀ p, s.stage p = .registered
  tasks : ∀ t ∈ s.tasks, t = ⟨[], []⟩

end Runs

end ExtKtrace.Kprobe.Rethook
