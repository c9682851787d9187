import Mathlib.Data.List.Perm.Basic
import ExtKtrace.Kprobe.Retprobe

/-!
# The stack of return probe instances

The instances of a task are those of its calls, the innermost first, and those of one call lead
from where the function returns to back to where it was called from.
-/

namespace ExtKtrace.Kprobe.Rethook
set_option autoImplicit false

variable {A : Arch} {P : Type}

/-- Where a return ends up: it goes through the trampoline as long as that is the address, which
takes the next instance. -/
def follow (A : Arch) : List (RetprobeInstance P) → UInt64 → UInt64
  | [], r => r
  | i :: rest, r => if r = A.trampoline then follow A rest i.retAddr else r

/-- The instances of a call lead from the address `r` to the caller, each with the frame. -/
def Unwinds (A : Arch) (caller frame : UInt64) : List (RetprobeInstance P) → UInt64 → Prop
  | [], r => r = caller
  | i :: rest, r => r = A.trampoline ∧ i.frame = frame ∧ i.retprobe.isSome ∧
      Unwinds A caller frame rest i.retAddr

theorem follow_of_unwinds {caller frame : UInt64} {l : List (RetprobeInstance P)} {r : UInt64}
    (h : Unwinds A caller frame l r) : follow A l r = caller := by
  induction l generalizing r with
  | nil => exact h
  | cons i rest ih =>
    obtain ⟨hr, _, _, hrest⟩ := h
    unfold follow
    rw [if_pos hr]
    exact ih hrest

theorem unwinds_caller {caller frame : UInt64} (hcaller : caller ≠ A.trampoline)
    {l : List (RetprobeInstance P)} {r : UInt64} (h : Unwinds A caller frame l r) :
    (r ≠ A.trampoline → r = caller ∧ l = []) ∧ (r = A.trampoline → ∃ i rest, l = i :: rest) := by
  cases l with
  | nil =>
    have hr : r = caller := h
    exact ⟨fun _ => ⟨hr, rfl⟩, fun htrampoline => absurd (hr.symm.trans htrampoline) hcaller⟩
  | cons i rest => exact ⟨fun hne => absurd h.1 hne, fun _ => ⟨i, rest, rfl⟩⟩

/-- A call whose function returns to its caller in the end. -/
structure Activation.Sound (a : Activation A P) : Prop where
  caller : a.caller ≠ A.trampoline
  unwinds : Unwinds A a.caller (A.frameOf a.regs) a.pushed (A.returnsTo a.regs)

/-- A call whose function returns to the trampoline, with an instance that is not on the stack:
it has been prepared, or it has been popped. -/
structure Activation.Holding (a : Activation A P) (inst : RetprobeInstance P) : Prop where
  caller : a.caller ≠ A.trampoline
  returnsTo : A.returnsTo a.regs = A.trampoline
  frame : inst.frame = A.frameOf a.regs
  unwinds : Unwinds A a.caller (A.frameOf a.regs) a.pushed inst.retAddr

def Frame.pushed : Frame A P → List (RetprobeInstance P)
  | .trap a _ _ => a.pushed
  | .body a => a.pushed
  | .leaving a => a.pushed
  | .trampoline a _ _ => a.pushed

/-- The kretprobes that a breakpoint handler may still touch are in its clone of the list. -/
def Phase.In (list : List P) : Phase P → Prop
  | .next todo => todo ⊆ list
  | .popped p _ todo => p ∈ list ∧ todo ⊆ list
  | .entry p _ todo => p ∈ list ∧ todo ⊆ list
  | .missed p todo => p ∈ list ∧ todo ⊆ list
  | .counting p todo => p ∈ list ∧ todo ⊆ list

def Frame.Sound : Frame A P → Prop
  | .trap a list (.next todo) => a.Sound ∧ (Phase.next todo).In list
  | .trap a list (.missed p todo) => a.Sound ∧ (Phase.missed p todo).In list
  | .trap a list (.counting p todo) => a.Sound ∧ (Phase.counting p todo).In list
  | .trap a list (.popped p inst todo) => a.Holding inst ∧ (Phase.popped p inst todo).In list
  | .trap a list (.entry p inst todo) => a.Holding inst ∧ (Phase.entry p inst todo).In list
  | .body a => a.Sound
  | .leaving a => a.Sound
  | .trampoline a inst p => a.Holding inst ∧ inst.retprobe = some p

/-- The stack of a task holds the instances of its calls, one call after another. -/
structure Task.Sound (t : Task A P) : Prop where
  frames : ∀ f ∈ t.control, f.Sound
  instances : t.instances = t.control.flatMap Frame.pushed

theorem Task.Sound.head {t : Task A P} (h : t.Sound) {f : Frame A P} {rest : List (Frame A P)}
    (hcontrol : t.control = f :: rest) :
    f.Sound ∧ (∀ g ∈ rest, g.Sound) ∧ t.instances = f.pushed ++ rest.flatMap Frame.pushed := by
  have hframes := h.frames
  have hinstances := h.instances
  rw [hcontrol] at hframes hinstances
  exact ⟨hframes f List.mem_cons_self, fun g hg => hframes g (List.mem_cons_of_mem _ hg),
    hinstances⟩

theorem Task.sound_cons {f : Frame A P} {rest : List (Frame A P)}
    {instances : List (RetprobeInstance P)} (hf : f.Sound) (hrest : ∀ g ∈ rest, g.Sound)
    (hinstances : instances = f.pushed ++ rest.flatMap Frame.pushed) :
    Task.Sound ⟨f :: rest, instances⟩ :=
  ⟨List.forall_mem_cons.mpr ⟨hf, hrest⟩, hinstances⟩

theorem prepare_holding {a : Activation A P} (h : a.Sound) (inst : RetprobeInstance P) :
    Activation.Holding { a with regs := (A.prepare inst a.regs).2 } (A.prepare inst a.regs).1 where
  caller := h.caller
  returnsTo := A.prepare_returnsTo inst a.regs
  frame := by
    rw [A.prepare_keeps]
    exact (A.prepare_frameOf inst a.regs).symm
  unwinds := by
    show Unwinds A a.caller (A.frameOf (A.prepare inst a.regs).2) a.pushed _
    rw [A.prepare_frameOf, A.prepare_keeps]
    exact h.unwinds

theorem insert_sound {a : Activation A P} {inst : RetprobeInstance P} (h : a.Holding inst) (p : P) :
    Activation.Sound { a with pushed := { inst with retprobe := some p } :: a.pushed } where
  caller := h.caller
  unwinds := ⟨h.returnsTo, h.frame, rfl, h.unwinds⟩

theorem fixupReturn_sound {a : Activation A P} {inst : RetprobeInstance P} (h : a.Holding inst) :
    Activation.Sound { a with regs := A.fixupReturn a.regs inst.retAddr } where
  caller := h.caller
  unwinds := by
    show Unwinds A a.caller (A.frameOf (A.fixupReturn a.regs inst.retAddr)) a.pushed
      (A.returnsTo (A.fixupReturn a.regs inst.retAddr))
    rw [A.fixupReturn_frameOf, A.fixupReturn_returnsTo]
    exact h.unwinds

/-- At a return to the trampoline the newest instance of the call has the frame that is asserted,
and keeps where the return goes on to. -/
theorem leaving_holding {a : Activation A P} (h : a.Sound)
    (hreturns : A.returnsTo a.regs = A.trampoline) :
    ∃ inst p pushed, a.pushed = inst :: pushed ∧ inst.retprobe = some p ∧
      Activation.Holding { a with pushed := pushed } inst := by
  obtain ⟨inst, pushed, hpushed⟩ := (unwinds_caller h.caller h.unwinds).2 hreturns
  have hunwinds := h.unwinds
  rw [hpushed] at hunwinds
  obtain ⟨_, hframe, hsome, hrest⟩ := hunwinds
  obtain ⟨p, hp⟩ := Option.isSome_iff_exists.mp hsome
  exact ⟨inst, p, pushed, hpushed, hp, h.caller, hreturns, hframe, hrest⟩

/-- What the trampoline pops is the newest instance of the call. It panics only when the
kretprobe is gone. -/
theorem popInstance_eq (alive : P → Bool) {a : Activation A P} (h : a.Sound)
    (hreturns : A.returnsTo a.regs = A.trampoline) {instances outer : List (RetprobeInstance P)}
    (hinstances : instances = a.pushed ++ outer) :
    ∃ inst p pushed, a.pushed = inst :: pushed ∧ instances = inst :: (pushed ++ outer) ∧
      inst.retprobe = some p ∧ inst.frame = A.callbackFrame a.regs ∧
      Activation.Holding { a with pushed := pushed } inst ∧
      popInstance alive (A.callbackFrame a.regs) instances =
        if alive p then .ok (inst, p, pushed ++ outer) else .error .retprobeDropped := by
  obtain ⟨inst, p, pushed, hpushed, hp, hholding⟩ := leaving_holding h hreturns
  have hframe : inst.frame = A.callbackFrame a.regs :=
    hholding.frame.trans (A.callbackFrame_eq a.regs).symm
  have hnewest : instances = inst :: (pushed ++ outer) := by
    rw [hinstances, hpushed]
    rfl
  refine ⟨inst, p, pushed, hpushed, hnewest, hp, hframe, hholding, ?_⟩
  rw [hnewest]
  simp only [popInstance, hframe, ne_eq, not_true_eq_false, if_false, hp]

theorem popInstance_ok {alive : P → Bool} {frame : UInt64}
    {instances rest : List (RetprobeInstance P)} {inst : RetprobeInstance P} {p : P}
    (h : popInstance alive frame instances = .ok (inst, p, rest)) :
    instances = inst :: rest ∧ inst.retprobe = some p := by
  cases instances with
  | nil => cases h
  | cons i instances =>
    simp only [popInstance] at h
    split at h
    · cases h
    · split at h
      · cases h
      · rename_i q hq
        split at h
        · cases h
          exact ⟨rfl, hq⟩
        · cases h

section Step
variable [DecidableEq P] {alive : P → Bool} {pools : P → Pool P}

/-- What a step of a task can be. -/
inductive Advance (alive : P → Bool) (pools : P → Pool P) :
    Task A P → Except Panic ((P → Pool P) × Task A P) → Prop
  | start (a : Activation A P) (list : List P) (rest : List (Frame A P))
      (instances : List (RetprobeInstance P)) :
      Advance alive pools ⟨.trap a list (.next []) :: rest, instances⟩
        (.ok (pools, ⟨.body a :: rest, instances⟩))
  | take (a : Activation A P) (list : List P) (p : P) (todo : List P) (rest : List (Frame A P))
      (instances : List (RetprobeInstance P)) (inst : RetprobeInstance P)
      (free : List (RetprobeInstance P)) (hfree : (pools p).freeInstances = inst :: free) :
      Advance alive pools ⟨.trap a list (.next (p :: todo)) :: rest, instances⟩
        (.ok (Function.update pools p { pools p with freeInstances := free },
          ⟨.trap { a with regs := (A.prepare inst a.regs).2 } list
            (.popped p (A.prepare inst a.regs).1 todo) :: rest, instances⟩))
  | miss (a : Activation A P) (list : List P) (p : P) (todo : List P) (rest : List (Frame A P))
      (instances : List (RetprobeInstance P)) (hfree : (pools p).freeInstances = []) :
      Advance alive pools ⟨.trap a list (.next (p :: todo)) :: rest, instances⟩
        (.ok (Function.update pools p { pools p with emptied := (pools p).emptied + 1 },
          ⟨.trap a list (.missed p todo) :: rest, instances⟩))
  | upgrade (a : Activation A P) (list : List P) (p : P) (inst : RetprobeInstance P)
      (todo : List P) (rest : List (Frame A P)) (instances : List (RetprobeInstance P)) :
      Advance alive pools ⟨.trap a list (.popped p inst todo) :: rest, instances⟩
        (if alive p then .ok (pools, ⟨.trap a list (.entry p inst todo) :: rest, instances⟩)
          else .error .retprobeDropped)
  | insert (a : Activation A P) (list : List P) (p : P) (inst : RetprobeInstance P)
      (todo : List P) (rest : List (Frame A P)) (instances : List (RetprobeInstance P)) :
      Advance alive pools ⟨.trap a list (.entry p inst todo) :: rest, instances⟩
        (.ok (pools, ⟨.trap { a with pushed := { inst with retprobe := some p } :: a.pushed } list
          (.next todo) :: rest, { inst with retprobe := some p } :: instances⟩))
  | available (a : Activation A P) (list : List P) (p : P) (todo : List P)
      (rest : List (Frame A P)) (instances : List (RetprobeInstance P)) :
      Advance alive pools ⟨.trap a list (.missed p todo) :: rest, instances⟩
        (if alive p then .ok (pools, ⟨.trap a list (.counting p todo) :: rest, instances⟩)
          else .error .retprobeNotAvailable)
  | count (a : Activation A P) (list : List P) (p : P) (todo : List P) (rest : List (Frame A P))
      (instances : List (RetprobeInstance P)) :
      Advance alive pools ⟨.trap a list (.counting p todo) :: rest, instances⟩
        (.ok (Function.update pools p { pools p with nmissed := (pools p).nmissed + 1 },
          ⟨.trap a list (.next todo) :: rest, instances⟩))
  | finish (a : Activation A P) (rest : List (Frame A P))
      (instances : List (RetprobeInstance P)) :
      Advance alive pools ⟨.body a :: rest, instances⟩
        (.ok (pools, ⟨.leaving a :: rest, instances⟩))
  | land (a : Activation A P) (rest : List (Frame A P)) (instances : List (RetprobeInstance P))
      (hreturns : A.returnsTo a.regs ≠ A.trampoline) :
      Advance alive pools ⟨.leaving a :: rest, instances⟩ (.ok (pools, ⟨rest, instances⟩))
  | pop (a : Activation A P) (rest : List (Frame A P)) (instances : List (RetprobeInstance P))
      (hreturns : A.returnsTo a.regs = A.trampoline) :
      Advance alive pools ⟨.leaving a :: rest, instances⟩
        ((popInstance alive (A.callbackFrame a.regs) instances).map fun res =>
          (pools, ⟨.trampoline { a with pushed := a.pushed.tail } res.1 res.2.1 :: rest,
            res.2.2⟩))
  | recycle (a : Activation A P) (inst : RetprobeInstance P) (p : P) (rest : List (Frame A P))
      (instances : List (RetprobeInstance P)) :
      Advance alive pools ⟨.trampoline a inst p :: rest, instances⟩
        (.ok (recycle pools p inst,
          ⟨.leaving { a with regs := A.fixupReturn a.regs inst.retAddr } :: rest, instances⟩))

theorem takeInstance_nil (a : Activation A P) (list : List P) {p : P} (todo : List P)
    (h : (pools p).freeInstances = []) :
    takeInstance pools a list p todo =
      (Function.update pools p { pools p with emptied := (pools p).emptied + 1 },
        .trap a list (.missed p todo)) := by
  unfold takeInstance
  split
  · rename_i hcons
    rw [h] at hcons
    cases hcons
  · rfl

theorem takeInstance_cons (a : Activation A P) (list : List P) {p : P} (todo : List P)
    {inst : RetprobeInstance P} {free : List (RetprobeInstance P)}
    (h : (pools p).freeInstances = inst :: free) :
    takeInstance pools a list p todo =
      (Function.update pools p { pools p with freeInstances := free },
        .trap { a with regs := (A.prepare inst a.regs).2 } list
          (.popped p (A.prepare inst a.regs).1 todo)) := by
  unfold takeInstance
  split
  · rename_i hcons
    rw [h] at hcons
    cases hcons
    rfl
  · rename_i hnil
    rw [h] at hnil
    cases hnil

theorem advance_of_goOn {t : Task A P} {r : Except Panic ((P → Pool P) × Task A P)}
    (hrun : goOn alive pools t = some r) : Advance alive pools t r := by
  obtain ⟨control, instances⟩ := t
  cases control with
  | nil => cases hrun
  | cons f rest =>
    cases f with
    | trap a list phase =>
      cases phase with
      | next todo =>
        cases todo with
        | nil =>
          cases hrun
          exact .start a list rest instances
        | cons p todo =>
          have htaken : some (Except.ok ((takeInstance pools a list p todo).1,
              (⟨(takeInstance pools a list p todo).2 :: rest, instances⟩ : Task A P))) = some r :=
            hrun
          cases hfree : (pools p).freeInstances with
          | nil =>
            rw [takeInstance_nil a list todo hfree] at htaken
            cases htaken
            exact .miss a list p todo rest instances hfree
          | cons inst free =>
            rw [takeInstance_cons a list todo hfree] at htaken
            cases htaken
            exact .take a list p todo rest instances inst free hfree
      | popped p inst todo =>
        have hupgrade : Advance alive pools _ _ := .upgrade a list p inst todo rest instances
        unfold goOn preHandlerKretprobe at hrun
        cases halive : alive p <;> simp only [halive] at hrun hupgrade <;> cases hrun <;>
          exact hupgrade
      | entry p inst todo =>
        cases hrun
        exact .insert a list p inst todo rest instances
      | missed p todo =>
        have havailable : Advance alive pools _ _ := .available a list p todo rest instances
        unfold goOn preHandlerKretprobe at hrun
        cases halive : alive p <;> simp only [halive] at hrun havailable <;> cases hrun <;>
          exact havailable
      | counting p todo =>
        cases hrun
        exact .count a list p todo rest instances
    | body a =>
      cases hrun
      exact .finish a rest instances
    | leaving a =>
      by_cases hreturns : A.returnsTo a.regs = A.trampoline
      · have hpop : Advance alive pools _ _ := .pop a rest instances hreturns
        simp only [goOn, if_pos hreturns] at hrun
        cases hres : popInstance alive (A.callbackFrame a.regs) instances <;>
          rw [hres] at hrun hpop <;> cases hrun <;> exact hpop
      · simp only [goOn, if_neg hreturns] at hrun
        cases hrun
        exact .land a rest instances hreturns
    | trampoline a inst p =>
      cases hrun
      exact .recycle a inst p rest instances

theorem advance_sound {t : Task A P} {r : Except Panic ((P → Pool P) × Task A P)}
    (hstep : Advance alive pools t r) (h : t.Sound) :
    ∀ pools' t', r = .ok (pools', t') → t'.Sound := by
  intro pools' t' hr
  cases hstep with
  | start a list rest instances =>
    obtain ⟨⟨hsound, _⟩, hrest, hinstances⟩ := h.head rfl
    cases hr
    exact Task.sound_cons hsound hrest hinstances
  | take a list p todo rest instances inst free hfree =>
    obtain ⟨⟨hsound, hin⟩, hrest, hinstances⟩ := h.head rfl
    cases hr
    exact Task.sound_cons ⟨prepare_holding hsound inst, List.cons_subset.mp hin⟩ hrest hinstances
  | miss a list p todo rest instances hfree =>
    obtain ⟨⟨hsound, hin⟩, hrest, hinstances⟩ := h.head rfl
    cases hr
    exact Task.sound_cons ⟨hsound, List.cons_subset.mp hin⟩ hrest hinstances
  | upgrade a list p inst todo rest instances =>
    obtain ⟨hf, hrest, hinstances⟩ := h.head rfl
    split at hr
    · cases hr
      exact Task.sound_cons hf hrest hinstances
    · cases hr
  | insert a list p inst todo rest instances =>
    obtain ⟨⟨hholding, _, htodo⟩, hrest, hinstances⟩ := h.head rfl
    cases hr
    refine Task.sound_cons ⟨insert_sound hholding p, htodo⟩ hrest ?_
    rw [show instances = _ from hinstances]
    rfl
  | available a list p todo rest instances =>
    obtain ⟨hf, hrest, hinstances⟩ := h.head rfl
    split at hr
    · cases hr
      exact Task.sound_cons hf hrest hinstances
    · cases hr
  | count a list p todo rest instances =>
    obtain ⟨⟨hsound, _, htodo⟩, hrest, hinstances⟩ := h.head rfl
    cases hr
    exact Task.sound_cons ⟨hsound, htodo⟩ hrest hinstances
  | finish a rest instances =>
    obtain ⟨hsound, hrest, hinstances⟩ := h.head rfl
    cases hr
    exact Task.sound_cons hsound hrest hinstances
  | land a rest instances hreturns =>
    obtain ⟨hsound, hrest, hinstances⟩ := h.head rfl
    cases hr
    -- A call that lands has no instance left.
    have hnone : a.pushed = [] := ((unwinds_caller hsound.caller hsound.unwinds).1 hreturns).2
    refine ⟨hrest, (show instances = _ from hinstances).trans ?_⟩
    show a.pushed ++ _ = _
    rw [hnone]
    rfl
  | pop a rest instances hreturns =>
    obtain ⟨hsound, hrest, hinstances⟩ := h.head rfl
    obtain ⟨inst, p, pushed, hpushed, _, hp, _, hholding, hpop⟩ :=
      popInstance_eq alive hsound hreturns hinstances
    rw [show popInstance alive (A.callbackFrame a.regs) instances = _ from hpop, hpushed] at hr
    split at hr
    · cases hr
      exact Task.sound_cons ⟨hholding, hp⟩ hrest rfl
    · cases hr
  | recycle a inst p rest instances =>
    obtain ⟨⟨hholding, _⟩, hrest, hinstances⟩ := h.head rfl
    cases hr
    exact Task.sound_cons (fixupReturn_sound hholding) hrest hinstances

/-- A sound task panics only at a kretprobe that is gone: one of the break list it goes through,
or the one of the instance that the trampoline pops. -/
theorem advance_error {t : Task A P} {r : Except Panic ((P → Pool P) × Task A P)}
    (hstep : Advance alive pools t r) (h : t.Sound) {e : Panic} (hr : r = .error e) :
    ∃ p, alive p = false ∧ ((∃ f ∈ t.control, f.holds p = true) ∨
      e = .retprobeDropped ∧ ∃ inst ∈ t.instances, inst.retprobe = some p) := by
  cases hstep with
  | start => cases hr
  | take => cases hr
  | miss => cases hr
  | upgrade a list p inst todo rest instances =>
    obtain ⟨⟨_, hp, _⟩, _⟩ := h.head rfl
    split at hr
    · cases hr
    · rename_i hgone
      exact ⟨p, Bool.eq_false_iff.mpr hgone, Or.inl ⟨_, List.mem_cons_self, by simpa [Frame.holds]⟩⟩
  | insert => cases hr
  | available a list p todo rest instances =>
    obtain ⟨⟨_, hp, _⟩, _⟩ := h.head rfl
    split at hr
    · cases hr
    · rename_i hgone
      exact ⟨p, Bool.eq_false_iff.mpr hgone, Or.inl ⟨_, List.mem_cons_self, by simpa [Frame.holds]⟩⟩
  | count => cases hr
  | finish => cases hr
  | land => cases hr
  | pop a rest instances hreturns =>
    obtain ⟨hsound, _, hinstances⟩ := h.head rfl
    obtain ⟨inst, p, pushed, _, hnewest, hp, _, _, hpop⟩ :=
      popInstance_eq alive hsound hreturns hinstances
    rw [show popInstance alive (A.callbackFrame a.regs) instances = _ from hpop] at hr
    split at hr
    · cases hr
    · rename_i hgone
      cases hr
      refine ⟨p, Bool.eq_false_iff.mpr hgone, Or.inr ⟨rfl, inst, ?_, hp⟩⟩
      show inst ∈ instances
      rw [show instances = _ from hnewest]
      exact List.mem_cons_self
  | recycle => cases hr

/-- The instance that a handler under way has in its hands. -/
def Frame.inFlight (p : P) : Frame A P → List (RetprobeInstance P)
  | .trap _ _ (.popped q inst _) => if q = p then [inst] else []
  | .trap _ _ (.entry q inst _) => if q = p then [inst] else []
  | .trampoline _ inst q => if q = p then [inst] else []
  | _ => []

/-- The instances of a kretprobe that a task has. -/
def Task.inFlight (p : P) (t : Task A P) : List (RetprobeInstance P) :=
  t.control.flatMap (Frame.inFlight p) ++ t.instances.filter fun i => i.retprobe = some p

/-- The instances of a kretprobe, told apart by their user data. -/
def ids (l : List (RetprobeInstance P)) : List Nat := l.map RetprobeInstance.userData

/-- A miss that has been found and is yet to be counted. -/
def Frame.pending (p : P) : Frame A P → Nat
  | .trap _ _ (.missed q _) => if q = p then 1 else 0
  | .trap _ _ (.counting q _) => if q = p then 1 else 0
  | _ => 0

def Task.pending (p : P) (t : Task A P) : Nat := (t.control.map (Frame.pending p)).sum

/-- No step of a task makes or loses an instance. -/
theorem advance_conserves {t t' : Task A P} {pools' : P → Pool P}
    (hstep : Advance alive pools t (.ok (pools', t'))) (p : P) (n : Nat) :
    (ids (pools' p).freeInstances).count n + (ids (t'.inFlight p)).count n =
      (ids (pools p).freeInstances).count n + (ids (t.inFlight p)).count n := by
  generalize hr : (Except.ok (pools', t') : Except Panic _) = r at hstep
  cases hstep with
  | start a list rest instances =>
    cases hr
    rfl
  | take a list q todo rest instances inst free hfree =>
    cases hr
    have huser : (A.prepare inst a.regs).1.userData = inst.userData := by rw [A.prepare_keeps]
    by_cases hq : p = q
    · subst hq
      simp [ids, Task.inFlight, Frame.inFlight, hfree, huser, List.count_cons]
      omega
    · have hq' : ¬ q = p := fun h => hq h.symm
      simp [ids, Task.inFlight, Frame.inFlight, hq, hq']
  | miss a list q todo rest instances hfree =>
    cases hr
    by_cases hq : p = q
    · subst hq
      simp [ids, Task.inFlight, Frame.inFlight]
    · simp [ids, Task.inFlight, Frame.inFlight, hq]
  | upgrade a list q inst todo rest instances =>
    split at hr <;> cases hr
    rfl
  | insert a list q inst todo rest instances =>
    cases hr
    by_cases hq : p = q
    · subst hq
      simp [ids, Task.inFlight, Frame.inFlight, List.count_cons]
      omega
    · have hq' : ¬ q = p := fun h => hq h.symm
      simp [ids, Task.inFlight, Frame.inFlight, hq']
  | available a list q todo rest instances =>
    split at hr <;> cases hr
    rfl
  | count a list q todo rest instances =>
    cases hr
    by_cases hq : p = q
    · subst hq
      simp [ids, Task.inFlight, Frame.inFlight]
    · simp [ids, Task.inFlight, Frame.inFlight, hq]
  | finish a rest instances =>
    cases hr
    rfl
  | land a rest instances hreturns =>
    cases hr
    rfl
  | pop a rest instances hreturns =>
    cases hpop : popInstance alive (A.callbackFrame a.regs) instances with
    | error e =>
      rw [hpop] at hr
      cases hr
    | ok res =>
      obtain ⟨inst, q, remaining⟩ := res
      obtain ⟨rfl, hprobe⟩ := popInstance_ok hpop
      rw [hpop] at hr
      cases hr
      by_cases hq : q = p
      · subst hq
        simp [ids, Task.inFlight, Frame.inFlight, hprobe, List.count_cons]
        omega
      · simp [ids, Task.inFlight, Frame.inFlight, hprobe, hq]
  | recycle a inst q rest instances =>
    cases hr
    by_cases hq : p = q
    · subst hq
      simp [ids, Task.inFlight, Frame.inFlight, recycle, List.count_cons]
      omega
    · have hq' : ¬ q = p := fun h => hq h.symm
      simp [ids, Task.inFlight, Frame.inFlight, recycle, hq, hq']

/-- A miss is counted once, after it has been found. -/
theorem advance_counts {t t' : Task A P} {pools' : P → Pool P}
    (hstep : Advance alive pools t (.ok (pools', t'))) (p : P) (n : Nat)
    (h : ((pools p).nmissed.toNat + (t.pending p + n)) % 2 ^ 64 = (pools p).emptied % 2 ^ 64) :
    ((pools' p).nmissed.toNat + (t'.pending p + n)) % 2 ^ 64 = (pools' p).emptied % 2 ^ 64 := by
  generalize hr : (Except.ok (pools', t') : Except Panic _) = r at hstep
  cases hstep with
  | start a list rest instances =>
    cases hr
    exact h
  | take a list q todo rest instances inst free hfree =>
    cases hr
    by_cases hq : p = q
    · subst hq
      rw [Function.update_self]
      exact h
    · rw [Function.update_of_ne hq]
      exact h
  | miss a list q todo rest instances hfree =>
    cases hr
    by_cases hq : p = q
    · subst hq
      simp only [Task.pending, Frame.pending, List.map_cons, List.sum_cons, if_true,
        Function.update_self] at h ⊢
      omega
    · have hq' : ¬ q = p := fun h => hq h.symm
      simp only [Task.pending, Frame.pending, List.map_cons, List.sum_cons, if_neg hq',
        Function.update_of_ne hq] at h ⊢
      exact h
  | upgrade a list q inst todo rest instances =>
    split at hr <;> cases hr
    exact h
  | insert a list q inst todo rest instances =>
    cases hr
    exact h
  | available a list q todo rest instances =>
    split at hr <;> cases hr
    exact h
  | count a list q todo rest instances =>
    cases hr
    by_cases hq : p = q
    · subst hq
      simp only [Task.pending, Frame.pending, List.map_cons, List.sum_cons, if_true,
        Function.update_self, UInt64.toNat_add] at h ⊢
      have hone : (1 : UInt64).toNat = 1 := rfl
      omega
    · have hq' : ¬ q = p := fun h => hq h.symm
      simp only [Task.pending, Frame.pending, List.map_cons, List.sum_cons, if_neg hq',
        Function.update_of_ne hq] at h ⊢
      exact h
  | finish a rest instances =>
    cases hr
    exact h
  | land a rest instances hreturns =>
    cases hr
    simpa [Task.pending, Frame.pending] using h
  | pop a rest instances hreturns =>
    cases hpop : popInstance alive (A.callbackFrame a.regs) instances with
    | error e =>
      rw [hpop] at hr
      cases hr
    | ok res =>
      rw [hpop] at hr
      cases hr
      exact h
  | recycle a inst q rest instances =>
    cases hr
    unfold recycle
    by_cases hq : p = q
    · subst hq
      rw [Function.update_self]
      exact h
    · rw [Function.update_of_ne hq]
      exact h

end Step

section Runs
variable [DecidableEq P] {sys : System P} {s s' : State A P}

/-- The instances of a kretprobe that are out of its pool. -/
def State.inFlight (p : P) (s : State A P) : List (RetprobeInstance P) :=
  s.tasks.flatMap (Task.inFlight p)

/-- The misses that have been found and are yet to be counted. -/
def State.pending (p : P) (s : State A P) : Nat := (s.tasks.map (Task.pending p)).sum

/-- The books of a system: every task is sound, every instance is in its pool or in flight, once,
and the misses that have been found are those counted and those about to be. -/
structure State.Sound (sys : System P) (s : State A P) : Prop where
  tasks : ∀ t ∈ s.tasks, t.Sound
  instances : ∀ p, (ids ((s.pools p).freeInstances ++ s.inFlight p)).Perm
    (List.range (sys.maxactive p).toNat)
  misses : ∀ p, ((s.pools p).nmissed.toNat + s.pending p) % 2 ^ 64 =
    (s.pools p).emptied % 2 ^ 64

theorem sound_of_init (h : Init sys s) : s.Sound sys where
  tasks := by
    intro t ht
    rw [h.tasks t ht]
    exact ⟨fun f hf => absurd hf List.not_mem_nil, rfl⟩
  instances := by
    intro p
    have hnone : s.inFlight p = [] := by
      unfold State.inFlight
      rw [List.flatMap_eq_nil_iff]
      intro t ht
      rw [h.tasks t ht]
      rfl
    rw [hnone, List.append_nil, h.pools]
    unfold ids newPool
    rw [List.map_map]
    simp [Function.comp_def]
  misses := by
    intro p
    have hnone : s.pending p = 0 := by
      have hzero : s.tasks.map (Task.pending p) = s.tasks.map fun _ => 0 := by
        refine List.map_congr_left fun t ht => ?_
        rw [h.tasks t ht]
        rfl
      rw [State.pending, hzero, List.map_const', List.sum_replicate_nat, Nat.mul_zero]
    rw [hnone, h.pools]
    rfl

/-- The pools and the tasks after a step: a task has gone on, or been called into, or there is no
change. -/
theorem step_tasks {e : Event P} (hstep : Step sys s e (.ok s')) :
    (∃ pre post t t', s.tasks = pre ++ t :: post ∧ s'.tasks = pre ++ t' :: post ∧
      s'.stage = s.stage ∧ s'.clones = s.clones ∧
      (Advance s.alive s.pools t (.ok (s'.pools, t')) ∨
        s'.pools = s.pools ∧ ∃ a list todo, t' = ⟨.trap a list (.next todo) :: t.control,
          t.instances⟩ ∧ a.Sound ∧ a.pushed = [] ∧ todo ⊆ list)) ∨
      (s'.pools = s.pools ∧ s'.tasks = s.tasks) := by
  generalize hr : (Except.ok s' : Except Panic _) = r at hstep
  cases hstep with
  | call pre post t f regs hits htasks hcaller hhits =>
    cases hr
    refine Or.inl ⟨pre, post, t, _, htasks, rfl, rfl, rfl, Or.inr ⟨rfl, _, _, _, rfl, ?_, rfl,
      hhits.subset⟩⟩
    exact ⟨hcaller, rfl⟩
  | goOn pre post t r htasks hrun _ =>
    cases r with
    | error e => cases hr
    | ok res =>
      cases hr
      exact Or.inl ⟨pre, post, t, res.2, htasks, rfl, rfl, rfl, Or.inl (advance_of_goOn hrun)⟩
  | unlinkBreak => cases hr; exact Or.inr ⟨rfl, rfl⟩
  | unlinkDebug => cases hr; exact Or.inr ⟨rfl, rfl⟩
  | dropHandle => cases hr; exact Or.inr ⟨rfl, rfl⟩
  | clone => cases hr; exact Or.inr ⟨rfl, rfl⟩
  | drop => cases hr; exact Or.inr ⟨rfl, rfl⟩

theorem count_inFlight (p : P) (n : Nat) {pre post : List (Task A P)} {t : Task A P}
    (htasks : s.tasks = pre ++ t :: post) :
    (ids (s.inFlight p)).count n = (ids (pre.flatMap (Task.inFlight p))).count n +
      ((ids (t.inFlight p)).count n + (ids (post.flatMap (Task.inFlight p))).count n) := by
  unfold State.inFlight
  rw [htasks]
  simp [ids]

theorem pending_split (p : P) {pre post : List (Task A P)} {t : Task A P}
    (htasks : s.tasks = pre ++ t :: post) :
    s.pending p = t.pending p +
      ((pre.map (Task.pending p)).sum + (post.map (Task.pending p)).sum) := by
  unfold State.pending
  rw [htasks, List.map_append, List.sum_append, List.map_cons, List.sum_cons]
  omega

theorem step_sound {e : Event P} (h : s.Sound sys) (hstep : Step sys s e (.ok s')) :
    s'.Sound sys := by
  rcases step_tasks hstep with ⟨pre, post, t, t', htasks, htasks', _, _, hnext⟩ | ⟨hpools, htasks⟩
  · have ht : t.Sound := h.tasks t (by rw [htasks]; exact List.mem_append_right _ List.mem_cons_self)
    have hothers : ∀ u ∈ pre ++ post, u.Sound := by
      intro u hu
      refine h.tasks u ?_
      rw [htasks]
      rcases List.mem_append.mp hu with hu | hu
      · exact List.mem_append_left _ hu
      · exact List.mem_append_right _ (List.mem_cons_of_mem _ hu)
    have htasks'' : t'.Sound → ∀ u ∈ s'.tasks, u.Sound := by
      intro ht' u hu
      rw [htasks'] at hu
      rcases List.mem_append.mp hu with hu | hu
      · exact hothers u (List.mem_append_left _ hu)
      · rcases List.mem_cons.mp hu with rfl | hu
        · exact ht'
        · exact hothers u (List.mem_append_right _ hu)
    rcases hnext with hadvance | ⟨hpools, a, list, todo, rfl, hsound, hpushed, htodo⟩
    · refine ⟨htasks'' (advance_sound hadvance ht _ _ rfl), fun p => ?_, fun p => ?_⟩
      · refine List.Perm.trans ?_ (h.instances p)
        rw [List.perm_iff_count]
        intro n
        have hstep := advance_conserves hadvance p n
        have hbefore := count_inFlight p n htasks
        have hafter := count_inFlight p n htasks'
        simp only [ids, List.map_append, List.count_append] at hstep hbefore hafter ⊢
        omega
      · have hbefore := h.misses p
        rw [pending_split p htasks] at hbefore
        rw [pending_split p htasks']
        exact advance_counts hadvance p _ hbefore
    · refine ⟨htasks'' ?_, fun p => ?_, fun p => ?_⟩
      · refine Task.sound_cons ⟨hsound, htodo⟩ ht.frames ?_
        show t.instances = a.pushed ++ _
        rw [hpushed]
        exact ht.instances
      · have hinflight : s'.inFlight p = s.inFlight p := by
          unfold State.inFlight
          rw [htasks, htasks', List.flatMap_append, List.flatMap_append, List.flatMap_cons,
            List.flatMap_cons]
          rfl
        rw [hpools, hinflight]
        exact h.instances p
      · have hpending : s'.pending p = s.pending p := by
          rw [pending_split p htasks, pending_split p htasks']
          show 0 + _ + _ = _
          rw [Nat.zero_add]
          rfl
        rw [hpools, hpending]
        exact h.misses p
  · refine ⟨?_, fun p => ?_, fun p => ?_⟩
    · rw [htasks]
      exact h.tasks
    · unfold State.inFlight
      rw [hpools, htasks]
      exact h.instances p
    · unfold State.pending
      rw [hpools, htasks]
      exact h.misses p

end Runs

end ExtKtrace.Kprobe.Rethook
