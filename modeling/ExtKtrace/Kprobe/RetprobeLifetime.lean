import ExtKtrace.Kprobe.ReturnStack

/-!
# Return probes in use

Without `unregister_kretprobe` every call returns to its caller. An instance in flight refers to
its kretprobe weakly, so that a return is safe as long as somebody else still holds the kretprobe.
-/

namespace ExtKtrace.Kprobe.Rethook
set_option autoImplicit false

open Machine

variable {A : Arch} {P : Type}

/-- At a return to the trampoline the newest instance of the task is the newest one of this very
call and has the frame of the call. -/
def PopsOwn (t : Task A P) : Prop :=
  ∀ a rest, t.control = .leaving a :: rest → A.returnsTo a.regs = A.trampoline →
    ∃ inst p instances pushed, t.instances = inst :: instances ∧ a.pushed = inst :: pushed ∧
      inst.retprobe = some p ∧ inst.frame = A.callbackFrame a.regs

/-- A return that is not to the trampoline is to the caller, with no instance left of the call. -/
def Lands (t : Task A P) : Prop :=
  ∀ a rest, t.control = .leaving a :: rest → A.returnsTo a.regs ≠ A.trampoline →
    A.returnsTo a.regs = a.caller ∧ a.pushed = []

/-- From every call under way the popped addresses lead to its caller. -/
def LeadsHome (t : Task A P) : Prop :=
  ∀ a, (Frame.body a ∈ t.control ∨ Frame.leaving a ∈ t.control) →
    follow A a.pushed (A.returnsTo a.regs) = a.caller

theorem popsOwn_of_sound {t : Task A P} (h : t.Sound) : PopsOwn t := by
  intro a rest hcontrol hreturns
  obtain ⟨hsound, _, hinstances⟩ := h.head hcontrol
  obtain ⟨inst, p, pushed, hpushed, hnewest, hp, hframe, _⟩ :=
    popInstance_eq (fun _ => true) hsound hreturns hinstances
  exact ⟨inst, p, _, pushed, hnewest, hpushed, hp, hframe⟩

theorem lands_of_sound {t : Task A P} (h : t.Sound) : Lands t := by
  intro a rest hcontrol hreturns
  obtain ⟨hsound, _⟩ := h.head hcontrol
  exact (unwinds_caller hsound.caller hsound.unwinds).1 hreturns

theorem leadsHome_of_sound {t : Task A P} (h : t.Sound) : LeadsHome t := by
  rintro a (hmem | hmem)
  · exact follow_of_unwinds (h.frames _ hmem).unwinds
  · exact follow_of_unwinds (h.frames _ hmem).unwinds

variable [DecidableEq P] {sys : System P} {s s' : State A P}

theorem alive_of_registered {p : P} (h : s.stage p = .registered) : s.alive p = true := by
  unfold State.alive
  rw [h]
  rfl

theorem alive_of_holds {t : Task A P} (ht : t ∈ s.tasks) {f : Frame A P} (hf : f ∈ t.control)
    {p : P} (hp : f.holds p = true) : s.alive p = true := by
  unfold State.alive
  rw [Bool.or_eq_true]
  exact Or.inr (List.any_eq_true.mpr ⟨t, ht, List.any_eq_true.mpr ⟨f, hf, hp⟩⟩)

def State.Held (s : State A P) : Prop :=
  ∀ t ∈ s.tasks, ∀ i ∈ t.instances, ∀ p, i.retprobe = some p → s.alive p = true

/-- In a sound system a step panics only in a trampoline, at a kretprobe that is gone. -/
theorem never_panics (h : s.Sound sys) (hheld : s.Held) (e : Event P) (x : Panic) :
    ¬ Step sys s e (.error x) := by
  intro hstep
  generalize hr : (Except.error x : Except Panic (State A P)) = r at hstep
  cases hstep with
  | goOn pre post t r htasks hrun _ =>
    cases r with
    | ok res => cases hr
    | error y =>
      have ht : t ∈ s.tasks := by
        rw [htasks]
        exact List.mem_append_right _ List.mem_cons_self
      obtain ⟨p, hgone, ⟨f, hf, hholds⟩ | ⟨_, inst, hinst, hprobe⟩⟩ :=
        advance_error (advance_of_goOn hrun) (h.tasks t ht) rfl
      · rw [alive_of_holds ht hf hholds] at hgone
        cases hgone
      · rw [hheld t ht inst hinst p hprobe] at hgone
        cases hgone
  | call => cases hr
  | unlinkBreak => cases hr
  | unlinkDebug => cases hr
  | dropHandle => cases hr
  | clone => cases hr
  | drop => cases hr

/-- A pre handler that finds no free instance leaves the call, with its return address, as it is.
It takes the lock as soon as that is free, counts the one miss and goes on. -/
structure MissCounted (s : State A P) (t : Task A P) : Prop where
  found : ∀ a list p todo rest, t.control = .trap a list (.next (p :: todo)) :: rest →
    (s.pools p).freeInstances = [] → t.waitsFor = none ∧ ∃ pools,
      goOn s.alive s.pools t =
        some (.ok (pools, { t with control := .trap a list (.missed p todo) :: rest })) ∧
      ∀ q, (pools q).nmissed = (s.pools q).nmissed
  locks : ∀ a list p todo rest, t.control = .trap a list (.missed p todo) :: rest →
    t.waitsFor = some p ∧ goOn s.alive s.pools t =
      some (.ok (s.pools, { t with control := .trap a list (.counting p todo) :: rest }))
  counts : ∀ a list p todo rest, t.control = .trap a list (.counting p todo) :: rest →
    t.waitsFor = none ∧ ∃ pools, goOn s.alive s.pools t =
      some (.ok (pools, { t with control := .trap a list (.next todo) :: rest })) ∧
      (pools p).nmissed = (s.pools p).nmissed + 1 ∧ ∀ q, q ≠ p → pools q = s.pools q

theorem missCounted_of_sound {t : Task A P} (ht : t ∈ s.tasks) (h : t.Sound) :
    MissCounted s t where
  found a list p todo rest hcontrol hfree := by
    have hrun : goOn s.alive s.pools t =
        some (.ok ((takeInstance s.pools a list p todo).1,
          ⟨(takeInstance s.pools a list p todo).2 :: rest, t.instances⟩)) := by
      unfold goOn
      rw [hcontrol]
      rfl
    rw [takeInstance_nil a list todo hfree] at hrun
    refine ⟨by rw [Task.waitsFor, hcontrol], _, hrun, fun q => ?_⟩
    show (Function.update s.pools p _ q).nmissed = _
    by_cases hq : q = p
    · rw [hq, Function.update_self]
    · rw [Function.update_of_ne hq]
  locks a list p todo rest hcontrol := by
    obtain ⟨⟨_, hp, _⟩, _⟩ := h.head hcontrol
    have halive : s.alive p = true :=
      alive_of_holds ht (hcontrol ▸ List.mem_cons_self) (by simpa [Frame.holds] using hp)
    refine ⟨by rw [Task.waitsFor, hcontrol], ?_⟩
    unfold goOn
    rw [hcontrol]
    simp only [preHandlerKretprobe, if_pos halive]
    rfl
  counts a list p todo rest hcontrol := by
    refine ⟨by rw [Task.waitsFor, hcontrol], Function.update s.pools p
      { s.pools p with nmissed := (s.pools p).nmissed + 1 }, ?_, ?_, fun q hq => ?_⟩
    · unfold goOn
      rw [hcontrol]
      rfl
    · rw [Function.update_self]
    · rw [Function.update_of_ne hq]

/-- The step is not a call in the middle of a critical section, by the entry handler or by an
interrupt. -/
def CallsUnlocked (s s' : State A P) : Prop :=
  ∀ pre post t f, s.tasks = pre ++ t :: post →
    s'.tasks = pre ++ ⟨f :: t.control, t.instances⟩ :: post →
    ∀ g ∈ t.control, ∀ p, g.guards p = false

/-- Only the innermost call of a task may be in a critical section. -/
def Task.LocksInnermost (t : Task A P) : Prop := ∀ g ∈ t.control.tail, ∀ p, g.guards p = false

/-- A step of a task changes its innermost call, or ends it. -/
theorem advance_control {alive : P → Bool} {pools pools' : P → Pool P} {t t' : Task A P}
    (hstep : Advance alive pools t (.ok (pools', t'))) :
    t'.control.tail = t.control.tail ∨ t'.control = t.control.tail := by
  generalize hr : (Except.ok (pools', t') : Except Panic _) = r at hstep
  cases hstep with
  | start => cases hr; exact Or.inl rfl
  | take => cases hr; exact Or.inl rfl
  | miss => cases hr; exact Or.inl rfl
  | upgrade => split at hr <;> cases hr; exact Or.inl rfl
  | insert => cases hr; exact Or.inl rfl
  | available => split at hr <;> cases hr; exact Or.inl rfl
  | count => cases hr; exact Or.inl rfl
  | finish => cases hr; exact Or.inl rfl
  | land => cases hr; exact Or.inr rfl
  | pop a rest instances =>
    cases hpop : popInstance alive (A.callbackFrame a.regs) instances with
    | error e =>
      rw [hpop] at hr
      cases hr
    | ok res =>
      rw [hpop] at hr
      cases hr
      exact Or.inl rfl
  | recycle => cases hr; exact Or.inl rfl

theorem Task.LocksInnermost.advance {alive : P → Bool} {pools pools' : P → Pool P} {t t' : Task A P}
    (h : t.LocksInnermost) (hstep : Advance alive pools t (.ok (pools', t'))) :
    t'.LocksInnermost := by
  intro g hg
  rcases advance_control hstep with htail | hcontrol
  · rw [htail] at hg
    exact h g hg
  · rw [hcontrol] at hg
    exact h g (List.mem_of_mem_tail hg)

theorem step_locksInnermost {e : Event P} (h : ∀ t ∈ s.tasks, t.LocksInnermost)
    (hstep : Step sys s e (.ok s')) (hcalls : CallsUnlocked s s') :
    ∀ t ∈ s'.tasks, t.LocksInnermost := by
  rcases step_tasks hstep with ⟨pre, post, t, t', htasks, htasks', _, _, hnext⟩ | ⟨_, htasks⟩
  · rw [htasks] at h
    have ht' : t'.LocksInnermost := by
      rcases hnext with hadvance | ⟨_, a, list, todo, rfl, _⟩
      · exact (h t (List.mem_append_right _ List.mem_cons_self)).advance hadvance
      · exact hcalls pre post t _ htasks htasks'
    intro u hu
    rw [htasks'] at hu
    rcases List.mem_append.mp hu with hu | hu
    · exact h u (List.mem_append_left _ hu)
    rcases List.mem_cons.mp hu with rfl | hu
    · exact ht'
    · exact h u (List.mem_append_right _ (List.mem_cons_of_mem _ hu))
  · rw [htasks]
    exact h

/-- A task in a critical section, whose next step is to leave it. -/
def Releases (s : State A P) (p : P) (t : Task A P) : Prop :=
  t.waitsFor = none ∧ ∃ a a' list phase todo rest pools instances,
    t.control = .trap a list phase :: rest ∧ goOn s.alive s.pools t =
      some (.ok (pools, ⟨.trap a' list (.next todo) :: rest, instances⟩)) ∧
    Frame.guards p (.trap a list phase : Frame A P) = true

theorem releases_of_guards {t : Task A P} {p : P} (h : t.LocksInnermost) {f : Frame A P}
    (hf : f ∈ t.control) (hguards : f.guards p = true) : Releases s p t := by
  obtain ⟨control, instances⟩ := t
  cases control with
  | nil => cases hf
  | cons g rest =>
    rcases List.mem_cons.mp hf with rfl | hrest
    · cases f with
      | trap a list phase =>
        cases phase with
        | entry q inst todo =>
          exact ⟨rfl, a, _, list, _, todo, rest, _, _, rfl, rfl, hguards⟩
        | counting q todo =>
          exact ⟨rfl, a, _, list, _, todo, rest, _, _, rfl, rfl, hguards⟩
        | next => cases hguards
        | popped => cases hguards
        | missed => cases hguards
      | body => cases hguards
      | leaving => cases hguards
      | trampoline => cases hguards
    · rw [h f hrest p] at hguards
      cases hguards

/-- Whoever waits for a lock waits for another task, which leaves its critical section next. -/
def WaitsEnd (s : State A P) : Prop :=
  ∀ pre post t p, s.tasks = pre ++ t :: post → t.waitsFor = some p → s.locked p = true →
    ∃ u ∈ pre ++ post, Releases s p u

theorem waitsEnd_of_locksInnermost (h : ∀ t ∈ s.tasks, t.LocksInnermost) : WaitsEnd s := by
  intro pre post t p htasks hwaits hlocked
  obtain ⟨u, hu, hany⟩ := List.any_eq_true.mp hlocked
  obtain ⟨f, hf, hguards⟩ := List.any_eq_true.mp hany
  have hreleases : Releases s p u := releases_of_guards (h u hu) hf hguards
  refine ⟨u, ?_, hreleases⟩
  have hne : u ≠ t := by
    rintro rfl
    rw [hreleases.1] at hwaits
    cases hwaits
  rw [htasks] at hu
  rcases List.mem_append.mp hu with hu | hu
  · exact List.mem_append_left _ hu
  · exact List.mem_append_right _ ((List.mem_cons.mp hu).resolve_left hne)

structure HandsBack (sys : System P) (s : State A P) : Prop where
  never_panics : ∀ e x, ¬ Step sys s e (.error x)
  popsOwn : ∀ t ∈ s.tasks, PopsOwn t
  lands : ∀ t ∈ s.tasks, Lands t
  leadsHome : ∀ t ∈ s.tasks, LeadsHome t
  /-- No two instances in a pool or in flight are the same. -/
  distinct : ∀ p, (ids ((s.pools p).freeInstances ++ s.inFlight p)).Nodup
  conserved : ∀ p, (s.pools p).freeInstances.length + (s.inFlight p).length =
    (sys.maxactive p).toNat
  missCounted : ∀ t ∈ s.tasks, MissCounted s t
  misses : ∀ p, ((s.pools p).nmissed.toNat + s.pending p) % 2 ^ 64 =
    (s.pools p).emptied % 2 ^ 64

theorem handsBack_of_sound (h : s.Sound sys) (hheld : s.Held) : HandsBack sys s where
  never_panics := Rethook.never_panics h hheld
  popsOwn t ht := popsOwn_of_sound (h.tasks t ht)
  lands t ht := lands_of_sound (h.tasks t ht)
  leadsHome t ht := leadsHome_of_sound (h.tasks t ht)
  distinct p := (h.instances p).nodup_iff.mpr List.nodup_range
  conserved p := by
    have hlength := (h.instances p).length_eq
    rwa [ids, List.length_map, List.length_append, List.length_range] at hlength
  missCounted t ht := missCounted_of_sound ht (h.tasks t ht)
  misses := h.misses

/-- A step that is not of `unregister_kretprobe`. -/
def StepRegistered (sys : System P) (s s' : State A P) : Prop :=
  ∃ e, (∀ p, e ≠ .unregister p) ∧ Step sys s e (.ok s')

theorem step_stage {e : Event P} (hstep : Step sys s e (.ok s')) (he : ∀ p, e ≠ .unregister p) :
    s'.stage = s.stage := by
  generalize hr : (Except.ok s' : Except Panic _) = r at hstep
  cases hstep with
  | call => cases hr; rfl
  | goOn pre post t r _ _ _ =>
    cases r with
    | error e => cases hr
    | ok res => cases hr; rfl
  | unlinkBreak p => exact absurd rfl (he p)
  | unlinkDebug p => exact absurd rfl (he p)
  | dropHandle p => exact absurd rfl (he p)
  | clone => cases hr; rfl
  | drop => cases hr; rfl

/-- Return probes that are not unregistered hand control back to the caller, whatever calls and
returns there are in whatever tasks. No pre handler waits for its lock in vain unless a call has
been made under a lock. -/
theorem return_probes_hand_back (sys : System P) (s : State A P) :
    (Reachable (Init sys) (StepRegistered sys) s → HandsBack sys s) ∧
    (Reachable (Init sys) (fun s s' => StepRegistered sys s s' ∧ CallsUnlocked s s') s →
      WaitsEnd s) := by
  constructor
  · intro h
    have hinit : ∀ s : State A P, Init sys s → s.Sound sys ∧ ∀ p, s.stage p = .registered :=
      fun s hinit => ⟨sound_of_init hinit, hinit.stage⟩
    have hkeeps : ∀ s s' : State A P, (s.Sound sys ∧ ∀ p, s.stage p = .registered) →
        StepRegistered sys s s' → s'.Sound sys ∧ ∀ p, s'.stage p = .registered := by
      rintro s s' ⟨hsound, hstage⟩ ⟨e, he, hstep⟩
      exact ⟨step_sound hsound hstep, fun p => by rw [step_stage hstep he, hstage]⟩
    have hinv := Reachable.invariant hinit hkeeps h
    exact handsBack_of_sound hinv.1 fun _ _ _ _ p _ => alive_of_registered (hinv.2 p)
  · intro h
    have hinit : ∀ s : State A P, Init sys s → ∀ t ∈ s.tasks, t.LocksInnermost := by
      intro s hinit t ht g hg
      rw [hinit.tasks t ht] at hg
      exact absurd hg List.not_mem_nil
    refine waitsEnd_of_locksInnermost (Reachable.invariant hinit ?_ h)
    rintro s s' hlocks ⟨⟨e, _, hstep⟩, hcalls⟩
    exact step_locksInnermost hlocks hstep hcalls

theorem step_goOn {t t' : Task A P} {pools : P → Pool P} (htasks : s.tasks = [t])
    (hrun : goOn s.alive s.pools t = some (.ok (pools, t')))
    (hlock : ∀ p, t.waitsFor = some p → s.locked p = false) :
    Step sys s .task (.ok { s with pools, tasks := [t'] }) :=
  .goOn [] [] t _ htasks hrun hlock

def TRAMPOLINE : UInt64 := 0xffffffff80000000

def twoProbes : System Bool where
  maxactive _ := 1
  probes f := if f = 0x100 then [false, true] else []

def twoTasks : State (Rv64.arch TRAMPOLINE) Bool where
  pools _ := newPool Bool 1
  stage _ := .registered
  clones _ := 0
  tasks := [⟨[], []⟩, ⟨[], []⟩]

theorem init_twoTasks : Init twoProbes twoTasks where
  pools _ := rfl
  stage _ := rfl
  tasks := by
    intro t ht
    rcases List.mem_cons.mp ht with rfl | ht
    · rfl
    · exact List.mem_singleton.mp ht

theorem callsUnlocked_of_depth (h : (s'.tasks.map fun t => t.control.length).sum ≤
    (s.tasks.map fun t => t.control.length).sum) : CallsUnlocked s s' := by
  intro pre post t f htasks htasks'
  rw [htasks, htasks'] at h
  simp only [List.map_append, List.map_cons, List.sum_append, List.sum_cons, List.length_cons] at h
  omega

theorem callsUnlocked_of_unlocked (h : ∀ p, s.locked p = false) : CallsUnlocked s s' := by
  intro pre post t f htasks htasks' g hg p
  rw [Bool.eq_false_iff]
  intro hguards
  have hlocked : s.locked p = true :=
    List.any_eq_true.mpr ⟨t, htasks ▸ List.mem_append_right _ List.mem_cons_self,
      List.any_eq_true.mpr ⟨g, hg, hguards⟩⟩
  rw [h p] at hlocked
  cases hlocked

abbrev StepUnlocked (s s' : State (Rv64.arch TRAMPOLINE) Bool) : Prop :=
  StepRegistered twoProbes s s' ∧ CallsUnlocked s s'

theorem unlocked_goOn {s : State (Rv64.arch TRAMPOLINE) Bool}
    (pre post : List (Task (Rv64.arch TRAMPOLINE) Bool)) {t t' : Task (Rv64.arch TRAMPOLINE) Bool}
    {pools : Bool → Pool Bool} (htasks : s.tasks = pre ++ t :: post)
    (hrun : goOn s.alive s.pools t = some (.ok (pools, t')))
    (hlock : ∀ p, t.waitsFor = some p → s.locked p = false)
    (hdepth : t'.control.length ≤ t.control.length) :
    StepUnlocked s { s with pools, tasks := pre ++ t' :: post } := by
  refine ⟨⟨.task, nofun, .goOn pre post t _ htasks hrun hlock⟩, callsUnlocked_of_depth ?_⟩
  rw [htasks]
  simp only [List.map_append, List.map_cons, List.sum_append, List.sum_cons]
  omega

/-- The second task waits while the entry handler of the first one runs. In the end the first call
has an instance of each kretprobe, and the second one, which found none, has been counted twice. -/
theorem two_probes_hand_back :
    ∃ waiting s : State (Rv64.arch TRAMPOLINE) Bool,
      waiting.locked false = true ∧ waiting.tasks.map Task.waitsFor = [none, some false] ∧
      WaitsEnd waiting ∧
      (s.tasks.map fun t => t.instances.map fun i => (i.retAddr, i.frame, i.retprobe)) =
        [[(TRAMPOLINE, 0x2000, some true), (0x1234, 0x2000, some false)], []] ∧
      (fun p => (s.pools p).nmissed) = (fun _ => 1) ∧ HandsBack twoProbes s := by
  have h0 : Reachable (Init twoProbes) StepUnlocked twoTasks := .start init_twoTasks
  have h1 := h0.next ⟨⟨.task, nofun, .call [] [⟨[], []⟩] ⟨[], []⟩ 0x100
    (⟨0x1234, 0x2000⟩ : Rv64.PtRegs) [false, true] rfl (by decide) (List.Sublist.refl _)⟩,
    callsUnlocked_of_unlocked fun _ => rfl⟩
  have h2 := h1.next ⟨⟨.task, nofun, .call [_] [] ⟨[], []⟩ 0x100
    (⟨0x5678, 0x3000⟩ : Rv64.PtRegs) [false, true] rfl (by decide) (List.Sublist.refl _)⟩,
    callsUnlocked_of_unlocked fun _ => rfl⟩
  have h3 := h2.next (unlocked_goOn [] [_] rfl rfl nofun Nat.le.refl)
  have h4 := h3.next (unlocked_goOn [] [_] rfl rfl (fun _ _ => rfl) Nat.le.refl)
  have h5 := h4.next (unlocked_goOn [_] [] rfl rfl nofun Nat.le.refl)
  have h6 := h5.next (unlocked_goOn [] [_] rfl rfl nofun Nat.le.refl)
  have h7 := h6.next (unlocked_goOn [_] [] rfl rfl (fun _ _ => rfl) Nat.le.refl)
  have h8 := h7.next (unlocked_goOn [_] [] rfl rfl nofun Nat.le.refl)
  have h9 := h8.next (unlocked_goOn [] [_] rfl rfl nofun Nat.le.refl)
  have h10 := h9.next (unlocked_goOn [] [_] rfl rfl (fun _ _ => rfl) Nat.le.refl)
  have h11 := h10.next (unlocked_goOn [] [_] rfl rfl nofun Nat.le.refl)
  have h12 := h11.next (unlocked_goOn [_] [] rfl rfl nofun Nat.le.refl)
  have h13 := h12.next (unlocked_goOn [_] [] rfl rfl (fun _ _ => rfl) Nat.le.refl)
  have h14 := h13.next (unlocked_goOn [_] [] rfl rfl nofun Nat.le.refl)
  refine ⟨_, _, ?_, ?_, (return_probes_hand_back twoProbes _).2 h5, ?_, ?_,
    (return_probes_hand_back twoProbes _).1 (h14.mono fun _ _ h => h.1)⟩
  · rfl
  · rfl
  · rfl
  · funext p
    cases p <;> rfl

/-- A step, also of `unregister_kretprobe`. -/
def StepAny (sys : System P) (s s' : State A P) : Prop := ∃ e, Step sys s e (.ok s')

/-- The step does not give up the last strong reference to a kretprobe that has an instance on
the stack of a task. -/
def KeepsInFlight (s s' : State A P) : Prop :=
  ∀ p, s.alive p = true → s'.alive p = false →
    ∀ t ∈ s'.tasks, ∀ i ∈ t.instances, i.retprobe ≠ some p

/-- At a return to the trampoline the handler takes the instance of the call and goes on to the
address that it keeps. -/
def ReturnsSafely (s : State A P) (t : Task A P) : Prop :=
  ∀ a rest, t.control = .leaving a :: rest → A.returnsTo a.regs = A.trampoline →
    ∃ inst p instances pushed, t.instances = inst :: instances ∧ a.pushed = inst :: pushed ∧
      goOn s.alive s.pools t =
        some (.ok (s.pools, ⟨.trampoline { a with pushed } inst p :: rest, instances⟩)) ∧
      goOn s.alive s.pools ⟨.trampoline { a with pushed } inst p :: rest, instances⟩ =
        some (.ok (recycle s.pools p inst, ⟨.leaving ⟨a.caller,
          A.fixupReturn a.regs inst.retAddr, pushed⟩ :: rest, instances⟩)) ∧
      A.returnsTo (A.fixupReturn a.regs inst.retAddr) = inst.retAddr

/-- A return to the trampoline panics exactly when nobody holds the kretprobe any more. -/
theorem goOn_leaving {t : Task A P} (h : t.Sound) {a : Activation A P} {rest : List (Frame A P)}
    (hcontrol : t.control = .leaving a :: rest) (hreturns : A.returnsTo a.regs = A.trampoline) :
    ∃ inst p instances pushed, t.instances = inst :: instances ∧ a.pushed = inst :: pushed ∧
      inst.retprobe = some p ∧ goOn s.alive s.pools t = some (if s.alive p then
        .ok (s.pools, ⟨.trampoline { a with pushed } inst p :: rest, instances⟩)
        else .error .retprobeDropped) := by
  obtain ⟨hsound, _, hinstances⟩ := h.head hcontrol
  obtain ⟨inst, p, pushed, hpushed, hnewest, hp, _, _, hpop⟩ :=
    popInstance_eq s.alive hsound hreturns hinstances
  refine ⟨inst, p, _, pushed, hnewest, hpushed, hp, ?_⟩
  unfold goOn
  rw [hcontrol]
  simp only [if_pos hreturns, hpop, hpushed]
  split <;> rfl

theorem returnsSafely_of_held (h : s.Sound sys) (hheld : s.Held) {t : Task A P}
    (ht : t ∈ s.tasks) : ReturnsSafely s t := by
  intro a rest hcontrol hreturns
  obtain ⟨inst, p, instances, pushed, hinstances, hpushed, hp, hrun⟩ :=
    goOn_leaving (s := s) (h.tasks t ht) hcontrol hreturns
  have halive : s.alive p = true :=
    hheld t ht inst (by rw [hinstances]; exact List.mem_cons_self) p hp
  rw [if_pos halive] at hrun
  exact ⟨inst, p, instances, pushed, hinstances, hpushed, hrun, rfl,
    A.fixupReturn_returnsTo _ _⟩

theorem sound_of_reachable (h : Reachable (Init sys) (StepAny sys) s) : s.Sound sys := by
  have hinit : ∀ s : State A P, Init sys s → s.Sound sys := fun s => sound_of_init
  refine Reachable.invariant hinit ?_ h
  rintro s s' hsound ⟨e, hstep⟩
  exact step_sound hsound hstep

/-- A step puts an instance on a stack only while its kretprobe is held. -/
theorem instances_of_step {e : Event P} (h : s.Sound sys) (hstep : Step sys s e (.ok s'))
    {u : Task A P} (hu : u ∈ s'.tasks) {i : RetprobeInstance P} (hi : i ∈ u.instances) :
    (∃ t ∈ s.tasks, i ∈ t.instances) ∨ ∀ p, i.retprobe = some p → s'.alive p = true := by
  rcases step_tasks hstep with ⟨pre, post, t, t', htasks, htasks', _, _, hnext⟩ | ⟨_, htasks⟩
  · have ht : t ∈ s.tasks := by
      rw [htasks]
      exact List.mem_append_right _ List.mem_cons_self
    have hu' := hu
    rw [htasks'] at hu
    rcases List.mem_append.mp hu with hu | hu
    · exact Or.inl ⟨u, by rw [htasks]; exact List.mem_append_left _ hu, hi⟩
    rcases List.mem_cons.mp hu with rfl | hu
    · rcases hnext with hadvance | ⟨_, a, list, todo, rfl, _⟩
      · generalize s'.pools = pools' at hadvance
        generalize hr : (Except.ok (pools', u) : Except Panic _) = r at hadvance
        cases hadvance with
        | insert a list p inst todo rest instances =>
          cases hr
          rcases List.mem_cons.mp hi with rfl | hi
          · -- The breakpoint handler still holds the kretprobes of its list.
            refine Or.inr fun q hq => ?_
            obtain rfl := Option.some.inj hq
            obtain ⟨⟨_, hp, _⟩, _⟩ := (h.tasks _ ht).head rfl
            exact alive_of_holds hu' List.mem_cons_self (by simpa [Frame.holds] using hp)
          · exact Or.inl ⟨_, ht, hi⟩
        | pop a rest instances hreturns =>
          cases hpop : popInstance s.alive (A.callbackFrame a.regs) instances with
          | error e =>
            rw [hpop] at hr
            cases hr
          | ok res =>
            obtain ⟨inst, q, remaining⟩ := res
            rw [hpop] at hr
            cases hr
            obtain ⟨rfl, _⟩ := popInstance_ok hpop
            exact Or.inl ⟨_, ht, List.mem_cons_of_mem _ hi⟩
        | start => cases hr; exact Or.inl ⟨_, ht, hi⟩
        | take => cases hr; exact Or.inl ⟨_, ht, hi⟩
        | miss => cases hr; exact Or.inl ⟨_, ht, hi⟩
        | upgrade =>
          split at hr <;> cases hr
          exact Or.inl ⟨_, ht, hi⟩
        | available =>
          split at hr <;> cases hr
          exact Or.inl ⟨_, ht, hi⟩
        | count => cases hr; exact Or.inl ⟨_, ht, hi⟩
        | finish => cases hr; exact Or.inl ⟨_, ht, hi⟩
        | land => cases hr; exact Or.inl ⟨_, ht, hi⟩
        | recycle => cases hr; exact Or.inl ⟨_, ht, hi⟩
      · exact Or.inl ⟨t, ht, hi⟩
    · exact Or.inl ⟨u, by rw [htasks]; exact List.mem_append_right _ (List.mem_cons_of_mem _ hu), hi⟩
  · rw [htasks] at hu
    exact Or.inl ⟨u, hu, hi⟩

theorem step_held {e : Event P} (h : s.Sound sys) (hheld : s.Held)
    (hstep : Step sys s e (.ok s')) (hkeeps : KeepsInFlight s s') : s'.Held := by
  intro u hu i hi p hp
  rcases instances_of_step h hstep hu hi with ⟨t, ht, hit⟩ | halive
  · have hbefore := hheld t ht i hit p hp
    by_contra hgone
    exact hkeeps p hbefore (Bool.eq_false_iff.mpr hgone) u hu i hi hp
  · exact halive p hp

/-- Any return to the trampoline takes the instance of its call, and yields the address it keeps
exactly when the kretprobe is still held. In a run that never gives up the last reference to a
kretprobe with an instance in flight nothing panics and every return is safe. -/
theorem unregister_returns_iff (sys : System P) :
    (∀ s : State A P, Reachable (Init sys) (StepAny sys) s → ∀ t ∈ s.tasks, ∀ a rest,
      t.control = .leaving a :: rest → A.returnsTo a.regs = A.trampoline →
      ∃ inst p instances pushed, t.instances = inst :: instances ∧ a.pushed = inst :: pushed ∧
        inst.retprobe = some p ∧ goOn s.alive s.pools t = some (if s.alive p then
          .ok (s.pools, ⟨.trampoline { a with pushed } inst p :: rest, instances⟩)
          else .error .retprobeDropped)) ∧
    ∀ s : State A P,
      Reachable (Init sys) (fun s s' => StepAny sys s s' ∧ KeepsInFlight s s') s →
      (∀ e x, ¬ Step sys s e (.error x)) ∧
        ∀ t ∈ s.tasks, ReturnsSafely s t ∧ Lands t ∧ LeadsHome t := by
  constructor
  · intro s hreach t ht a rest hcontrol hreturns
    exact goOn_leaving ((sound_of_reachable hreach).tasks t ht) hcontrol hreturns
  · intro s hreach
    have hinit : ∀ s : State A P, Init sys s → s.Sound sys ∧ s.Held := by
      intro s hinit
      refine ⟨sound_of_init hinit, fun t ht i hi => ?_⟩
      rw [hinit.tasks t ht] at hi
      exact absurd hi List.not_mem_nil
    have hstep : ∀ s s' : State A P, s.Sound sys ∧ s.Held →
        StepAny sys s s' ∧ KeepsInFlight s s' → s'.Sound sys ∧ s'.Held := by
      rintro s s' ⟨hsound, hheld⟩ ⟨⟨e, hstep⟩, hkeeps⟩
      exact ⟨step_sound hsound hstep, step_held hsound hheld hstep hkeeps⟩
    obtain ⟨hsound, hheld⟩ := Reachable.invariant hinit hstep hreach
    exact ⟨never_panics hsound hheld, fun t ht => ⟨returnsSafely_of_held hsound hheld ht,
      lands_of_sound (hsound.tasks t ht), leadsHome_of_sound (hsound.tasks t ht)⟩⟩

def oneProbe : System Unit where
  maxactive _ := 1
  probes f := if f = 0x100 then [()] else []

def oneCaller (clones : Nat) : State (Rv64.arch TRAMPOLINE) Unit where
  pools _ := newPool Unit 1
  stage _ := .registered
  clones _ := clones
  tasks := [⟨[], []⟩]

theorem init_oneCaller (clones : Nat) : Init oneProbe (oneCaller clones) where
  pools _ := rfl
  stage _ := rfl
  tasks _ ht := List.mem_singleton.mp ht

def callInstance : RetprobeInstance Unit := ⟨0x1234, 0x2000, 0, some ()⟩

def callReturning : Task (Rv64.arch TRAMPOLINE) Unit where
  control := [.leaving ⟨0x1234, ⟨TRAMPOLINE, 0x2000⟩, [callInstance]⟩]
  instances := [callInstance]

theorem keepsInFlight_of_clone (h : ∀ p, 0 < s'.clones p) : KeepsInFlight s s' := by
  intro p _ hgone
  unfold State.alive at hgone
  simp [h p] at hgone

/-- While a clone of the handle is left the call returns after `unregister_kretprobe`. -/
theorem return_safe_with_clone :
    ∃ s : State (Rv64.arch TRAMPOLINE) Unit, s.stage () = .unregistered ∧
      s.tasks = [callReturning] ∧ ReturnsSafely s callReturning := by
  let Safe (s s' : State (Rv64.arch TRAMPOLINE) Unit) : Prop :=
    StepAny oneProbe s s' ∧ KeepsInFlight s s'
  have h0 : Reachable (Init oneProbe) Safe (oneCaller 1) := .start (init_oneCaller 1)
  have keeps {s s' : State (Rv64.arch TRAMPOLINE) Unit} {e : Event Unit}
      (h : Step oneProbe s e (.ok s')) (hclones : ∀ p, 0 < s'.clones p) : Safe s s' :=
    ⟨⟨e, h⟩, keepsInFlight_of_clone hclones⟩
  have h1 := h0.next (keeps (.call [] [] ⟨[], []⟩ 0x100 (⟨0x1234, 0x2000⟩ : Rv64.PtRegs) [()] rfl
    (by decide) (List.Sublist.refl _)) fun _ => Nat.one_pos)
  have h2 := h1.next (keeps (step_goOn rfl rfl nofun) fun _ => Nat.one_pos)
  have h3 := h2.next (keeps (step_goOn rfl rfl fun _ _ => rfl) fun _ => Nat.one_pos)
  have h4 := h3.next (keeps (step_goOn rfl rfl nofun) fun _ => Nat.one_pos)
  have h5 := h4.next (keeps (step_goOn rfl rfl nofun) fun _ => Nat.one_pos)
  have h6 := h5.next (keeps (.unlinkBreak () rfl) fun _ => Nat.one_pos)
  have h7 := h6.next (keeps (.unlinkDebug () rfl) fun _ => Nat.one_pos)
  have h8 := h7.next (keeps (.dropHandle () rfl) fun _ => Nat.one_pos)
  have h9 := h8.next (keeps (step_goOn rfl rfl nofun) fun _ => Nat.one_pos)
  obtain ⟨_, hreturns⟩ := (unregister_returns_iff oneProbe).2 _ h9
  exact ⟨_, rfl, rfl, (hreturns callReturning List.mem_cons_self).1⟩

/-- With the last reference gone the trampoline panics on the call. -/
theorem return_panics_after_unregister :
    ∃ s : State (Rv64.arch TRAMPOLINE) Unit,
      Reachable (Init oneProbe) (StepAny oneProbe) s ∧ s.stage () = .unregistered ∧
      s.tasks = [callReturning] ∧ Step oneProbe s .task (.error .retprobeDropped) := by
  have h0 : Reachable (Init oneProbe) (StepAny oneProbe) (oneCaller 0) := .start (init_oneCaller 0)
  have h1 := h0.next ⟨_, .call [] [] ⟨[], []⟩ 0x100 (⟨0x1234, 0x2000⟩ : Rv64.PtRegs) [()] rfl
    (by decide) (List.Sublist.refl _)⟩
  have h2 := h1.next ⟨_, step_goOn rfl rfl nofun⟩
  have h3 := h2.next ⟨_, step_goOn rfl rfl fun _ _ => rfl⟩
  have h4 := h3.next ⟨_, step_goOn rfl rfl nofun⟩
  have h5 := h4.next ⟨_, step_goOn rfl rfl nofun⟩
  have h6 := h5.next ⟨_, .unlinkBreak () rfl⟩
  have h7 := h6.next ⟨_, .unlinkDebug () rfl⟩
  have h8 := h7.next ⟨_, .dropHandle () rfl⟩
  have h9 := h8.next ⟨_, step_goOn rfl rfl nofun⟩
  exact ⟨_, h9, rfl, rfl, .goOn [] [] callReturning (.error .retprobeDropped) rfl rfl nofun⟩

end ExtKtrace.Kprobe.Rethook
