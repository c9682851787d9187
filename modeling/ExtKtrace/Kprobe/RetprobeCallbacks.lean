import Std.Data.TreeMap
import ExtKtrace.Lib.Past
import ExtKtrace.Kprobe.Arch
import ExtKtrace.Kprobe.RetprobeLifetime

/-!
# The callbacks of a return probe

Event callbacks are given to the builder of a kretprobe and registered on the kretprobe itself,
under ids. A return runs those that the table of the kretprobe has when the trampoline looks.
-/

namespace ExtKtrace.Kprobe.Rethook.Callbacks
set_option autoImplicit false

open Machine

abbrev CallbackMap (V : Type) := Std.TreeMap UInt32 V

-- `H` are the functions behind a `ProbeHandler`, `C` the values of `Arc<dyn CallBackFunc>`.
section Register
variable {H C P : Type}

/-- `RetprobeBuilder`; the user data is told apart by number in the pool. -/
structure RetprobeBuilder (H : Type) where
  symbol : Option String
  enable : Bool
  symbolAddr : UInt64
  maxactive : UInt32
  retHandler : Option H
  entryHandler : Option H
  eventCallbacks : CallbackMap H

/-- `ProbeBuilder` as it is made for a kretprobe. Its pre handler is `pre_handler_kretprobe`,
and it has no other one. -/
structure ProbeBuilder (C P : Type) where
  symbol : Option String
  symbolAddr : UInt64
  offset : UInt64
  eventCallbacks : CallbackMap C
  enable : Bool
  data : Pool P

structure ProbeBasic (C P : Type) where
  symbol : Option String
  symbolAddr : UInt64
  offset : UInt64
  eventCallbacks : CallbackMap C
  enable : Bool
  data : Pool P

/-- `Retprobe`; the counter of misses is kept with the pool. -/
structure Retprobe (H C P : Type) where
  kprobe : ProbeBasic C P
  entryHandler : Option H
  retHandler : Option H
  eventCallbacks : CallbackMap C

namespace RetprobeBuilder

def new (maxactive : UInt32) : RetprobeBuilder H where
  symbol := none
  symbolAddr := 0
  maxactive := maxactive
  retHandler := none
  entryHandler := none
  enable := false
  eventCallbacks := ∅

variable (b : RetprobeBuilder H)

def withEnable (enable : Bool) : RetprobeBuilder H := { b with enable }

def withSymbolAddr (symbolAddr : UInt64) : RetprobeBuilder H := { b with symbolAddr }

def withSymbol (symbol : String) : RetprobeBuilder H := { b with symbol := some symbol }

def withEventCallback (callbackId : UInt32) (eventCallback : H) : RetprobeBuilder H :=
  { b with eventCallbacks := b.eventCallbacks.insert callbackId eventCallback }

def withRetHandler (func : H) : RetprobeBuilder H := { b with retHandler := some func }

def withEntryHandler (func : H) : RetprobeBuilder H := { b with entryHandler := some func }

def handler : Option H × Option H := (b.entryHandler, b.retHandler)

def toProbeBuilder : ProbeBuilder C P where
  symbol := b.symbol
  symbolAddr := b.symbolAddr
  offset := 0
  eventCallbacks := ∅
  enable := b.enable
  data := newPool P b.maxactive

end RetprobeBuilder

def ProbeBuilder.basic (b : ProbeBuilder C P) : ProbeBasic C P where
  symbol := b.symbol
  symbolAddr := b.symbolAddr
  offset := b.offset
  eventCallbacks := b.eventCallbacks
  enable := b.enable
  data := b.data

namespace Retprobe

def new (kprobe : ProbeBasic C P) (entryHandler retHandler : Option H) : Retprobe H C P where
  kprobe := kprobe
  eventCallbacks := ∅
  entryHandler := entryHandler
  retHandler := retHandler

variable (r : Retprobe H C P)

def registerEventCallback (callbackId : UInt32) (callback : C) : Retprobe H C P :=
  { r with eventCallbacks := r.eventCallbacks.insert callbackId callback }

def unregisterEventCallback (callbackId : UInt32) : Retprobe H C P :=
  { r with eventCallbacks := r.eventCallbacks.erase callbackId }

end Retprobe

/-- `register_kretprobe`; `installed` is what comes of `__register_kprobe`. -/
def registerKretprobe (installed : Except ProbeInstallError Unit)
    (kretprobeBuilder : RetprobeBuilder H) : Except ProbeInstallError (Retprobe H C P) := do
  let (entryHandler, retHandler) := kretprobeBuilder.handler
  let kprobeBuilder := kretprobeBuilder.toProbeBuilder
  installed
  return Retprobe.new kprobeBuilder.basic entryHandler retHandler

inductive Callback (H C : Type) where
  | given (handler : H)
  | registered (callback : C)

inductive Config (C : Type) where
  | register (callbackId : UInt32) (callback : C)
  | unregister (callbackId : UInt32)

def Config.callbackId : Config C → UInt32
  | .register id _ => id
  | .unregister id => id

def Config.callback : Config C → Option C
  | .register _ c => some c
  | .unregister _ => none

/-- The callback has been given to the builder or registered later, and the id has been neither
registered again nor unregistered since. -/
inductive Configured (b : RetprobeBuilder H) (since : List (Config C)) (id : UInt32) :
    Callback H C → Prop
  | given (handler : H) (hgiven : b.eventCallbacks[id]? = some handler)
      (hsince : ∀ x ∈ since, x.callbackId ≠ id) : Configured b since id (.given handler)
  | registered (callback : C)
      (hlast : Past.Latest Config.callbackId Config.callback id callback since) :
      Configured b since id (.registered callback)

def Follows (table : CallbackMap C) (since : List (Config C)) : Prop :=
  ∀ id c, table[id]? = some c ↔ Past.Latest Config.callbackId Config.callback id c since

theorem follows_new : Follows (∅ : CallbackMap C) [] := by
  intro id c
  rw [Std.TreeMap.getElem?_emptyc]
  exact iff_of_false (Option.some_ne_none c).symm Past.not_latest_nil

variable {table : CallbackMap C} {since : List (Config C)}

theorem Follows.register (h : Follows table since) (id : UInt32) (c : C) :
    Follows (table.insert id c) (since ++ [.register id c]) := by
  intro id' c'
  rw [Past.latest_concat, Std.TreeMap.getElem?_insert, ← h id' c']
  by_cases hid : id = id'
  · rw [if_pos (by simpa using hid)]
    simp [Config.callbackId, Config.callback, hid]
  · rw [if_neg (by simpa using hid)]
    simp [Config.callbackId, hid]

theorem Follows.unregister (h : Follows table since) (id : UInt32) :
    Follows (table.erase id) (since ++ [.unregister id]) := by
  intro id' c'
  rw [Past.latest_concat, Std.TreeMap.getElem?_erase, ← h id' c']
  by_cases hid : id = id'
  · rw [if_pos (by simpa using hid)]
    simp [Config.callbackId, Config.callback, hid]
  · rw [if_neg (by simpa using hid)]
    simp [Config.callbackId, hid]

end Register

section Returns
variable {P H C : Type}

inductive Call (H C : Type) where
  | retHandler (handler : H)
  | callback (cb : Callback H C)

/-- How far `rethook_trampoline_handler` is with an instance. -/
inductive Progress (C : Type) where
  /-- The instance has been popped, and its kretprobe is there. -/
  | popped
  | handled
  /-- The callbacks have been copied out of the table, and these are to be called. -/
  | calling (todo : List C)
  | recycled

/-- A return that has gone into the trampoline. -/
structure Return (P H C : Type) where
  probe : P
  /-- The task that returns, and the number of its calls that are around this one. -/
  task : Nat
  depth : Nat
  progress : Progress C
  /-- The calls made, in their order; the source does not keep this. -/
  called : List (Call H C)
  /-- The calls on the kretprobe by the time that its callbacks were copied; the source does not
  keep this. -/
  since : List (Config C)

def callRetHandler (retHandler : Option H) : List (Call H C) := retHandler.toList.map .retHandler

def Return.advance (retprobe : Retprobe H C P) (since : List (Config C)) (r : Return P H C) :
    Option (Return P H C) :=
  match r.progress with
  | .popped =>
    some { r with progress := .handled, called := r.called ++ callRetHandler retprobe.retHandler }
  | .handled =>
    some { r with
      progress := .calling (retprobe.eventCallbacks.toList.map Prod.snd), since }
  | .calling (callback :: todo) =>
    some { r with
      progress := .calling todo, called := r.called ++ [.callback (.registered callback)] }
  | .calling [] => none
  | .recycled => none

theorem Return.probe_advance {retprobe : Retprobe H C P} {since : List (Config C)}
    {r r' : Return P H C} (h : r.advance retprobe since = some r') : r'.probe = r.probe := by
  unfold Return.advance at h
  split at h <;> cases h <;> rfl

/-- The return handler has run and then, once each, every callback that is configured. -/
def RunsAll (b : RetprobeBuilder H) (since : List (Config C)) (calls : List (Call H C)) : Prop :=
  ∃ configured : List (UInt32 × Callback H C), (configured.map Prod.fst).Nodup ∧
    (∀ id cb, (id, cb) ∈ configured ↔ Configured b since id cb) ∧
    calls = callRetHandler b.retHandler ++ configured.map fun e => .callback e.2

structure Copied (since : List (Config C)) (entries : List (UInt32 × C)) : Prop where
  nodup : (entries.map Prod.fst).Nodup
  mem : ∀ id c, (id, c) ∈ entries ↔ Past.Latest Config.callbackId Config.callback id c since

theorem copied_toList {table : CallbackMap C} {since : List (Config C)} (h : Follows table since) :
    Copied since table.toList where
  nodup := by
    rw [Std.TreeMap.map_fst_toList_eq_keys]
    exact Std.TreeMap.nodup_keys
  mem id c := Std.TreeMap.mem_toList_iff_getElem?_eq_some.trans (h id c)

/-- The callbacks have been copied, and all but these have been called. -/
def HasCalled (retHandler : Option H) (r : Return P H C) (todo : List C) : Prop :=
  ∃ entries done, Copied r.since entries ∧ entries.map Prod.snd = done ++ todo ∧
    r.called = callRetHandler retHandler ++ done.map fun c => .callback (.registered c)

def Return.Sound (retHandler : Option H) (r : Return P H C) : Prop :=
  match r.progress with
  | .popped => r.called = []
  | .handled => r.called = callRetHandler retHandler
  | .calling todo => HasCalled retHandler r todo
  | .recycled => HasCalled retHandler r []

theorem Return.Sound.advance {retprobe : Retprobe H C P} {since : List (Config C)}
    (htable : Follows retprobe.eventCallbacks since) {r r' : Return P H C}
    (h : r.Sound retprobe.retHandler) (hadvance : r.advance retprobe since = some r') :
    r'.Sound retprobe.retHandler := by
  obtain ⟨probe, task, depth, progress, called, before⟩ := r
  cases progress with
  | popped =>
    cases hadvance
    have hcalled : called = [] := h
    rw [hcalled]
    exact List.nil_append _
  | handled =>
    cases hadvance
    have hcalled : called = callRetHandler retprobe.retHandler := h
    exact ⟨_, [], copied_toList htable, (List.nil_append _).symm,
      hcalled.trans (List.append_nil _).symm⟩
  | calling todo =>
    cases todo with
    | nil => cases hadvance
    | cons callback todo =>
      cases hadvance
      obtain ⟨entries, done, hcopied, hsplit, hcalled⟩ := h
      refine ⟨entries, done ++ [callback], hcopied, ?_, ?_⟩
      · rw [hsplit, List.append_assoc, List.singleton_append]
      · have hsofar : called = _ := hcalled
        rw [List.map_append, ← List.append_assoc, ← hsofar]
        rfl
  | recycled => cases hadvance

/-- Only what has been registered is called, so that nothing of the builder may be configured. -/
theorem runsAll_iff {b : RetprobeBuilder H} {r : Return P H C} (h : HasCalled b.retHandler r []) :
    RunsAll b r.since r.called ↔
      ∀ id ∈ b.eventCallbacks, ∃ x ∈ r.since, x.callbackId = id := by
  obtain ⟨entries, done, hcopied, hsplit, hcalled⟩ := h
  rw [List.append_nil] at hsplit
  subst hsplit
  constructor
  · rintro ⟨configured, -, hmem, hruns⟩ id hid
    by_contra hsince
    push Not at hsince
    -- the callback of the builder is still configured, and would have to be among the calls
    have hgiven := Configured.given _ (Std.TreeMap.getElem?_eq_some_getElem hid) hsince
    rw [hcalled] at hruns
    have hcalls := List.append_cancel_left hruns
    have hcall := List.mem_map_of_mem (f := fun e => Call.callback e.2) ((hmem id _).mpr hgiven)
    rw [← hcalls] at hcall
    obtain ⟨c, -, heq⟩ := List.mem_map.mp hcall
    cases heq
  · intro hnone
    refine ⟨entries.map fun e => (e.1, .registered e.2), ?_, ?_, ?_⟩
    · rw [List.map_map]
      exact hcopied.nodup
    · intro id cb
      constructor
      · intro hmem
        obtain ⟨e, he, heq⟩ := List.mem_map.mp hmem
        cases heq
        exact .registered e.2 ((hcopied.mem e.1 e.2).mp he)
      · intro hconfigured
        cases hconfigured with
        | given handler hgiven hsince =>
          obtain ⟨x, hx, hid⟩ := hnone id (Std.TreeMap.mem_iff_isSome_getElem?.mpr (by simp [hgiven]))
          exact absurd hid (hsince x hx)
        | registered c hlast =>
          exact List.mem_map.mpr ⟨(id, c), (hcopied.mem id c).mpr hlast, rfl⟩
    · rw [hcalled, List.map_map, List.map_map]
      rfl

end Returns

section Runs
variable {A : Arch} {P H C : Type}

structure State (A : Arch) (P H C : Type) where
  rethook : Rethook.State A P
  probes : P → Retprobe H C P
  /-- The calls on the kretprobes, the oldest first; the source does not keep this. -/
  since : P → List (Config C)
  /-- The returns so far; the source does not keep this. -/
  returns : List (Return P H C)

structure Init (sys : System P) (builders : P → RetprobeBuilder H) (s : State A P H C) : Prop where
  rethook : Rethook.Init sys s.rethook
  maxactive : ∀ p, sys.maxactive p = (builders p).maxactive
  probes : ∀ p, registerKretprobe (.ok ()) (builders p) = .ok (s.probes p)
  since : ∀ p, s.since p = []
  returns : s.returns = []

structure State.Sound (builders : P → RetprobeBuilder H) (s : State A P H C) : Prop where
  table : ∀ p, Follows (s.probes p).eventCallbacks (s.since p)
  retHandler : ∀ p, (s.probes p).retHandler = (builders p).retHandler
  returns : ∀ r ∈ s.returns, r.Sound (builders r.probe).retHandler

variable {sys : System P} {builders : P → RetprobeBuilder H} {s s' : State A P H C}

theorem sound_of_init (h : Init sys builders s) : s.Sound builders where
  table p := by
    rw [← Except.ok.inj (h.probes p), h.since p]
    exact follows_new
  retHandler p := by
    rw [← Except.ok.inj (h.probes p)]
    rfl
  returns r hr := by
    rw [h.returns] at hr
    cases hr

theorem State.Sound.replace (h : s.Sound builders) {before after : List (Return P H C)}
    {r r' : Return P H C} (hreturns : s.returns = before ++ r :: after)
    (hr' : r.Sound (builders r.probe).retHandler → r'.Sound (builders r'.probe).retHandler)
    (rethook : Rethook.State A P) :
    State.Sound builders { s with rethook, returns := before ++ r' :: after } where
  table := h.table
  retHandler := h.retHandler
  returns q hq := by
    have hold := h.returns
    rw [hreturns] at hold
    rcases List.mem_append.mp hq with hbefore | hrest
    · exact hold q (List.mem_append_left _ hbefore)
    · rcases List.mem_cons.mp hrest with rfl | hafter
      · exact hr' (hold r (List.mem_append_right _ List.mem_cons_self))
      · exact hold q (List.mem_append_right _ (List.mem_cons_of_mem _ hafter))

/-- The returns that a task is in the trampoline with. -/
def inTrampoline : List (Frame A P) → List (P × Nat)
  | [] => []
  | .trampoline _ _ p :: rest => (p, rest.length) :: inTrampoline rest
  | _ :: rest => inTrampoline rest

/-- The task of a return is in its handlers, and in no call that these have made. -/
def State.Running (s : State A P H C) (r : Return P H C) : Prop :=
  ∃ t a inst rest, s.rethook.tasks[r.task]? = some t ∧
    t.control = .trampoline a inst r.probe :: rest ∧ rest.length = r.depth

variable [DecidableEq P]

/-- A step. Callbacks may be registered and unregistered at any moment, also by a handler. -/
inductive Step (sys : System P) (s : State A P H C) : State A P H C → Prop
  /-- A step of return probes that is neither into a trampoline nor out of one. -/
  | elsewhere (e : Event P) (rethook : Rethook.State A P)
      (hstep : Rethook.Step sys s.rethook e (.ok rethook))
      (hreturns : (rethook.tasks.map fun t => inTrampoline t.control) =
        s.rethook.tasks.map fun t => inTrampoline t.control) :
      Step sys s { s with rethook }
  | enter (pre post : List (Task A P)) (t : Task A P) (a a' : Activation A P)
      (inst : RetprobeInstance P) (p : P) (rest : List (Frame A P)) (pools : P → Pool P)
      (instances : List (RetprobeInstance P)) (htasks : s.rethook.tasks = pre ++ t :: post)
      (hcontrol : t.control = .leaving a :: rest)
      (hrun : goOn s.rethook.alive s.rethook.pools t =
        some (.ok (pools, ⟨.trampoline a' inst p :: rest, instances⟩))) :
      Step sys s { s with
        rethook := { s.rethook with
          pools, tasks := pre ++ ⟨.trampoline a' inst p :: rest, instances⟩ :: post }
        returns := s.returns ++ [⟨p, pre.length, rest.length, .popped, [], []⟩] }
  | handlers (before after : List (Return P H C)) (r r' : Return P H C)
      (hreturns : s.returns = before ++ r :: after) (hrunning : s.Running r)
      (hadvance : r.advance (s.probes r.probe) (s.since r.probe) = some r') :
      Step sys s { s with returns := before ++ r' :: after }
  | leave (pre post : List (Task A P)) (t t' : Task A P) (pools : P → Pool P)
      (before after : List (Return P H C)) (r : Return P H C)
      (hreturns : s.returns = before ++ r :: after) (hrunning : s.Running r)
      (hprogress : r.progress = .calling []) (htasks : s.rethook.tasks = pre ++ t :: post)
      (htask : r.task = pre.length)
      (hrun : goOn s.rethook.alive s.rethook.pools t = some (.ok (pools, t'))) :
      Step sys s { s with
        rethook := { s.rethook with pools, tasks := pre ++ t' :: post }
        returns := before ++ { r with progress := .recycled } :: after }
  | register (p : P) (callbackId : UInt32) (callback : C) :
      Step sys s { s with
        probes := Function.update s.probes p
          ((s.probes p).registerEventCallback callbackId callback)
        since := Function.update s.since p (s.since p ++ [.register callbackId callback]) }
  | unregister (p : P) (callbackId : UInt32) :
      Step sys s { s with
        probes := Function.update s.probes p ((s.probes p).unregisterEventCallback callbackId)
        since := Function.update s.since p (s.since p ++ [.unregister callbackId]) }

theorem State.Sound.configure (h : s.Sound builders) (p : P) {retprobe : Retprobe H C P}
    {since : List (Config C)} (htable : Follows retprobe.eventCallbacks since)
    (hret : retprobe.retHandler = (s.probes p).retHandler) :
    State.Sound builders { s with
      probes := Function.update s.probes p retprobe
      since := Function.update s.since p since } where
  table q := by
    by_cases hq : q = p
    · subst hq
      simpa only [Function.update_self] using htable
    · simpa only [Function.update_of_ne hq] using h.table q
  retHandler q := by
    by_cases hq : q = p
    · subst hq
      simpa only [Function.update_self] using hret.trans (h.retHandler q)
    · simpa only [Function.update_of_ne hq] using h.retHandler q
  returns := h.returns

theorem sound_of_step (h : s.Sound builders) (hstep : Step sys s s') : s'.Sound builders := by
  cases hstep with
  | elsewhere e rethook => exact ⟨h.table, h.retHandler, h.returns⟩
  | enter pre post t a a' inst p rest =>
    refine ⟨h.table, h.retHandler, fun r hr => ?_⟩
    rcases List.mem_append.mp hr with hold | hnew
    · exact h.returns r hold
    · cases List.mem_singleton.mp hnew
      rfl
  | handlers before after r r' hreturns _ hadvance =>
    refine h.replace hreturns (fun hr => ?_) s.rethook
    rw [← h.retHandler] at hr
    rw [Return.probe_advance hadvance, ← h.retHandler]
    exact hr.advance (h.table r.probe) hadvance
  | leave pre post t t' pools before after r hreturns _ hprogress =>
    refine h.replace hreturns (fun hr => ?_) _
    unfold Return.Sound at hr
    rw [hprogress] at hr
    exact hr
  | register p callbackId callback =>
    exact h.configure p ((h.table p).register callbackId callback) rfl
  | unregister p callbackId => exact h.configure p ((h.table p).unregister callbackId) rfl

theorem hasCalled_of_recycled (hreach : Reachable (Init sys builders) (Step sys) s)
    {r : Return P H C} (hr : r ∈ s.returns) (hrecycled : r.progress = .recycled) :
    HasCalled (builders r.probe).retHandler r [] := by
  have hsound : s.Sound builders :=
    hreach.invariant (fun _ => sound_of_init) fun _ _ => sound_of_step
  have hcalled := hsound.returns r hr
  unfold Return.Sound at hcalled
  rwa [hrecycled] at hcalled

/-- In every run, whenever callbacks are registered and unregistered: a return that has gone
through the trampoline has run what was configured then, exactly when each id given to the builder
had been registered anew or unregistered by that time. -/
theorem callbacks_all_run_iff (sys : System P) (builders : P → RetprobeBuilder H)
    {s : State A P H C} (hreach : Reachable (Init sys builders) (Step sys) s)
    {r : Return P H C} (hr : r ∈ s.returns) (hrecycled : r.progress = .recycled) :
    RunsAll (builders r.probe) r.since r.called ↔
      ∀ id ∈ (builders r.probe).eventCallbacks, ∃ x ∈ r.since, x.callbackId = id :=
  runsAll_iff (hasCalled_of_recycled hreach hr hrecycled)

theorem Reachable.advance (hreach : Reachable (Init sys builders) (Step sys) s)
    {before after : List (Return P H C)} {r r' : Return P H C}
    (hreturns : s.returns = before ++ r :: after) (hrunning : s.Running r)
    (hadvance : r.advance (s.probes r.probe) (s.since r.probe) = some r') :
    Reachable (Init sys builders) (Step sys) { s with returns := before ++ r' :: after } :=
  hreach.next (.handlers before after r r' hreturns hrunning hadvance)

theorem callbacks_finish (todo : List C) (hreach : Reachable (Init sys builders) (Step sys) s)
    {before after : List (Return P H C)} {r : Return P H C}
    (hreturns : s.returns = before ++ r :: after) (hrunning : s.Running r)
    (hprogress : r.progress = .calling todo) :
    ∃ called, Reachable (Init sys builders) (Step sys)
      { s with returns := before ++ { r with progress := .calling [], called } :: after } := by
  induction todo generalizing s r with
  | nil =>
    refine ⟨r.called, ?_⟩
    rw [← hprogress]
    have hsame : { s with returns := before ++ r :: after } = s := by rw [← hreturns]
    exact hsame ▸ hreach
  | cons callback todo ih =>
    let next : Return P H C := { r with
      progress := .calling todo, called := r.called ++ [.callback (.registered callback)] }
    have hadvance : r.advance (s.probes r.probe) (s.since r.probe) = some next := by
      unfold Return.advance
      rw [hprogress]
    exact @ih _ (Reachable.advance hreach hreturns hrunning hadvance) next rfl hrunning rfl

/-- Left alone, a return that has come to its trampoline runs its handlers to the end. -/
theorem handlers_finish (hreach : Reachable (Init sys builders) (Step sys) s)
    {before after : List (Return P H C)} {r : Return P H C}
    (hreturns : s.returns = before ++ r :: after) (hrunning : s.Running r)
    (hprogress : r.progress = .popped) :
    ∃ called, Reachable (Init sys builders) (Step sys) { s with
      returns := before ++
        { r with progress := .calling [], since := s.since r.probe, called } :: after } := by
  obtain ⟨probe, task, depth, progress, called, since⟩ := r
  cases hprogress
  have hhandled := Reachable.advance hreach hreturns hrunning rfl
  have hcopied := Reachable.advance hhandled rfl hrunning rfl
  exact callbacks_finish _ hcopied rfl hrunning rfl

end Runs

section OneCall
variable {b : RetprobeBuilder Unit}

def started (b : RetprobeBuilder Unit) : State (Rv64.arch TRAMPOLINE) Unit Unit Unit where
  rethook := oneCaller 0
  probes _ := Retprobe.new b.toProbeBuilder.basic b.entryHandler b.retHandler
  since _ := []
  returns := []

theorem init_started (h : b.maxactive = 1) : Init oneProbe (fun _ => b) (started b) where
  rethook := init_oneCaller 0
  maxactive _ := h.symm
  probes _ := rfl
  since _ := rfl
  returns := rfl

/-- A call of the probed function may come back at any time. -/
theorem one_return {s : State (Rv64.arch TRAMPOLINE) Unit Unit Unit}
    (hreach : Reachable (Init oneProbe fun _ => b) (Step oneProbe) s)
    (hrethook : s.rethook = oneCaller 0) :
    ∃ s' : State (Rv64.arch TRAMPOLINE) Unit Unit Unit,
      Reachable (Init oneProbe fun _ => b) (Step oneProbe) s' ∧
      ∃ r ∈ s'.returns, r.progress = .recycled ∧ r.since = s.since () := by
  obtain ⟨rethook, probes, since, returns⟩ := s
  cases hrethook
  have h1 := hreach.next (.elsewhere .task _ (.call [] [] ⟨[], []⟩ 0x100
    (⟨0x1234, 0x2000⟩ : Rv64.PtRegs) [()] rfl (by decide) (List.Sublist.refl _)) rfl)
  have h2 := h1.next (.elsewhere .task _ (step_goOn rfl rfl nofun) rfl)
  have h3 := h2.next (.elsewhere .task _ (step_goOn rfl rfl fun _ _ => rfl) rfl)
  have h4 := h3.next (.elsewhere .task _ (step_goOn rfl rfl nofun) rfl)
  have h5 := h4.next (.elsewhere .task _ (step_goOn rfl rfl nofun) rfl)
  have h6 := h5.next (.elsewhere .task _ (step_goOn rfl rfl nofun) rfl)
  have h7 := h6.next (.enter [] [] _ _ _ _ () [] _ _ rfl rfl rfl)
  obtain ⟨called, h8⟩ := handlers_finish h7 rfl ⟨_, _, _, _, rfl, rfl, rfl⟩ rfl
  have h9 := h8.next (.leave [] [] _ _ _ _ _ _ rfl ⟨_, _, _, _, rfl, rfl, rfl⟩ rfl rfl rfl rfl)
  exact ⟨_, h9, _, List.mem_append_right _ List.mem_cons_self, rfl, rfl⟩

def sevenGiven : RetprobeBuilder Unit :=
  ((RetprobeBuilder.new 1).withSymbolAddr 0x100).withEventCallback 7 ()

theorem mem_sevenGiven {id : UInt32} : id ∈ sevenGiven.eventCallbacks ↔ id = 7 := by
  have h : id ∈ (∅ : CallbackMap Unit).insert 7 () ↔ compare 7 id = .eq := by simp
  exact h.trans (Std.LawfulEqCmp.compare_eq_iff_eq.trans eq_comm)

theorem registered_anew_runs :
    ∃ s : State (Rv64.arch TRAMPOLINE) Unit Unit Unit, ∃ r ∈ s.returns,
      r.since = [.register 7 ()] ∧ RunsAll sevenGiven r.since r.called := by
  have hstart : Reachable _ (Step oneProbe) _ := .start (init_started (b := sevenGiven) rfl)
  obtain ⟨s, hreach, r, hr, hrecycled, hsince⟩ := one_return (hstart.next (.register () 7 ())) rfl
  refine ⟨s, r, hr, hsince, ?_⟩
  apply (callbacks_all_run_iff oneProbe (fun _ => sevenGiven) hreach hr hrecycled).mpr
  intro id hid
  rw [hsince]
  exact ⟨.register 7 (), List.mem_cons_self, (mem_sevenGiven.mp hid).symm⟩

theorem given_callback_lost :
    ∃ s : State (Rv64.arch TRAMPOLINE) Unit Unit Unit,
      Reachable (Init oneProbe fun _ => sevenGiven) (Step oneProbe) s ∧
      ∃ r ∈ s.returns, r.progress = .recycled ∧ r.since = [] ∧
        ¬ RunsAll sevenGiven r.since r.called := by
  have hstart : Reachable _ (Step oneProbe) _ := .start (init_started (b := sevenGiven) rfl)
  obtain ⟨s, hreach, r, hr, hrecycled, hsince⟩ := one_return hstart rfl
  refine ⟨s, hreach, r, hr, hrecycled, hsince, fun hruns => ?_⟩
  have hoverridden := (runsAll_iff (hasCalled_of_recycled hreach hr hrecycled)).mp hruns
  obtain ⟨x, hx, -⟩ := hoverridden 7 (mem_sevenGiven.mpr rfl)
  rw [hsince] at hx
  cases hx

end OneCall

end ExtKtrace.Kprobe.Rethook.Callbacks
