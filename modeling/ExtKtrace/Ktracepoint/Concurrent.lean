import ExtKtrace.Lib.Machine
import ExtKtrace.Ktracepoint.Point

/-!
# Hits and changes at the same time

A thread that hits a tracepoint looks at the key without any lock, then holds the read lock of the
runtime state while it calls the callbacks one by one. A change holds the write lock while it edits the
list and then switches the key. Both go on for a while without a lock before they return. Every
interleaving of these is gone through.
-/

namespace ExtKtrace.Ktracepoint.Concurrent
set_option autoImplicit false

open Callbacks (Op)
open Ddebug (RawStaticFalseKey)
open Past (Since)

variable {θ κ : Type} {F : RawStaticFalseKey κ}

/-- Where a thread is. -/
inductive Pc where
  | idle
  | testing
  | waiting
  | calling (done todo : List TraceCallbackType)
  | leaving (done : List TraceCallbackType)
  | asking (op : Op)
  | listing (op : Op)
  | keying (op : Op)
  | releasing (op : Op)
  | answering (op : Op)

/-- The thread holds the read lock. -/
def Pc.Reads : Pc → Prop
  | .calling _ _ => True
  | _ => False

/-- The thread holds the write lock. -/
def Pc.Writes : Pc → Prop
  | .listing _ | .keying _ | .releasing _ => True
  | _ => False

/-- What the hit that the thread is in has called so far. -/
def Pc.called : Pc → Option (List TraceCallbackType)
  | .testing | .waiting => some []
  | .calling done _ | .leaving done => some done
  | _ => none

/-- A change takes effect when it is in the list and in the key, and returns later. -/
inductive Event (θ : Type) where
  | begun (thread : θ)
  | called (thread : θ) (callback : TraceCallbackType)
  | returned (thread : θ) (callbacks : List TraceCallbackType)
  | asked (thread : θ) (op : Op)
  | changed (thread : θ) (op : Op)
  | answered (thread : θ) (op : Op)

def Event.thread : Event θ → θ
  | .begun i | .called i _ | .returned i _ | .asked i _ | .changed i _ | .answered i _ => i

/-- The last that others have seen of a thread in a change. -/
def Pc.last (i : θ) : Pc → Option (Event θ)
  | .asking op | .listing op | .keying op => some (.asked i op)
  | .releasing op | .answering op => some (.changed i op)
  | _ => none

structure State (θ κ : Type) where
  ext : ExtTracePointState κ
  pc : θ → Pc
  history : List (Event θ)

/-- The list is edited. -/
def editList (op : Op) (ext : ExtTracePointState κ) : ExtTracePointState κ :=
  match op.adds ext.defaultCallback, op.removes ext.defaultCallback with
  | some callback, _ =>
    if ext.callbacks.any (· = callback) then ext
    else { ext with callbacks := ext.callbacks ++ [callback] }
  | none, some callback => { ext with callbacks := ext.callbacks.filter (· ≠ callback) }
  | none, none => ext

/-- The key is switched. -/
def switchKey (F : RawStaticFalseKey κ) (op : Op) (ext : ExtTracePointState κ) :
    ExtTracePointState κ :=
  match op.adds ext.defaultCallback, op.removes ext.defaultCallback with
  | some _, _ => if ext.callbacks.isEmpty then ext else ext.enableKey F
  | none, some _ => if ext.callbacks.isEmpty then ext.disableKey F else ext
  | none, none => ext

theorem defaultCallback_editList (op : Op) (ext : ExtTracePointState κ) :
    (editList op ext).defaultCallback = ext.defaultCallback := by
  unfold editList
  split
  · split <;> rfl
  · rfl
  · rfl

theorem tracepoint_editList (op : Op) (ext : ExtTracePointState κ) :
    (editList op ext).tracepoint = ext.tracepoint := by
  unfold editList
  split
  · split <;> rfl
  · rfl
  · rfl

theorem callbacks_editList (op : Op) (ext : ExtTracePointState κ) :
    (editList op ext).callbacks = op.listed ext.defaultCallback ext.callbacks := by
  unfold editList Op.listed
  rcases op.adds ext.defaultCallback with _ | added
  · rcases op.removes ext.defaultCallback with _ | removed
    · rfl
    · rfl
  · dsimp only
    unfold Callbacks.subscribe
    by_cases hmem : added ∈ ext.callbacks
    · rw [if_pos (by simpa using hmem), if_pos hmem]
    · rw [if_neg (by simpa using hmem), if_neg hmem]

theorem callbacks_switchKey (op : Op) (ext : ExtTracePointState κ) :
    (switchKey F op ext).callbacks = ext.callbacks ∧
      (switchKey F op ext).defaultCallback = ext.defaultCallback := by
  unfold switchKey
  split
  · split <;> exact ⟨rfl, rfl⟩
  · split <;> exact ⟨rfl, rfl⟩
  · exact ⟨rfl, rfl⟩

/-- A key that was in step with the list before a change is in step with it after. -/
theorem inStep_switchKey {op : Op} {ext : ExtTracePointState κ} {l : List TraceCallbackType}
    (hkey : ext.tracepoint.keyIsEnabled F = true ↔ l ≠ [])
    (hlist : ext.callbacks = op.listed ext.defaultCallback l) :
    Callbacks.InStep F (switchKey F op ext) := by
  unfold switchKey
  rcases hadds : op.adds ext.defaultCallback with _ | added
  · rcases hremoves : op.removes ext.defaultCallback with _ | removed
    · rw [Op.listed, hadds, hremoves] at hlist
      dsimp only at hlist ⊢
      rw [Callbacks.InStep, hlist]
      exact hkey
    · rw [Op.listed, hadds, hremoves] at hlist
      dsimp only at hlist ⊢
      split
      · rename_i hempty
        refine iff_of_false ?_ (fun hne => hne (List.isEmpty_iff.mp hempty))
        exact fun hon => absurd (hon.symm.trans (F.isEnabled_disable _)) (by decide)
      · rename_i hsome
        have hne : ext.callbacks ≠ [] := fun hnil => hsome (List.isEmpty_iff.mpr hnil)
        have hold : l ≠ [] := by
          rintro rfl
          exact hne hlist
        exact iff_of_true (hkey.mpr hold) hne
  · rw [Op.listed, hadds] at hlist
    dsimp only at hlist ⊢
    have hne : ext.callbacks ≠ [] := hlist ▸ Callbacks.subscribe_ne_nil added l
    rw [if_neg fun hempty => hne (List.isEmpty_iff.mp hempty)]
    exact iff_of_true (F.isEnabled_enable _) hne

/-- A change is its two halves. -/
theorem step_eq (op : Op) (ext : ExtTracePointState κ) :
    Callbacks.step F ext op = switchKey F op (editList op ext) := by
  unfold switchKey
  rw [defaultCallback_editList]
  unfold editList
  cases op with
  | register callback => rfl
  | unregister callback => rfl
  | enableFile enable =>
    unfold Callbacks.step TracePointEnableFile.write Op.adds Op.removes
    dsimp only
    split
    · rfl
    split
    · rfl
    · rfl

/-- The list that the changes so far have come to. -/
def listed (defaultCallback : ArcPtr) (history : List (Event θ)) : List TraceCallbackType :=
  history.foldl
    (fun l e => match e with
      | .changed _ op => op.listed defaultCallback l
      | _ => l) []

theorem listed_concat {defaultCallback : ArcPtr} (history : List (Event θ)) (e : Event θ) :
    listed defaultCallback (history ++ [e]) =
      match e with
      | .changed _ op => op.listed defaultCallback (listed defaultCallback history)
      | _ => listed defaultCallback history := List.foldl_concat ..

section Steps
variable [DecidableEq θ]

/-- A thread goes on, and others can see what it has done. -/
def State.go (i : θ) (pc : Pc) (events : List (Event θ)) (s : State θ κ) : State θ κ :=
  { s with pc := Function.update s.pc i pc, history := s.history ++ events }

def State.setExt (ext : ExtTracePointState κ) (s : State θ κ) : State θ κ := { s with ext := ext }

inductive Step (F : RawStaticFalseKey κ) : State θ κ → State θ κ → Prop where
  | hit {s : State θ κ} (i : θ) (hpc : s.pc i = .idle) : Step F s (s.go i .testing [.begun i])
  | unlikely {s : State θ κ} (i : θ) (hpc : s.pc i = .testing)
    (hkey : s.ext.tracepoint.keyIsEnabled F = false) : Step F s (s.go i (.leaving []) [])
  | likely {s : State θ κ} (i : θ) (hpc : s.pc i = .testing)
    (hkey : s.ext.tracepoint.keyIsEnabled F = true) : Step F s (s.go i .waiting [])
  | read {s : State θ κ} (i : θ) (hpc : s.pc i = .waiting) (hfree : ∀ j, ¬ (s.pc j).Writes) :
    Step F s (s.go i (.calling [] s.ext.callbacks) [])
  | call {s : State θ κ} (i : θ) {callback : TraceCallbackType} {done todo : List TraceCallbackType}
    (hpc : s.pc i = .calling done (callback :: todo)) :
    Step F s (s.go i (.calling (done ++ [callback]) todo) [.called i callback])
  | unlock {s : State θ κ} (i : θ) {done : List TraceCallbackType}
    (hpc : s.pc i = .calling done []) : Step F s (s.go i (.leaving done) [])
  | leave {s : State θ κ} (i : θ) {done : List TraceCallbackType} (hpc : s.pc i = .leaving done) :
    Step F s (s.go i .idle [.returned i done])
  | ask {s : State θ κ} (i : θ) (op : Op) (hpc : s.pc i = .idle) :
    Step F s (s.go i (.asking op) [.asked i op])
  | write {s : State θ κ} (i : θ) {op : Op} (hpc : s.pc i = .asking op)
    (hfree : ∀ j, ¬ (s.pc j).Writes ∧ ¬ (s.pc j).Reads) : Step F s (s.go i (.listing op) [])
  | edit {s : State θ κ} (i : θ) {op : Op} (hpc : s.pc i = .listing op) :
    Step F s ((s.go i (.keying op) []).setExt (editList op s.ext))
  | switch {s : State θ κ} (i : θ) {op : Op} (hpc : s.pc i = .keying op) :
    Step F s ((s.go i (.releasing op) [.changed i op]).setExt (switchKey F op s.ext))
  | release {s : State θ κ} (i : θ) {op : Op} (hpc : s.pc i = .releasing op) :
    Step F s (s.go i (.answering op) [])
  | answer {s : State θ κ} (i : θ) {op : Op} (hpc : s.pc i = .answering op) :
    Step F s (s.go i .idle [.answered i op])

end Steps

section Sound
variable [DecidableEq θ]

/-- The callbacks that a thread has called since it last began a hit. -/
def callsOf (i : θ) (history : List (Event θ)) : List TraceCallbackType :=
  history.foldl
    (fun l e => match e with
      | .begun j => if j = i then [] else l
      | .called j callback => if j = i then l ++ [callback] else l
      | _ => l) []

/-- What an event says of what was before it. -/
def Sound (defaultCallback : ArcPtr) (before : List (Event θ)) : Event θ → Prop
  | .called _ callback => callback ∈ listed defaultCallback before
  | .returned i callbacks => callbacks = callsOf i before
  | _ => True

structure Inv (F : RawStaticFalseKey κ) (defaultCallback : ArcPtr) (s : State θ κ) : Prop where
  default_callback : s.ext.defaultCallback = defaultCallback
  exclusive : ∀ i j, (s.pc i).Writes → (s.pc j).Writes ∨ (s.pc j).Reads → i = j
  key : s.ext.tracepoint.keyIsEnabled F = true ↔ listed defaultCallback s.history ≠ []
  settled : (∀ i op, s.pc i ≠ .keying op) → s.ext.callbacks = listed defaultCallback s.history
  edited : ∀ i op, s.pc i = .keying op →
    s.ext.callbacks = op.listed defaultCallback (listed defaultCallback s.history)
  calling : ∀ i done todo, s.pc i = .calling done todo →
    done ++ todo = listed defaultCallback s.history
  called : ∀ i callbacks, (s.pc i).called = some callbacks → callsOf i s.history = callbacks
  sound : ∀ before e after, s.history = before ++ e :: after → Sound defaultCallback before e

variable {defaultCallback : ArcPtr} {s : State θ κ}

theorem pc_go_self (i : θ) (pc : Pc) (events : List (Event θ)) (s : State θ κ) :
    (s.go i pc events).pc i = pc := Function.update_self ..

theorem pc_go_of_ne {i j : θ} (h : j ≠ i) (pc : Pc) (events : List (Event θ)) (s : State θ κ) :
    (s.go i pc events).pc j = s.pc j := Function.update_of_ne h ..

/-- The locks, when a thread goes on. -/
theorem exclusive_go {i : θ} {pc : Pc} {events : List (Event θ)}
    (h : ∀ i j, (s.pc i).Writes → (s.pc j).Writes ∨ (s.pc j).Reads → i = j)
    (hwrites : pc.Writes → ∀ j, j ≠ i → ¬ (s.pc j).Writes ∧ ¬ (s.pc j).Reads)
    (hreads : pc.Reads → ∀ j, j ≠ i → ¬ (s.pc j).Writes) (j k : θ)
    (hj : ((s.go i pc events).pc j).Writes)
    (hk : ((s.go i pc events).pc k).Writes ∨ ((s.go i pc events).pc k).Reads) : j = k := by
  by_cases hji : j = i
  · by_cases hki : k = i
    · rw [hji, hki]
    · rw [hji, pc_go_self] at hj
      rw [pc_go_of_ne hki] at hk
      exact absurd hk (not_or.mpr (hwrites hj k hki))
  · rw [pc_go_of_ne hji] at hj
    by_cases hki : k = i
    · rw [hki, pc_go_self] at hk
      rcases hk with hk | hk
      · exact absurd hj (hwrites hk j hji).1
      · exact absurd hj (hreads hk j hji)
    · rw [pc_go_of_ne hki] at hk
      exact h j k hj hk

/-- What the others have called, when a thread goes on. -/
theorem called_go {i : θ} {pc : Pc} {events : List (Event θ)}
    (h : ∀ i callbacks, (s.pc i).called = some callbacks → callsOf i s.history = callbacks)
    (hothers : ∀ j, j ≠ i → callsOf j (s.history ++ events) = callsOf j s.history)
    (hself : ∀ callbacks, pc.called = some callbacks →
      callsOf i (s.history ++ events) = callbacks) (j : θ) (callbacks : List TraceCallbackType)
    (hj : ((s.go i pc events).pc j).called = some callbacks) :
    callsOf j (s.go i pc events).history = callbacks := by
  by_cases hji : j = i
  · rw [hji, pc_go_self] at hj
    rw [hji]
    exact hself callbacks hj
  · rw [pc_go_of_ne hji] at hj
    exact (hothers j hji).trans (h j callbacks hj)

/-- A thread goes on without touching list or key. -/
structure Quiet (defaultCallback : ArcPtr) (s : State θ κ) (i : θ) (pc : Pc)
    (events : List (Event θ)) : Prop where
  writes : pc.Writes → ∀ j, j ≠ i → ¬ (s.pc j).Writes ∧ ¬ (s.pc j).Reads
  reads : pc.Reads → ∀ j, j ≠ i → ¬ (s.pc j).Writes
  calling : ∀ done todo, pc = .calling done todo →
    done ++ todo = listed defaultCallback s.history
  before : ∀ op, s.pc i ≠ .keying op
  behind : ∀ op, pc ≠ .keying op
  listed : listed defaultCallback (s.history ++ events) = listed defaultCallback s.history
  others : ∀ j, j ≠ i → callsOf j (s.history ++ events) = callsOf j s.history
  called : ∀ callbacks, pc.called = some callbacks →
    callsOf i (s.history ++ events) = callbacks
  sound : ∀ e ∈ events, Sound defaultCallback s.history e ∧ events = [e]

theorem sound_append {history events : List (Event θ)}
    (h : ∀ before e after, history = before ++ e :: after → Sound defaultCallback before e)
    (hevents : ∀ e ∈ events, Sound defaultCallback history e ∧ events = [e])
    (before : List (Event θ)) (e : Event θ) (after : List (Event θ))
    (heq : history ++ events = before ++ e :: after) : Sound defaultCallback before e := by
  cases events with
  | nil => exact h before e after ((List.append_nil history).symm.trans heq)
  | cons first rest =>
    obtain ⟨hsound, hone⟩ := hevents first List.mem_cons_self
    rw [hone] at heq
    rcases Past.concat_eq_split heq with ⟨-, rfl, rfl⟩ | ⟨later, -, hlater⟩
    · exact hsound
    · exact h before e later hlater

theorem Inv.go (h : Inv F defaultCallback s) {i : θ} {pc : Pc} {events : List (Event θ)}
    (hq : Quiet defaultCallback s i pc events) : Inv F defaultCallback (s.go i pc events) where
  default_callback := h.default_callback
  exclusive := exclusive_go h.exclusive hq.writes hq.reads
  key := by
    rw [State.go, hq.listed]
    exact h.key
  settled := by
    intro hnone
    rw [State.go, hq.listed]
    refine h.settled fun j op hj => ?_
    by_cases hji : j = i
    · exact hq.before op (hji ▸ hj)
    · exact hnone j op ((pc_go_of_ne hji pc events s).trans hj)
  edited := by
    intro j op hj
    rw [State.go, hq.listed]
    by_cases hji : j = i
    · rw [hji, pc_go_self] at hj
      exact absurd hj (hq.behind op)
    · rw [pc_go_of_ne hji] at hj
      exact h.edited j op hj
  calling := by
    intro j done todo hj
    rw [State.go, hq.listed]
    by_cases hji : j = i
    · rw [hji, pc_go_self] at hj
      exact hq.calling done todo hj
    · rw [pc_go_of_ne hji] at hj
      exact h.calling j done todo hj
  called := called_go h.called hq.others hq.called
  sound := sound_append h.sound hq.sound

theorem callsOf_concat (i : θ) (history : List (Event θ)) (e : Event θ) :
    callsOf i (history ++ [e]) =
      match e with
      | .begun j => if j = i then [] else callsOf i history
      | .called j callback =>
        if j = i then callsOf i history ++ [callback] else callsOf i history
      | _ => callsOf i history := List.foldl_concat ..

/-- Nothing that others can see. -/
theorem Quiet.silent {i : θ} {pc : Pc}
    (writes : pc.Writes → ∀ j, j ≠ i → ¬ (s.pc j).Writes ∧ ¬ (s.pc j).Reads)
    (reads : pc.Reads → ∀ j, j ≠ i → ¬ (s.pc j).Writes)
    (calling : ∀ done todo, pc = .calling done todo →
      done ++ todo = Concurrent.listed defaultCallback s.history)
    (before : ∀ op, s.pc i ≠ .keying op) (behind : ∀ op, pc ≠ .keying op)
    (called : ∀ callbacks, pc.called = some callbacks → callsOf i s.history = callbacks) :
    Quiet defaultCallback s i pc [] where
  writes := writes
  reads := reads
  calling := calling
  before := before
  behind := behind
  listed := by rw [List.append_nil]
  others j _ := by rw [List.append_nil]
  called callbacks h := by rw [List.append_nil]; exact called callbacks h
  sound e he := absurd he List.not_mem_nil

/-- An event that is no call, at which the thread is outside a hit. -/
theorem Quiet.event {i : θ} {pc : Pc} {e : Event θ}
    (writes : ¬ pc.Writes) (reads : ¬ pc.Reads) (before : ∀ op, s.pc i ≠ .keying op)
    (behind : ∀ op, pc ≠ .keying op) (outside : pc.called = none)
    (listed : Concurrent.listed defaultCallback (s.history ++ [e]) =
      Concurrent.listed defaultCallback s.history)
    (others : ∀ j, j ≠ i → callsOf j (s.history ++ [e]) = callsOf j s.history)
    (sound : Sound defaultCallback s.history e) : Quiet defaultCallback s i pc [e] where
  writes h := absurd h writes
  reads h := absurd h reads
  calling done todo heq := by
    rw [heq] at outside
    cases outside
  before := before
  behind := behind
  listed := listed
  others := others
  called callbacks hc := by cases outside.symm.trans hc
  sound e' he := by
    obtain rfl := List.mem_singleton.mp he
    exact ⟨sound, rfl⟩

/-- A hit ends, and says what it has called. -/
theorem Quiet.returned (h : Inv F defaultCallback s) {i : θ} {done : List TraceCallbackType}
    (hpc : s.pc i = .leaving done) : Quiet defaultCallback s i .idle [.returned i done] :=
  .event id id (fun op heq => nomatch hpc.symm.trans heq) (fun _ heq => nomatch heq) rfl
    (listed_concat ..) (fun _ _ => callsOf_concat ..) (h.called i done (by rw [hpc]; rfl)).symm

theorem Quiet.hit {i : θ} (hpc : s.pc i = .idle) :
    Quiet defaultCallback s i .testing [.begun i] where
  writes := False.elim
  reads := False.elim
  calling done todo heq := nomatch heq
  before op heq := nomatch hpc.symm.trans heq
  behind op heq := nomatch heq
  listed := listed_concat ..
  others j hji := (callsOf_concat ..).trans (if_neg (Ne.symm hji))
  called callbacks hc := (callsOf_concat ..).trans ((if_pos rfl).trans (Option.some.inj hc))
  sound e he := by
    obtain rfl := List.mem_singleton.mp he
    exact ⟨trivial, rfl⟩

theorem Quiet.call (h : Inv F defaultCallback s) {i : θ} {callback : TraceCallbackType}
    {done todo : List TraceCallbackType} (hpc : s.pc i = .calling done (callback :: todo)) :
    Quiet defaultCallback s i (.calling (done ++ [callback]) todo) [.called i callback] where
  writes := False.elim
  reads _ j hji hj :=
    absurd (h.exclusive j i hj (.inr (by rw [hpc]; trivial))) hji
  calling done' todo' heq := by
    cases heq
    rw [List.append_assoc]
    exact h.calling i done (callback :: todo) hpc
  before op heq := nomatch hpc.symm.trans heq
  behind op heq := nomatch heq
  listed := listed_concat ..
  others j hji := (callsOf_concat ..).trans (if_neg (Ne.symm hji))
  called callbacks hc := by
    cases hc
    rw [callsOf_concat]
    dsimp only
    rw [if_pos rfl, h.called i done (by rw [hpc]; rfl)]
  sound e he := by
    obtain rfl := List.mem_singleton.mp he
    have hlist := h.calling i done (callback :: todo) hpc
    refine ⟨?_, rfl⟩
    show callback ∈ Concurrent.listed defaultCallback s.history
    rw [← hlist]
    exact List.mem_append_right _ List.mem_cons_self

/-- Where nobody writes, the list is what the changes have come to. -/
theorem Inv.list_of_free (h : Inv F defaultCallback s) (hfree : ∀ j, ¬ (s.pc j).Writes) :
    s.ext.callbacks = listed defaultCallback s.history := by
  refine h.settled fun j op hj => hfree j ?_
  rw [hj]
  trivial

theorem Inv.alone (h : Inv F defaultCallback s) {i : θ} (hi : (s.pc i).Writes) :
    ∀ j, j ≠ i → ¬ (s.pc j).Writes ∧ ¬ (s.pc j).Reads := fun j hji =>
  ⟨fun hj => hji (h.exclusive i j hi (.inl hj)).symm,
    fun hj => hji (h.exclusive i j hi (.inr hj)).symm⟩

/-- A thread that may write edits the list. -/
theorem Inv.edit (h : Inv F defaultCallback s) {i : θ} {op : Op} (hpc : s.pc i = .listing op) :
    Inv F defaultCallback ((s.go i (.keying op) []).setExt (editList op s.ext)) := by
  have halone := h.alone (by rw [hpc]; trivial : (s.pc i).Writes)
  have hold : s.ext.callbacks = listed defaultCallback s.history := by
    refine h.settled fun j op' hj => ?_
    by_cases hji : j = i
    · rw [hji, hpc] at hj
      cases hj
    · refine (halone j hji).1 ?_
      rw [hj]
      trivial
  have hhistory : s.history ++ [] = s.history := List.append_nil _
  refine ⟨?_, @exclusive_go θ κ _ s i (.keying op) [] h.exclusive (fun _ => halone)
    (fun _ j hji => (halone j hji).1), ?_, ?_, ?_, ?_,
    @called_go θ κ _ s i (.keying op) [] h.called ?_ ?_, ?_⟩
  · exact (defaultCallback_editList op s.ext).trans h.default_callback
  · show (editList op s.ext).tracepoint.keyIsEnabled F = true ↔ listed _ (s.history ++ []) ≠ []
    rw [tracepoint_editList, hhistory]
    exact h.key
  · intro hnone
    exact absurd (pc_go_self i (.keying op) [] s) (hnone i op)
  · intro j op' hj
    show (editList op s.ext).callbacks = op'.listed _ (listed _ (s.history ++ []))
    change (s.go i (.keying op) []).pc j = .keying op' at hj
    by_cases hji : j = i
    · rw [hji, pc_go_self] at hj
      cases hj
      rw [callbacks_editList, h.default_callback, hold, hhistory]
    · rw [pc_go_of_ne hji] at hj
      refine absurd ?_ (halone j hji).1
      rw [hj]
      trivial
  · intro j done todo hj
    change (s.go i (.keying op) []).pc j = .calling done todo at hj
    by_cases hji : j = i
    · rw [hji, pc_go_self] at hj
      cases hj
    · rw [pc_go_of_ne hji] at hj
      refine absurd ?_ (halone j hji).2
      rw [hj]
      trivial
  · exact fun j _ => by rw [hhistory]
  · exact fun callbacks hc => nomatch hc
  · show ∀ before e after, s.history ++ [] = _ → _
    rw [hhistory]
    exact h.sound

/-- A thread that has edited the list switches the key. -/
theorem Inv.switch (h : Inv F defaultCallback s) {i : θ} {op : Op} (hpc : s.pc i = .keying op) :
    Inv F defaultCallback
      ((s.go i (.releasing op) [.changed i op]).setExt (switchKey F op s.ext)) := by
  have halone := h.alone (by rw [hpc]; trivial : (s.pc i).Writes)
  obtain ⟨hcallbacks, hdefault⟩ := @callbacks_switchKey κ F op s.ext
  have hedited := h.edited i op hpc
  have hlisted := @listed_concat θ defaultCallback s.history (.changed i op)
  dsimp only at hlisted
  have hnew : (switchKey F op s.ext).callbacks =
      listed defaultCallback (s.history ++ [.changed i op]) := by
    rw [hcallbacks, hlisted, hedited]
  have hkey : Callbacks.InStep F (switchKey F op s.ext) :=
    inStep_switchKey h.key (by rw [h.default_callback]; exact hedited)
  refine ⟨hdefault.trans h.default_callback, @exclusive_go θ κ _ s i (.releasing op) [.changed i op]
    h.exclusive (fun _ => halone) False.elim, ?_, fun _ => hnew, ?_, ?_,
    @called_go θ κ _ s i (.releasing op) [.changed i op] h.called ?_ ?_, ?_⟩
  · show (switchKey F op s.ext).tracepoint.keyIsEnabled F = true ↔
      listed _ (s.history ++ [.changed i op]) ≠ []
    rw [← hnew]
    exact hkey
  · intro j op' hj
    change (s.go i (.releasing op) [.changed i op]).pc j = .keying op' at hj
    by_cases hji : j = i
    · rw [hji, pc_go_self] at hj
      cases hj
    · rw [pc_go_of_ne hji] at hj
      refine absurd ?_ (halone j hji).1
      rw [hj]
      trivial
  · intro j done todo hj
    change (s.go i (.releasing op) [.changed i op]).pc j = .calling done todo at hj
    by_cases hji : j = i
    · rw [hji, pc_go_self] at hj
      cases hj
    · rw [pc_go_of_ne hji] at hj
      refine absurd ?_ (halone j hji).2
      rw [hj]
      trivial
  · exact fun j _ => callsOf_concat ..
  · exact fun callbacks hc => nomatch hc
  · refine sound_append h.sound fun e he => ?_
    obtain rfl := List.mem_singleton.mp he
    exact ⟨trivial, rfl⟩

/-- What holds at every moment holds after any step of any thread. -/
theorem Inv.step (h : Inv F defaultCallback s) {s' : State θ κ} (hstep : Step F s s') :
    Inv F defaultCallback s' := by
  cases hstep with
  | hit i hpc => exact h.go (.hit hpc)
  | unlikely i hpc hkey =>
    refine h.go (.silent False.elim False.elim (fun _ _ heq => nomatch heq)
      (fun op heq => nomatch hpc.symm.trans heq) (fun _ heq => nomatch heq) ?_)
    exact fun callbacks hc => h.called i callbacks (by rw [hpc]; exact hc)
  | likely i hpc hkey =>
    refine h.go (.silent False.elim False.elim (fun _ _ heq => nomatch heq)
      (fun op heq => nomatch hpc.symm.trans heq) (fun _ heq => nomatch heq) ?_)
    exact fun callbacks hc => h.called i callbacks (by rw [hpc]; exact hc)
  | read i hpc hfree =>
    refine h.go (.silent False.elim (fun _ j _ => hfree j) ?_
      (fun op heq => nomatch hpc.symm.trans heq) (fun _ heq => nomatch heq) ?_)
    · rintro _ _ ⟨⟩
      exact h.list_of_free hfree
    · exact fun callbacks hc => h.called i callbacks (by rw [hpc]; exact hc)
  | call i hpc => exact h.go (.call h hpc)
  | unlock i hpc =>
    refine h.go (.silent False.elim False.elim (fun _ _ heq => nomatch heq)
      (fun op heq => nomatch hpc.symm.trans heq) (fun _ heq => nomatch heq) ?_)
    exact fun callbacks hc => h.called i callbacks (by rw [hpc]; exact hc)
  | leave i hpc => exact h.go (.returned h hpc)
  | ask i op hpc =>
    exact h.go (.event id id (fun op heq => nomatch hpc.symm.trans heq) (fun _ heq => nomatch heq) rfl
      (listed_concat ..) (fun _ _ => callsOf_concat ..) trivial)
  | write i hpc hfree =>
    exact h.go (.silent (fun _ j _ => hfree j) False.elim (fun _ _ heq => nomatch heq)
      (fun op heq => nomatch hpc.symm.trans heq) (fun _ heq => nomatch heq) (fun _ hc => nomatch hc))
  | edit i hpc => exact h.edit hpc
  | switch i hpc => exact h.switch hpc
  | release i hpc =>
    exact h.go (.silent False.elim False.elim (fun _ _ heq => nomatch heq)
      (fun op heq => nomatch hpc.symm.trans heq) (fun _ heq => nomatch heq) (fun _ hc => nomatch hc))
  | answer i hpc =>
    exact h.go (.event id id (fun op heq => nomatch hpc.symm.trans heq) (fun _ heq => nomatch heq) rfl
      (listed_concat ..) (fun _ _ => callsOf_concat ..) trivial)

/-- At some moment since the thread has begun its hit, just these were listed. -/
def Moment (defaultCallback : ArcPtr) (i : θ) (callbacks : List TraceCallbackType)
    (history : List (Event θ)) : Prop :=
  ∃ earlier later, history = earlier ++ later ∧ .begun i ∈ earlier ∧ .begun i ∉ later ∧
    callbacks = listed defaultCallback earlier

/-- A hit takes effect while it lasts; a change does between its call and its return. -/
def Timely (defaultCallback : ArcPtr) (before : List (Event θ)) : Event θ → Prop
  | .returned i callbacks => Moment defaultCallback i callbacks before
  | .changed i op => Since (· = .asked i op) (·.thread = i) before
  | .answered i op => Since (· = .changed i op) (·.thread = i) before
  | _ => True

structure Told (defaultCallback : ArcPtr) (pc : θ → Pc) (history : List (Event θ)) : Prop where
  begun : ∀ i callbacks, (pc i).called = some callbacks → .begun i ∈ history
  within : ∀ i done, pc i = .leaving done → Moment defaultCallback i done history
  last : ∀ i e, (pc i).last i = some e → Since (· = e) (·.thread = i) history
  timely : ∀ before e after, history = before ++ e :: after → Timely defaultCallback before e

omit [DecidableEq θ] in
theorem Moment.append {i : θ} {callbacks : List TraceCallbackType} {history events : List (Event θ)}
    (h : Moment defaultCallback i callbacks history) (hevents : .begun i ∉ events) :
    Moment defaultCallback i callbacks (history ++ events) := by
  obtain ⟨earlier, later, rfl, hbegun, hlater, hlisted⟩ := h
  refine ⟨earlier, later ++ events, List.append_assoc .., hbegun, ?_, hlisted⟩
  intro hmem
  rcases List.mem_append.mp hmem with hold | hnew
  · exact hlater hold
  · exact hevents hnew

/-- A thread goes on, alone in what others see. -/
theorem Told.go {pc : θ → Pc} {history : List (Event θ)} (h : Told defaultCallback pc history)
    {i : θ} {next : Pc} {events : List (Event θ)} (hown : ∀ e ∈ events, e.thread = i)
    (hbegun : ∀ callbacks, next.called = some callbacks → .begun i ∈ history ++ events)
    (hwithin : ∀ done, next = .leaving done → Moment defaultCallback i done (history ++ events))
    (hlast : ∀ e, next.last i = some e → Since (· = e) (·.thread = i) (history ++ events))
    (htimely : ∀ e ∈ events, Timely defaultCallback history e ∧ events = [e]) :
    Told defaultCallback (Function.update pc i next) (history ++ events) := by
  have hother : ∀ j, j ≠ i → ∀ e ∈ events, ¬ e.thread = j :=
    fun j hji e he heq => hji (heq.symm.trans (hown e he))
  constructor
  · intro j callbacks hj
    by_cases hji : j = i
    · subst hji
      rw [Function.update_self] at hj
      exact hbegun callbacks hj
    · rw [Function.update_of_ne hji] at hj
      exact List.mem_append_left _ (h.begun j callbacks hj)
  · intro j done hj
    by_cases hji : j = i
    · subst hji
      rw [Function.update_self] at hj
      exact hwithin done hj
    · rw [Function.update_of_ne hji] at hj
      exact (h.within j done hj).append fun hmem => hother j hji _ hmem rfl
  · intro j e hj
    by_cases hji : j = i
    · subst hji
      rw [Function.update_self] at hj
      exact hlast e hj
    · rw [Function.update_of_ne hji] at hj
      exact (h.last j e hj).append (hother j hji)
  · intro before e after heq
    cases events with
    | nil => exact h.timely before e after ((List.append_nil history).symm.trans heq)
    | cons first rest =>
      obtain ⟨hsound, hone⟩ := htimely first List.mem_cons_self
      rw [hone] at heq
      rcases Past.concat_eq_split heq with ⟨-, rfl, rfl⟩ | ⟨later, -, hlater⟩
      · exact hsound
      · exact h.timely before e later hlater

/-- Nothing that others can see. -/
theorem Told.silent {pc : θ → Pc} {history : List (Event θ)} (h : Told defaultCallback pc history)
    {i : θ} {next : Pc} (hbegun : ∀ callbacks, next.called = some callbacks → .begun i ∈ history)
    (hwithin : ∀ done, next = .leaving done → Moment defaultCallback i done history)
    (hlast : ∀ e, next.last i = some e → Since (· = e) (·.thread = i) history) :
    Told defaultCallback (Function.update pc i next) (history ++ []) := by
  refine h.go (fun e he => absurd he List.not_mem_nil) ?_ ?_ ?_
    fun e he => absurd he List.not_mem_nil
  · rw [List.append_nil]
    exact hbegun
  · rw [List.append_nil]
    exact hwithin
  · rw [List.append_nil]
    exact hlast

/-- One event, behind which the thread is outside a hit. -/
theorem Told.event {pc : θ → Pc} {history : List (Event θ)} (h : Told defaultCallback pc history)
    {i : θ} {next : Pc} {e : Event θ} (hown : e.thread = i) (houtside : next.called = none)
    (hlast : ∀ e', next.last i = some e' → e = e') (htimely : Timely defaultCallback history e) :
    Told defaultCallback (Function.update pc i next) (history ++ [e]) := by
  refine h.go ?_ ?_ ?_ ?_ ?_
  · intro e' he
    rw [List.mem_singleton.mp he]
    exact hown
  · intro callbacks hc
    cases houtside.symm.trans hc
  · rintro done rfl
    cases houtside
  · intro e' he
    exact (Past.since_concat _ _).mpr (.inl (hlast e' he))
  · intro e' he
    rw [List.mem_singleton.mp he]
    exact ⟨htimely, rfl⟩

omit [DecidableEq θ] in
theorem Told.now {pc : θ → Pc} {history : List (Event θ)} (h : Told defaultCallback pc history)
    {i : θ} {callbacks done : List TraceCallbackType} (hcalled : (pc i).called = some callbacks)
    (hlisted : done = listed defaultCallback history) : Moment defaultCallback i done history :=
  ⟨history, [], (List.append_nil _).symm, h.begun i callbacks hcalled, List.not_mem_nil, hlisted⟩

theorem Told.step (h : Told defaultCallback s.pc s.history) (hinv : Inv F defaultCallback s)
    {s' : State θ κ} (hstep : Step F s s') : Told defaultCallback s'.pc s'.history := by
  cases hstep with
  | hit i hpc =>
    refine h.go ?_ ?_ (fun _ heq => nomatch heq) (fun _ heq => nomatch heq) ?_
    · intro e he
      rw [List.mem_singleton.mp he]
      rfl
    · exact fun _ _ => List.mem_append_right _ (List.mem_singleton_self _)
    · intro e he
      rw [List.mem_singleton.mp he]
      exact ⟨trivial, rfl⟩
  | unlikely i hpc hkey =>
    have hcalled : (s.pc i).called = some [] := by rw [hpc]; rfl
    have hnil : listed defaultCallback s.history = [] := by
      by_contra hne
      cases (hinv.key.mpr hne).symm.trans hkey
    refine h.silent (fun _ _ => h.begun i [] hcalled) ?_ fun _ heq => nomatch heq
    rintro done ⟨⟩
    exact h.now hcalled hnil.symm
  | likely i hpc hkey =>
    exact h.silent (fun _ _ => h.begun i [] (by rw [hpc]; rfl)) (fun _ heq => nomatch heq)
      fun _ heq => nomatch heq
  | read i hpc hfree =>
    exact h.silent (fun _ _ => h.begun i [] (by rw [hpc]; rfl)) (fun _ heq => nomatch heq)
      fun _ heq => nomatch heq
  | @call i callback done todo hpc =>
    refine h.go ?_ ?_ (fun _ heq => nomatch heq) (fun _ heq => nomatch heq) ?_
    · intro e he
      rw [List.mem_singleton.mp he]
      rfl
    · exact fun _ _ => List.mem_append_left _ (h.begun i done (by rw [hpc]; rfl))
    · intro e he
      rw [List.mem_singleton.mp he]
      exact ⟨trivial, rfl⟩
  | @unlock i done hpc =>
    have hcalled : (s.pc i).called = some done := by rw [hpc]; rfl
    have hall := hinv.calling i done [] hpc
    rw [List.append_nil] at hall
    refine h.silent (fun _ _ => h.begun i done hcalled) ?_ fun _ heq => nomatch heq
    rintro done ⟨⟩
    exact h.now hcalled hall
  | leave i hpc => exact h.event rfl rfl (fun _ heq => nomatch heq) (h.within i _ hpc)
  | ask i op hpc => exact h.event rfl rfl (fun _ heq => Option.some.inj heq) trivial
  | write i hpc hfree =>
    exact h.silent (fun _ hc => nomatch hc) (fun _ heq => nomatch heq)
      fun e he => h.last i e (by rw [hpc]; exact he)
  | edit i hpc =>
    exact h.silent (fun _ hc => nomatch hc) (fun _ heq => nomatch heq)
      fun e he => h.last i e (by rw [hpc]; exact he)
  | switch i hpc =>
    exact h.event rfl rfl (fun _ heq => Option.some.inj heq) (h.last i _ (by rw [hpc]; rfl))
  | release i hpc =>
    exact h.silent (fun _ hc => nomatch hc) (fun _ heq => nomatch heq)
      fun e he => h.last i e (by rw [hpc]; exact he)
  | answer i hpc =>
    exact h.event rfl rfl (fun _ heq => nomatch heq) (h.last i _ (by rw [hpc]; rfl))

end Sound

/-- What a change adds and takes away, as an event. -/
def Adds (defaultCallback : ArcPtr) (callback : TraceCallbackType) : Event θ → Prop
  | .changed _ op => op.adds defaultCallback = some callback
  | _ => False

def Removes (defaultCallback : ArcPtr) (callback : TraceCallbackType) : Event θ → Prop
  | .changed _ op => op.removes defaultCallback = some callback
  | _ => False

theorem mem_listed_iff (defaultCallback : ArcPtr) (callback : TraceCallbackType)
    (history : List (Event θ)) : callback ∈ listed defaultCallback history ↔
      Since (Adds defaultCallback callback) (Removes defaultCallback callback) history := by
  induction history using List.reverseRecOn with
  | nil => exact iff_of_false List.not_mem_nil Past.not_since_nil
  | append_singleton history e ih =>
    rw [listed_concat, Past.since_concat, ← ih]
    cases e with
    | changed i op => exact Callbacks.mem_listed
    | begun i => exact ⟨fun hold => .inr ⟨hold, id⟩, fun hnew => hnew.elim False.elim And.left⟩
    | called i c => exact ⟨fun hold => .inr ⟨hold, id⟩, fun hnew => hnew.elim False.elim And.left⟩
    | returned i cs => exact ⟨fun hold => .inr ⟨hold, id⟩, fun hnew => hnew.elim False.elim And.left⟩
    | asked i op => exact ⟨fun hold => .inr ⟨hold, id⟩, fun hnew => hnew.elim False.elim And.left⟩
    | answered i op => exact ⟨fun hold => .inr ⟨hold, id⟩, fun hnew => hnew.elim False.elim And.left⟩

theorem nodup_listed (defaultCallback : ArcPtr) (history : List (Event θ)) :
    (listed defaultCallback history).Nodup := by
  induction history using List.reverseRecOn with
  | nil => exact List.nodup_nil
  | append_singleton history e ih =>
    rw [listed_concat]
    cases e with
    | changed i op => exact Callbacks.nodup_listed op ih
    | begun i => exact ih
    | called i c => exact ih
    | returned i cs => exact ih
    | asked i op => exact ih
    | answered i op => exact ih

variable [DecidableEq θ]

/-- Every thread is idle and the tracepoint is new. -/
def start (tracepoint : StaticTracePoint κ) (defaultCallback : ArcPtr) : State θ κ where
  ext := .new tracepoint defaultCallback
  pc := fun _ => .idle
  history := []

/-- What callers of the tracepoint and of its callbacks can rely on. -/
structure Atomic (defaultCallback : ArcPtr) (before : List (Event θ)) (e : Event θ) : Prop where
  called : ∀ i callback, e = .called i callback →
    Since (Adds defaultCallback callback) (Removes defaultCallback callback) before
  returned : ∀ i callbacks, e = .returned i callbacks →
    callbacks = callsOf i before ∧ callbacks.Nodup ∧
      ∃ earlier later, before = earlier ++ later ∧ .begun i ∈ earlier ∧ .begun i ∉ later ∧
        ∀ callback, callback ∈ callbacks ↔
          Since (Adds defaultCallback callback) (Removes defaultCallback callback) earlier
  changed : ∀ i op, e = .changed i op → Since (· = .asked i op) (·.thread = i) before
  answered : ∀ i op, e = .answered i op → Since (· = .changed i op) (·.thread = i) before

theorem inv_start {tracepoint : StaticTracePoint κ} (defaultCallback : ArcPtr)
    (hoff : tracepoint.keyIsEnabled F = false) :
    Inv F defaultCallback (start tracepoint defaultCallback : State θ κ) where
  default_callback := rfl
  exclusive _ _ hi := hi.elim
  key := iff_of_false (fun hon => by cases hon.symm.trans hoff) (fun hne => hne rfl)
  settled _ := rfl
  edited _ _ heq := nomatch heq
  calling _ _ _ heq := nomatch heq
  called _ _ heq := nomatch heq
  sound before e after heq := absurd (congrArg List.length heq) (by simp [start])

omit [DecidableEq θ] in
theorem told_start {tracepoint : StaticTracePoint κ} (defaultCallback : ArcPtr) :
    Told defaultCallback (start tracepoint defaultCallback : State θ κ).pc [] where
  begun _ _ heq := nomatch heq
  within _ _ heq := nomatch heq
  last _ _ heq := nomatch heq
  timely before e after heq := absurd (congrArg List.length heq) (by simp)

/-- In every interleaving of hits and changes: a callback is called only while it is registered, so
never again once its removal has returned, and a hit calls just the callbacks that are registered at
some moment of it, each once. A change takes effect between its call and its return. -/
theorem hits_atomic {tracepoint : StaticTracePoint κ} {defaultCallback : ArcPtr}
    (hoff : tracepoint.keyIsEnabled F = false) {s : State θ κ}
    (h : Machine.Reachable (· = start tracepoint defaultCallback) (Step F) s)
    (before : List (Event θ)) (e : Event θ) (after : List (Event θ))
    (heq : s.history = before ++ e :: after) : Atomic defaultCallback before e := by
  have hboth : Inv F defaultCallback s ∧ Told defaultCallback s.pc s.history := by
    apply h.invariant
    · rintro s rfl
      exact ⟨inv_start defaultCallback hoff, told_start defaultCallback⟩
    · rintro s s' ⟨hinv, htold⟩ hstep
      exact ⟨hinv.step hstep, htold.step hinv hstep⟩
  obtain ⟨hinv, htold⟩ := hboth
  have hsound := hinv.sound before e after heq
  have htimely := htold.timely before e after heq
  constructor
  · rintro i callback rfl
    exact (mem_listed_iff defaultCallback callback before).mp hsound
  · rintro i callbacks rfl
    obtain ⟨earlier, later, hsplit, hbegun, hlater, hlisted⟩ := htimely
    refine ⟨hsound, hlisted ▸ nodup_listed defaultCallback earlier, earlier, later, hsplit, hbegun,
      hlater, fun callback => ?_⟩
    rw [hlisted]
    exact mem_listed_iff defaultCallback callback earlier
  · rintro i op rfl
    exact htimely
  · rintro i op rfl
    exact htimely

/-- A tracepoint with its key off. -/
def quietPoint : StaticTracePoint Bool := .new false [] [] (fun _ => []) [] ⟨[]⟩

def adds : Op := .register (.event 7)

def removes : Op := .unregister (.event 7)

/-- The thread `true` registers a callback, the thread `false` hits. The callback has been called
when its removal takes effect, and the hit returns after that. -/
def overtaken : List (Event Bool) :=
  [.asked true adds, .changed true adds, .begun false, .answered true adds, .asked true removes,
    .called false (.event 7), .changed true removes]

theorem hits_atomic_overtaken : Atomic 0 overtaken (.returned false [.event 7]) := by
  have hstart : Machine.Reachable (· = start quietPoint 0) (Step Ddebug.flagKey)
      (start quietPoint 0 : State Bool Bool) := .start rfl
  have hregister := hstart.next (.ask true adds rfl)
  have hlock := hregister.next (.write true rfl fun
    | false => ⟨id, id⟩
    | true => ⟨id, id⟩)
  have hadded := (hlock.next (.edit true rfl)).next (.switch true rfl)
  have hhit := ((hadded.next (.hit false rfl)).next (.likely false rfl rfl)).next (.release true rfl)
  have hasked := (hhit.next (.answer true rfl)).next (.ask true removes rfl)
  have hreading := hasked.next (.read false rfl fun
    | false => id
    | true => id)
  have hcalled := (hreading.next (.call false rfl)).next (.unlock false rfl)
  have hlock' := hcalled.next (.write true rfl fun
    | false => ⟨id, id⟩
    | true => ⟨id, id⟩)
  have hremoved := (hlock'.next (.edit true rfl)).next (.switch true rfl)
  exact @hits_atomic Bool Bool Ddebug.flagKey _ quietPoint 0 rfl _
    (hremoved.next (.leave false rfl)) overtaken _ [] rfl

end ExtKtrace.Ktracepoint.Concurrent
