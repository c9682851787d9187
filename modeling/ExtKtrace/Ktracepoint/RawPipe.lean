import ExtKtrace.Lib.Machine
import ExtKtrace.Lib.Window

/-!
# The raw trace pipe

A vector of records, the oldest in front, from which a writer throws out the front when the vector
is full. What readers get is told by the log of all records pushed.
-/

namespace ExtKtrace.Ktracepoint
set_option autoImplicit false

structure TracePipeRecord where
  timestamp : UInt64
  cpuId : UInt32
  event : List UInt8
deriving DecidableEq

structure TracePipeRaw where
  maxRecord : Nat
  eventBuf : List TracePipeRecord

/-- `TracePipeSnapshot`. -/
abbrev TracePipeSnapshot := List TracePipeRecord

namespace TracePipeRaw

def new (maxRecord : Nat) : TracePipeRaw where
  maxRecord := maxRecord
  eventBuf := []

def setMaxRecord (maxRecord : Nat) (pipe : TracePipeRaw) : TracePipeRaw :=
  if pipe.eventBuf.length > maxRecord then
    let removeCount := pipe.eventBuf.length - maxRecord
    { maxRecord := maxRecord, eventBuf := pipe.eventBuf.drop removeCount }
  else { pipe with maxRecord := maxRecord }

def pushRecord (timestamp : UInt64) (cpuId : UInt32) (event : List UInt8) (pipe : TracePipeRaw) :
    TracePipeRaw :=
  if pipe.maxRecord = 0 then pipe
  else
    let eventBuf :=
      if pipe.eventBuf.length ≥ pipe.maxRecord then pipe.eventBuf.eraseIdx 0 else pipe.eventBuf
    { pipe with eventBuf := eventBuf ++ [⟨timestamp, cpuId, event⟩] }

def pushEvent (event : List UInt8) (pipe : TracePipeRaw) : TracePipeRaw :=
  pipe.pushRecord 0 0 event

def eventCount (pipe : TracePipeRaw) : Nat := pipe.eventBuf.length

def clear (pipe : TracePipeRaw) : TracePipeRaw := { pipe with eventBuf := [] }

def snapshot (pipe : TracePipeRaw) : TracePipeSnapshot := pipe.eventBuf

def peek (pipe : TracePipeRaw) : Option TracePipeRecord := pipe.eventBuf.head?

def pop (pipe : TracePipeRaw) : Option TracePipeRecord × TracePipeRaw :=
  match pipe.eventBuf with
  | [] => (none, pipe)
  | record :: rest => (some record, { pipe with eventBuf := rest })

def isEmpty (pipe : TracePipeRaw) : Bool := pipe.eventBuf.isEmpty

end TracePipeRaw

namespace RawPipe

inductive Op where
  | setMaxRecord (maxRecord : Nat)
  | pushRecord (record : TracePipeRecord)
  | pushEvent (event : List UInt8)
  | pop
  | peek
  | isEmpty
  | eventCount
  | snapshot
  | clear

inductive Answer where
  | done
  | record (record : Option TracePipeRecord)
  | empty (isEmpty : Bool)
  | count (n : Nat)
  | snapshot (records : TracePipeSnapshot)

def step (pipe : TracePipeRaw) : Op → Option (Answer × TracePipeRaw)
  | .setMaxRecord maxRecord => some (.done, pipe.setMaxRecord maxRecord)
  | .pushRecord r => some (.done, pipe.pushRecord r.timestamp r.cpuId r.event)
  | .pushEvent event => some (.done, pipe.pushEvent event)
  | .pop => some (.record pipe.pop.1, pipe.pop.2)
  | .peek => some (.record pipe.peek, pipe)
  | .isEmpty => some (.empty pipe.isEmpty, pipe)
  | .eventCount => some (.count pipe.eventCount, pipe)
  | .snapshot => some (.snapshot pipe.snapshot, pipe)
  | .clear => some (.done, pipe.clear)

/-- All records pushed so far, how many of them are gone, and how many may be left. -/
structure Log where
  maxRecord : Nat
  window : Window TracePipeRecord

def Log.new (maxRecord : Nat) : Log where
  maxRecord := maxRecord
  window := .empty

def Log.step (log : Log) : Op → Answer × Log
  | .setMaxRecord maxRecord =>
    (.done, { maxRecord := maxRecord, window := log.window.keep maxRecord })
  | .pushRecord r => (.done, { log with window := log.window.put log.maxRecord r })
  | .pushEvent event =>
    (.done, { log with window := log.window.put log.maxRecord ⟨0, 0, event⟩ })
  | .pop => (.record log.window.contents.head?, { log with window := log.window.take })
  | .peek => (.record log.window.contents.head?, log)
  | .isEmpty => (.empty log.window.contents.isEmpty, log)
  | .eventCount => (.count log.window.contents.length, log)
  | .snapshot => (.snapshot log.window.contents, log)
  | .clear => (.done, { log with window := log.window.clear })

/-- The pipe holds what is left of the log, which is within the bound. -/
structure Shows (pipe : TracePipeRaw) (log : Log) : Prop where
  max_record : pipe.maxRecord = log.maxRecord
  records : pipe.eventBuf = log.window.contents
  bounded : log.window.contents.length ≤ log.maxRecord

variable {pipe : TracePipeRaw} {log : Log}

theorem Shows.new (maxRecord : Nat) : Shows (.new maxRecord) (.new maxRecord) where
  max_record := rfl
  records := rfl
  bounded := Nat.zero_le _

theorem Shows.setMaxRecord (h : Shows pipe log) (n : Nat) :
    Shows (pipe.setMaxRecord n) { maxRecord := n, window := log.window.keep n } := by
  have hbuf : (pipe.setMaxRecord n).eventBuf = (log.window.keep n).contents := by
    rw [TracePipeRaw.setMaxRecord, Window.contents_keep, ← h.records]
    split
    · rfl
    · rename_i hle
      rw [Nat.sub_eq_zero_of_le (Nat.le_of_not_lt hle)]
      rfl
  refine ⟨?_, hbuf, Window.length_keep_le n _⟩
  unfold TracePipeRaw.setMaxRecord
  split <;> rfl

/-- A push that throws out the front leaves just the newest records, since the pipe was not longer
than its bound. -/
theorem Shows.pushRecord (h : Shows pipe log) (r : TracePipeRecord) :
    Shows (pipe.pushRecord r.timestamp r.cpuId r.event)
      { log with window := log.window.put log.maxRecord r } := by
  have hmax := h.max_record
  have hbound := h.bounded
  have hbuf : (pipe.pushRecord r.timestamp r.cpuId r.event).eventBuf =
      (log.window.put log.maxRecord r).contents := by
    rw [TracePipeRaw.pushRecord, Window.contents_put, ← h.records, ← hmax]
    rw [← h.records, ← hmax] at hbound
    split
    · rename_i hzero
      have hnil : pipe.eventBuf = [] := List.eq_nil_of_length_eq_zero (by omega)
      rw [hnil, hzero]
      rfl
    · rename_i hpos
      dsimp only
      split
      · rename_i hfull
        have hone : pipe.eventBuf.length + 1 - pipe.maxRecord = 1 := by omega
        rw [hone, List.drop_append_of_le_length (by omega), List.eraseIdx_zero, List.drop_one]
      · rename_i hroom
        have hnone : pipe.eventBuf.length + 1 - pipe.maxRecord = 0 := by omega
        rw [hnone, List.drop_zero]
  refine ⟨?_, hbuf, Window.length_put_le _ _ _⟩
  rw [← hmax]
  unfold TracePipeRaw.pushRecord
  split <;> rfl

theorem Shows.pop (h : Shows pipe log) : pipe.pop.1 = log.window.contents.head? ∧
    Shows pipe.pop.2 { log with window := log.window.take } := by
  have hbound := h.bounded
  rw [← h.records]
  have htail : pipe.pop.2.eventBuf = log.window.take.contents := by
    rw [Window.contents_take, ← h.records, TracePipeRaw.pop]
    cases hbuf : pipe.eventBuf with
    | nil => exact hbuf
    | cons record rest => rfl
  refine ⟨?_, ?_, htail, ?_⟩
  · rw [TracePipeRaw.pop]
    cases pipe.eventBuf <;> rfl
  · rw [TracePipeRaw.pop]
    cases pipe.eventBuf <;> exact h.max_record
  · rw [Window.contents_take, List.length_tail]
    dsimp only
    omega

theorem Shows.clear (h : Shows pipe log) :
    Shows pipe.clear { log with window := log.window.clear } where
  max_record := h.max_record
  records := (Window.contents_clear _).symm
  bounded := by
    rw [Window.contents_clear]
    exact Nat.zero_le _

/-- One call on the pipe is answered as the log answers it. -/
theorem step_refines : Machine.Refines Shows step Log.step := by
  intro pipe log op h
  cases op with
  | setMaxRecord maxRecord => exact ⟨_, rfl, h.setMaxRecord maxRecord⟩
  | pushRecord r => exact ⟨_, rfl, h.pushRecord r⟩
  | pushEvent event => exact ⟨_, rfl, h.pushRecord ⟨0, 0, event⟩⟩
  | pop =>
    obtain ⟨hanswer, hnext⟩ := h.pop
    exact ⟨_, by rw [step, hanswer]; rfl, hnext⟩
  | peek => exact ⟨pipe, by rw [step, TracePipeRaw.peek, h.records]; rfl, h⟩
  | isEmpty => exact ⟨pipe, by rw [step, TracePipeRaw.isEmpty, h.records]; rfl, h⟩
  | eventCount => exact ⟨pipe, by rw [step, TracePipeRaw.eventCount, h.records]; rfl, h⟩
  | snapshot => exact ⟨pipe, by rw [step, TracePipeRaw.snapshot, h.records]; rfl, h⟩
  | clear => exact ⟨_, rfl, h.clear⟩

/-- Any calls on a new pipe are answered as the log of its records answers them: readers get the
records in the order of the pushes and each at most once, and only the oldest ones are ever gone
without having been read. -/
theorem pipe_refines_log (maxRecord : Nat) (ops : List Op) :
    ∃ pipe, Machine.run step (.new maxRecord) ops =
        some ((Machine.specRun Log.step (.new maxRecord) ops).1, pipe) ∧
      Shows pipe (Machine.specRun Log.step (.new maxRecord) ops).2 :=
  step_refines.run ops (Shows.new maxRecord)

end RawPipe

end ExtKtrace.Ktracepoint
