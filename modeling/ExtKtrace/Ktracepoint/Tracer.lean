import ExtKtrace.Ktracepoint.Trace

/-!
# What tracing is for

A tracer as its users see it: subscribers, filters and a bounded log of events. It knows of no keys,
ids or callbacks of the code's own, and of an event's bytes only where a subscriber is given them. It
is shown to answer whatever a host does just as the code does.
-/

namespace ExtKtrace.Ktracepoint
set_option autoImplicit false

open TpLexer (Target Message Expr compileWithSchema)
open Utf8 (Str encode fit)

variable {t : Target} {κ : Type} {crate : ResizableCrate UInt32 Str}

/-- What a subscriber wants done with an event. -/
inductive Action where
  | pipe
  | custom (func : FnPtr) (data : Nat)
  | event (func : ArcPtr)
  | rawEvent (func : ArcPtr)

structure Subscriber where
  handle : TraceCallbackType
  action : Action

/-- A tracepoint was hit. -/
structure Event (n : Nat) where
  place : Fin n
  caller : Caller
  args : List Arg

/-- Who listens to a tracepoint and what gets through to the pipe. -/
structure Listeners where
  subscribers : List Subscriber
  filter : Option Expr

structure Tracer (n : Nat) where
  listeners : Fin n → Listeners
  -- The handle of the next callback.
  next : ArcPtr
  enabled : ArcPtr → Bool
  maxRecord : Nat
  window : Window (Event n)
  names : List CmdLineRecency.Op

namespace Listeners

def add (sub : Subscriber) (l : Listeners) : Listeners :=
  if ∃ other ∈ l.subscribers, other.handle = sub.handle then l
  else { l with subscribers := l.subscribers ++ [sub] }

def remove (handle : TraceCallbackType) (l : Listeners) : Listeners :=
  { l with subscribers := l.subscribers.filter (·.handle ≠ handle) }

/-- A write to the enable file, with the handle that it stands for. -/
def switch (handle : TraceCallbackType) (enable : Char) (l : Listeners) : Listeners :=
  if enable = '1' then l.add ⟨handle, .pipe⟩ else if enable = '0' then l.remove handle else l

end Listeners

namespace Event
variable {n : Nat} (decls : Fin n → EventDecl t) (e : Event n)

def common : TraceEntry := commonEntry (.ofNat e.place) 0 e.caller.pid

def assigned : List (List UInt8) := (decls e.place).fastAssign e.caller.memory e.args

def bytes : List UInt8 :=
  (decls e.place).fullEntry e.caller.pad e.common (e.assigned decls)

def record : TracePipeRecord where
  timestamp := e.caller.timestamp
  cpuId := e.caller.cpuId
  event := e.bytes decls

/-- Whether the event gets through a filter, which looks at the values that were assigned. -/
def passes (filter : Option Expr) : Bool :=
  match filter with
  | none => true
  | some expr => truth t ((decls e.place).values e.common (e.assigned decls)) expr = some true

/-- What the code finds in the bytes of an event is what was assigned. -/
theorem evaluate_bytes {input : TpLexer.Str} {compiled : TpLexer.Compiled}
    (h : compileWithSchema input (decls e.place).schema = some (.ok compiled)) :
    compiled.evaluate (TpLexer.bufContext t (e.bytes decls) (decls e.place).schema) =
      .ok (e.passes decls (some compiled.expr)) := by
  obtain ⟨b, htruth, hvalue⟩ := (decls e.place).evaluate_fullEntry e.common e.caller.memory e.args
    e.caller.pad h
  have hpasses : e.passes decls (some compiled.expr) = b := by
    have hexpr : truth t ((decls e.place).values e.common (e.assigned decls)) compiled.expr =
        some b := htruth
    unfold passes
    dsimp only
    rw [hexpr]
    cases b <;> rfl
  rw [hpasses]
  exact hvalue

open Classical in
/-- What the cache has for a process: the name that was cached last, unless it has been pushed out
by others. -/
noncomputable def shownName (cap : NonZeroUsize) (names : List CmdLineRecency.Op) (pid : UInt32) :
    Option Str :=
  if CmdLineRecency.Held cap pid names then
    (CmdLineRecency.lastName pid names).map fun name => (fit 16 name).rdropWhile (· = '\n')
  else none

noncomputable def line (cap : NonZeroUsize) (names : List CmdLineRecency.Op) : Str :=
  formatRecord ((shownName cap names e.caller.pid).getD "<...>".toList) e.caller.pid.toInt32
    e.caller.cpuId ".....".toList e.caller.timestamp (decls e.place).name
    ((decls e.place).printk (e.assigned decls))

end Event

namespace Tracer
open Tracing (Op Answer)

section Step
variable {n : Nat} (decls : Fin n → EventDecl t)

/-- One subscriber gets an event. -/
def deliver (e : Event n) (s : Tracer n) (sub : Subscriber) : List Upcall × Tracer n :=
  match sub.action with
  | .pipe =>
    if e.passes decls (s.listeners e.place).filter then
      ([], { s with
        names := .insert e.caller.pid e.caller.comm :: s.names
        window := s.window.put s.maxRecord e })
    else ([], s)
  | .custom func data => ([.default func data e.args], s)
  | .event func => (if s.enabled func then [.event func (e.bytes decls)] else [], s)
  | .rawEvent func => ([.rawEvent func (e.args.map Arg.asU64)], s)

def hit (e : Event n) (s : Tracer n) : List Upcall × Tracer n :=
  let r := Machine.specRun (deliver decls e) s (s.listeners e.place).subscribers
  (r.1.flatten, r.2)

def modify (place : Fin n) (f : Listeners → Listeners) (s : Tracer n) : Tracer n :=
  { s with listeners := Function.update s.listeners place (f (s.listeners place)) }

@[simp] theorem listeners_modify_self (place : Fin n) (f : Listeners → Listeners) (s : Tracer n) :
    (s.modify place f).listeners place = f (s.listeners place) := Function.update_self ..

theorem listeners_modify_of_ne {place other : Fin n} (h : other ≠ place)
    (f : Listeners → Listeners) (s : Tracer n) :
    (s.modify place f).listeners other = s.listeners other := Function.update_of_ne h ..

/-- A subscriber that was given a function of its own. -/
def actionOf (d : EventDecl t) (func : FnPtr) (data : Nat) : Action :=
  if func = d.traceDefault then .pipe else .custom func data

/-- A text that begins with a zero clears the filter, and so does one that does not compile. -/
def setFilter (place : Fin n) (filter : Str) (s : Tracer n) : Except String Unit × Tracer n :=
  if filter.head? = some '0' then
    (.ok (), s.modify place fun l => { l with filter := none })
  else
    match compileWithSchema (encode filter) (decls place).schema with
    | some (.ok compiled) =>
      (.ok (), s.modify place fun l => { l with filter := some compiled.expr })
    | _ => (.error "compile error", s.modify place fun l => { l with filter := none })

noncomputable def step (cap : NonZeroUsize) (s : Tracer n) : Op n → Answer × Tracer n
  | .trace place caller args =>
    let r := s.hit decls ⟨place, caller, args⟩
    (.calls r.1, r.2)
  | .registerTrace place func data =>
    let sub := ⟨.default s.next, actionOf (decls place) func data⟩
    (.callback sub.handle, { s.modify place (.add sub) with next := s.next + 1 })
  | .registerEvent place func => (.done, s.modify place (.add ⟨.event func, .event func⟩))
  | .registerRawEvent place func =>
    (.done, s.modify place (.add ⟨.rawEvent func, .rawEvent func⟩))
  | .unregister place callback => (.done, s.modify place (.remove callback))
  | .enableFile place enable =>
    (.done, s.modify place (.switch (.default place) enable))
  | .filter place filter =>
    let r := s.setFilter decls place filter
    (.written r.1, r.2)
  | .setPerfEnable func enable =>
    (.done, { s with enabled := Function.update s.enabled func enable })
  | .printTraceRecords => (.lines (s.window.contents.map fun e => e.line decls cap s.names), s)
  | .pop =>
    (.record (s.window.contents.head?.map fun e => e.record decls),
      { s with window := s.window.take })
  | .clear => (.done, { s with window := s.window.clear })
  | .setMaxRecord maxRecord =>
    (.done, { s with maxRecord := maxRecord, window := s.window.keep maxRecord })
  | .setMaxCmdline maxLen => (.done, { s with names := .setMaxRecord maxLen :: s.names })

/-- No subscribers, no filters, nothing recorded; the handles below `n` are those of the pipe. -/
def start (n maxRecord : Nat) : Tracer n where
  listeners := fun _ => ⟨[], none⟩
  next := n
  enabled := fun _ => false
  maxRecord := maxRecord
  window := .empty
  names := []

end Step

end Tracer

end ExtKtrace.Ktracepoint
