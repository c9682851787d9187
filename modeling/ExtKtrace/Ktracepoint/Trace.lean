import ExtKtrace.Ktracepoint.Parse

/-!
# Tracing

What happens when a tracepoint is hit, over the state that a host keeps: the runtime states of the
tracepoints under their ids, the trace pipe and the command line cache.
-/

namespace ExtKtrace.Ktracepoint
set_option autoImplicit false

open Ddebug (RawStaticFalseKey)
open TpLexer (Target Compiled Message bufContext)
open Utf8 (Str byteLen fit)

/-- What is around a tracepoint when it is hit: the process, the clock and the memory that the
arguments point to. The padding of the event is whatever lies on the stack. -/
structure Caller where
  pid : UInt32
  comm : Str
  timestamp : UInt64
  cpuId : UInt32
  memory : UInt64 → UInt8
  pad : Nat → UInt8

/-- The name can be cut behind its sixteenth byte. -/
def Caller.Cuttable (caller : Caller) : Prop :=
  byteLen (fit 16 caller.comm) = min 16 (byteLen caller.comm)

instance : DecidablePred Caller.Cuttable := fun caller =>
  inferInstanceAs (Decidable (byteLen (fit 16 caller.comm) = min 16 (byteLen caller.comm)))

inductive Upcall where
  | default (func : FnPtr) (data : Nat) (args : List Arg)
  | event (func : ArcPtr) (entry : List UInt8)
  | rawEvent (func : ArcPtr) (args : List UInt64)

/-- The key of a tracepoint is the one in its runtime state. -/
structure Tracing (κ : Type) (crate : ResizableCrate UInt32 Str) where
  points : List (ExtTracePointState κ)
  heap : List TraceDefaultFunc
  perfEnable : ArcPtr → Bool
  pipe : TracePipeRaw
  cmdline : TraceCmdLineCache crate

variable {t : Target} {κ : Type} {crate : ResizableCrate UInt32 Str}

def commonEntry (id : UInt32) (flags : UInt8) (pid : UInt32) : TraceEntry where
  commonType := id.toUInt16
  commonFlags := flags
  commonPreemptCount := 0
  commonPid := pid.toInt32

theorem tracePrintLatFmt_commonEntry (id : UInt32) (flags : UInt8) (pid : UInt32) :
    (commonEntry id flags pid).tracePrintLatFmt = ".....".toList := by
  have hlow : preemptChar ((0 : UInt8) &&& 0xf) = '.' := by decide
  have hhigh : preemptChar ((0 : UInt8) >>> 4) = '.' := by decide
  unfold TraceEntry.tracePrintLatFmt commonEntry
  dsimp only
  rw [hlow, hhigh]
  rfl

namespace EventDecl
variable (d : EventDecl t)

def eventBuf (tp : StaticTracePoint κ) (caller : Caller) (args : List Arg) : List UInt8 :=
  d.fullEntry caller.pad (commonEntry tp.id tp.flags caller.pid) (d.fastAssign caller.memory args)

/-- Whether the event gets past the filter; `none` where evaluating panics. -/
def passesFilter (t : Target) (tpCompiledExpr : Option Compiled) (schema : TpLexer.Schema)
    (eventBuf : List UInt8) : Option Bool :=
  match tpCompiledExpr with
  | none => some true
  | some compiled => (compiled.evaluate (bufContext t eventBuf schema)).toOption

def runTraceDefault (tp : StaticTracePoint κ) (tpCompiledExpr : Option Compiled) (caller : Caller)
    (args : List Arg) (s : Tracing κ crate) : Option (Tracing κ crate) := do
  let eventBuf := d.eventBuf tp caller args
  if ← passesFilter t tpCompiledExpr tp.schema eventBuf then
    let cmdline ← s.cmdline.insert caller.pid caller.comm
    return { s with
      cmdline := cmdline
      pipe := s.pipe.pushRecord caller.timestamp caller.cpuId eventBuf }
  else return s

def runCallback (tp : StaticTracePoint κ) (ext : ExtTracePointState κ) (caller : Caller)
    (args : List Arg) (s : Tracing κ crate) :
    TraceCallbackType → Option (List Upcall × Tracing κ crate)
  | .default func => do
    let f ← s.heap[func]?
    if f.func = d.traceDefault then
      let s ← d.runTraceDefault tp ext.compiledExpr caller args s
      return ([], s)
    else return ([.default f.func f.data args], s)
  | .event func =>
    if s.perfEnable func then some ([.event func (d.eventBuf tp caller args)], s)
    else some ([], s)
  | .rawEvent func => some ([.rawEvent func (args.map Arg.asU64)], s)

end EventDecl

namespace Tracing

/-- `read_tracepoint_state`: the state that is kept under an id. -/
def stateOf (id : UInt32) (s : Tracing κ crate) : Option (ExtTracePointState κ) :=
  s.points.find? fun ext => ext.tracepoint.id = id

def writeState {α : Type} (id : UInt32)
    (f : ExtTracePointState κ → Option (α × ExtTracePointState κ)) (s : Tracing κ crate) :
    Option (α × Tracing κ crate) := do
  let i ← s.points.findIdx? fun ext => ext.tracepoint.id = id
  let ext ← s.points[i]?
  let (a, ext) ← f ext
  return (a, { s with points := s.points.set i ext })

/-- `trace_$name`, for the tracepoint at a place. -/
def trace (F : RawStaticFalseKey κ) (d : EventDecl t) (place : Nat) (caller : Caller)
    (args : List Arg) (s : Tracing κ crate) : Option (List Upcall × Tracing κ crate) := do
  let tp := (← s.points[place]?).tracepoint
  if tp.keyIsEnabled F then
    let ext ← s.stateOf tp.id
    let (calls, s) ← Machine.run (d.runCallback tp ext caller args) s ext.callbacks
    return (calls.flatten, s)
  else return ([], s)

def registerTrace (F : RawStaticFalseKey κ) (place : Nat) (func : FnPtr) (data : Nat)
    (s : Tracing κ crate) : Option (TraceCallbackType × Tracing κ crate) := do
  let tp := (← s.points[place]?).tracepoint
  let callback := TraceCallbackType.default s.heap.length
  let s : Tracing κ crate := { s with heap := s.heap ++ [{ func := func, data := data }] }
  let (_, s) ← s.writeState tp.id fun ext => some ((), ext.register F callback)
  return (callback, s)

/-- A call of a method on the runtime state of the tracepoint at a place. -/
def callState {α : Type} (place : Nat)
    (f : ExtTracePointState κ → Option (α × ExtTracePointState κ)) (s : Tracing κ crate) :
    Option (α × Tracing κ crate) := do
  let tp := (← s.points[place]?).tracepoint
  s.writeState tp.id f

def writeFilter (format : Message → Str) (filter : Str) (ext : ExtTracePointState κ) :
    Option (Except String Unit × ExtTracePointState κ) := do
  let (r, _, ext') ← TraceFilterFile.step format (.new, ext.toExt) filter
  return (r, { ext with compiledExpr := ext'.compiledExpr })

def printTraceRecords (t : Target) (tracepointMap : TracePointMap κ) (s : Tracing κ crate) :
    Option (List Str) :=
  s.pipe.snapshot.mapM (TraceEntryParser.parse t tracepointMap s.cmdline)

inductive Op (n : Nat) where
  | trace (place : Fin n) (caller : Caller) (args : List Arg)
  | registerTrace (place : Fin n) (func : FnPtr) (data : Nat)
  | registerEvent (place : Fin n) (func : ArcPtr)
  | registerRawEvent (place : Fin n) (func : ArcPtr)
  | unregister (place : Fin n) (callback : TraceCallbackType)
  | enableFile (place : Fin n) (enable : Char)
  | filter (place : Fin n) (filter : Str)
  | setPerfEnable (func : ArcPtr) (enable : Bool)
  | printTraceRecords
  | pop
  | clear
  | setMaxRecord (maxRecord : Nat)
  | setMaxCmdline (maxLen : NonZeroUsize)

/-- What no run panics on: writing an empty filter does, and so does caching a name that cannot be
cut. -/
def Op.Answerable {n : Nat} : Op n → Prop
  | .trace _ caller _ => caller.Cuttable
  | .filter _ text => text ≠ []
  | _ => True

instance {n : Nat} : DecidablePred (@Op.Answerable n) := fun op =>
  match op with
  | .trace _ caller _ => inferInstanceAs (Decidable caller.Cuttable)
  | .filter _ text => inferInstanceAs (Decidable (text ≠ []))
  | .registerTrace .. | .registerEvent .. | .registerRawEvent .. | .unregister ..
  | .enableFile .. | .setPerfEnable .. | .printTraceRecords | .pop | .clear | .setMaxRecord _
  | .setMaxCmdline _ => .isTrue trivial

inductive Answer where
  | done
  | calls (calls : List Upcall)
  | callback (callback : TraceCallbackType)
  | written (r : Except String Unit)
  | lines (lines : List Str)
  | record (record : Option TracePipeRecord)

structure Config (t : Target) (κ : Type) where
  key : RawStaticFalseKey κ
  format : Message → Str
  decls : List (EventDecl t)
  tracepointMap : TracePointMap κ

variable (c : Config t κ)

def step (s : Tracing κ crate) : Op c.decls.length → Option (Answer × Tracing κ crate)
  | .trace place caller args =>
    (s.trace c.key (c.decls.get place) place caller args).map fun r => (.calls r.1, r.2)
  | .registerTrace place func data =>
    (s.registerTrace c.key place func data).map fun r => (.callback r.1, r.2)
  | .registerEvent place func =>
    s.callState place fun ext => some (.done, ext.register c.key (.event func))
  | .registerRawEvent place func =>
    s.callState place fun ext => some (.done, ext.register c.key (.rawEvent func))
  | .unregister place callback =>
    s.callState place fun ext => some (.done, ext.unregister c.key callback)
  | .enableFile place enable =>
    s.callState place fun ext => some (.done, TracePointEnableFile.write c.key enable ext)
  | .filter place filter =>
    (s.callState place (writeFilter c.format filter)).map fun r => (.written r.1, r.2)
  | .setPerfEnable func enable =>
    some (.done, { s with perfEnable := Function.update s.perfEnable func enable })
  | .printTraceRecords => (s.printTraceRecords t c.tracepointMap).map fun r => (.lines r, s)
  | .pop => some (.record s.pipe.pop.1, { s with pipe := s.pipe.pop.2 })
  | .clear => some (.done, { s with pipe := s.pipe.clear })
  | .setMaxRecord maxRecord => some (.done, { s with pipe := s.pipe.setMaxRecord maxRecord })
  | .setMaxCmdline maxLen => some (.done, { s with cmdline := s.cmdline.setMaxRecord maxLen })

structure Linked (t : Target) (κ : Type) where
  decl : EventDecl t
  key : κ

def Linked.meta (l : Linked t κ) : CommonTracePointMeta κ where
  tracePoint := l.decl.static l.key
  printFunc := l.decl.traceDefault

/-- The declarations in the order of their names. -/
def sorted (linked : List (Linked t κ)) : List (Linked t κ) :=
  StableSort.sortBy (fun a b => cmpMeta a.meta b.meta) linked

def initEvents (linked : List (Linked t κ)) : Events κ :=
  globalInitEvents 0 [] (linked.map Linked.meta)

def config (F : RawStaticFalseKey κ) (format : Message → Str) (linked : List (Linked t κ)) :
    Config t κ where
  key := F
  format := format
  decls := (sorted linked).map Linked.decl
  tracepointMap := (initEvents linked).tpMap

def start (crate : ResizableCrate UInt32 Str) (maxRecord : Nat) (maxCmdline : NonZeroUsize)
    (linked : List (Linked t κ)) : Tracing κ crate where
  points := (initEvents linked).extTps
  heap := (initEvents linked).heap
  perfEnable := fun _ => false
  pipe := .new maxRecord
  cmdline := .new crate maxCmdline

end Tracing

end ExtKtrace.Ktracepoint
