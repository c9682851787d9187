import ExtKtrace.Lib.Call
import ExtKtrace.Lib.Machine
import ExtKtrace.TpLexer.Accepted

/-!
# The filter file of a tracepoint

The text that was written, the error of a write that failed and the compiled filter that events go
through are kept in two objects, the file and the tracepoint.
-/

namespace ExtKtrace.Ktracepoint
set_option autoImplicit false

open Utf8 (Str encode)
open TpLexer (Schema Compiled Message compileWithSchema byte)

structure TracePoint where
  schema : Schema

structure ExtTracePoint where
  tracepoint : TracePoint
  compiledExpr : Option Compiled

namespace ExtTracePoint

def new (tracepoint : TracePoint) : ExtTracePoint where
  tracepoint := tracepoint
  compiledExpr := none

def schema (ext : ExtTracePoint) : Schema := ext.tracepoint.schema

def setCompiledExpr (compiled : Option Compiled) (ext : ExtTracePoint) : ExtTracePoint :=
  { ext with compiledExpr := compiled }

def getCompiledExpr (ext : ExtTracePoint) : Option Compiled := ext.compiledExpr

end ExtTracePoint

structure TraceFilterFile where
  filterExpr : Option Str
  preError : Option Str

namespace TraceFilterFile

def new : TraceFilterFile where
  filterExpr := none
  preError := none

def read (file : TraceFilterFile) : Str :=
  match file.preError with
  | some err => err
  | none =>
    match file.filterExpr with
    | some filter => filter
    | none => "none\n".toList

section Write
-- `format!`: the text of a message.
variable (format : Message → Str)

/-- `write` on the file, with the tracepoint it is given. -/
def write (filter : Str) : Call String (TraceFilterFile × ExtTracePoint) Unit := do
  let first ← Call.orPanic (encode filter)[0]?
  if first = byte '0' then
    Call.update fun (file, ext) =>
      ({ file with filterExpr := none, preError := none }, ext.setCompiledExpr none)
  else
    let schema := (← Call.self).2.schema
    match ← Call.orPanic (compileWithSchema (encode filter) schema) with
    | .ok compiledExpr =>
      Call.update fun (file, ext) =>
        ({ file with filterExpr := some filter, preError := none },
          ext.setCompiledExpr (some compiledExpr))
    | .error e =>
      Call.update fun (file, ext) =>
        ({ file with preError := some (format e.message ++ ['\n']), filterExpr := none },
          ext.setCompiledExpr none)
      throw "compile error"

/-- A write as a step of the file and its tracepoint. -/
def step (s : TraceFilterFile × ExtTracePoint) (filter : Str) :
    Option (Except String Unit × (TraceFilterFile × ExtTracePoint)) :=
  (write format filter).exec s

/-- After a write, the file shows what the tracepoint filters by. -/
structure Truthful (s : TraceFilterFile × ExtTracePoint) (filter : Str) (r : Except String Unit)
    (s' : TraceFilterFile × ExtTracePoint) : Prop where
  tracepoint : s'.2.tracepoint = s.2.tracepoint
  filtered : s'.2.getCompiledExpr.isSome ↔ s'.1.filterExpr.isSome
  active : ∀ expr, s'.1.filterExpr = some expr → expr = filter ∧ s'.1.read = expr ∧
    ∃ compiled, s'.2.getCompiledExpr = some compiled ∧
      compileWithSchema (encode expr) s'.2.schema = some (.ok compiled)
  failed : ∀ msg, r = .error msg →
    ∃ e, compileWithSchema (encode filter) s'.2.schema = some (.error e) ∧
      s'.1.read = format e.message ++ ['\n']
  otherwise : s'.1.filterExpr = none → r = .ok () → s'.1.read = "none\n".toList
  cleared : filter.head? = some '0' →
    r = .ok () ∧ s'.1 = new ∧ s'.2.getCompiledExpr = none

variable {format} {s : TraceFilterFile × ExtTracePoint} {filter : Str}

theorem exec_write_nil : (write format []).exec s = none := rfl

theorem exec_write_zero (h : (encode filter)[0]? = some (byte '0')) :
    (write format filter).exec s = some (.ok (), new, s.2.setCompiledExpr none) := by
  unfold write
  rw [h, Call.exec_bind_ok (Call.exec_orPanic _ _)]
  rfl

theorem exec_write_filter {first : UInt8} (h : (encode filter)[0]? = some first)
    (hfirst : first ≠ byte '0') {r : Except TpLexer.ParseError Compiled}
    (hcompile : compileWithSchema (encode filter) s.2.schema = some r) :
    (write format filter).exec s =
      match r with
      | .ok compiled =>
        some (.ok (), ⟨some filter, none⟩, s.2.setCompiledExpr (some compiled))
      | .error e =>
        some (.error "compile error", ⟨none, some (format e.message ++ ['\n'])⟩,
          s.2.setCompiledExpr none) := by
  unfold write
  rw [h, Call.exec_bind_ok (Call.exec_orPanic _ _)]
  simp only [if_neg hfirst]
  rw [Call.exec_bind_ok (Call.exec_self s)]
  simp only [hcompile]
  rw [Call.exec_bind_ok (Call.exec_orPanic _ _)]
  cases r <;> rfl

theorem truthful_zero : Truthful format s filter (.ok ()) (new, s.2.setCompiledExpr none) where
  tracepoint := rfl
  filtered := Iff.rfl
  active := fun _ h => nomatch h
  failed := fun _ h => nomatch h
  otherwise := fun _ _ => rfl
  cleared := fun _ => ⟨rfl, rfl, rfl⟩

theorem truthful_ok (hfirst : filter.head? ≠ some '0') {compiled : Compiled}
    (h : compileWithSchema (encode filter) s.2.schema = some (.ok compiled)) :
    Truthful format s filter (.ok ())
      (⟨some filter, none⟩, s.2.setCompiledExpr (some compiled)) where
  tracepoint := rfl
  filtered := Iff.rfl
  active := by
    rintro _ ⟨⟩
    exact ⟨rfl, rfl, compiled, rfl, h⟩
  failed := fun _ h => nomatch h
  otherwise := fun h => nomatch h
  cleared := fun hzero => absurd hzero hfirst

theorem truthful_error (hfirst : filter.head? ≠ some '0') {e : TpLexer.ParseError}
    (h : compileWithSchema (encode filter) s.2.schema = some (.error e)) (msg : String) :
    Truthful format s filter (.error msg)
      (⟨none, some (format e.message ++ ['\n'])⟩, s.2.setCompiledExpr none) where
  tracepoint := rfl
  filtered := Iff.rfl
  active := fun _ h => nomatch h
  failed := fun _ _ => ⟨e, h, rfl⟩
  otherwise := fun _ h => nomatch h
  cleared := fun hzero => absurd hzero hfirst

/-- A write comes back unless there is no first byte to look at. -/
theorem step_truthful_iff (s : TraceFilterFile × ExtTracePoint) (filter : Str) :
    (∃ r s', step format s filter = some (r, s') ∧ Truthful format s filter r s') ↔
      filter ≠ [] := by
  unfold step
  constructor
  · rintro ⟨r, s', hexec, -⟩ rfl
    rw [exec_write_nil] at hexec
    cases hexec
  · intro hne
    obtain ⟨first, rest, hbytes⟩ := List.exists_cons_of_ne_nil (Utf8.encode_ne_nil hne)
    have hget : (encode filter)[0]? = some first := by rw [hbytes]; rfl
    by_cases hfirst : first = byte '0'
    · exact ⟨_, _, exec_write_zero (hfirst ▸ hget), truthful_zero⟩
    · have hhead : filter.head? ≠ some '0' := by
        intro hzero
        obtain ⟨rest, rfl⟩ := List.head?_eq_some_iff.mp hzero
        rw [Utf8.encode_cons_ascii (by decide)] at hget
        exact hfirst (Option.some.inj hget).symm
      obtain ⟨r, hcompile⟩ :=
        TpLexer.Accepted.compileWithSchema_returns ⟨filter, rfl⟩ s.2.schema
      have hexec := @exec_write_filter format s filter first hget hfirst r hcompile
      cases r with
      | ok compiled => exact ⟨_, _, hexec, truthful_ok hhead hcompile⟩
      | error e => exact ⟨_, _, hexec, truthful_error hhead hcompile _⟩

end Write

/-- Over any writes to a file and its tracepoint: none panics and the file tells the truth after
each of them exactly if none of the texts is empty. -/
theorem writes_truthful_iff (format : Message → Str) (s : TraceFilterFile × ExtTracePoint)
    (filters : List Str) :
    Machine.AllSteps (step format) (Truthful format) s filters ↔ ∀ filter ∈ filters, filter ≠ [] :=
  Machine.allSteps_iff_forall step_truthful_iff filters s

theorem write_empty_panics :
    ¬ ∀ (format : Message → Str) (schema : Schema) (filters : List Str),
      Machine.AllSteps (step format) (Truthful format) (new, .new ⟨schema⟩) filters := by
  intro h
  obtain ⟨r, s', hstep, -⟩ := h (fun _ => []) ⟨[]⟩ [[]]
  cases hstep.symm.trans exec_write_nil

end TraceFilterFile

end ExtKtrace.Ktracepoint
