import ExtKtrace.Ktracepoint.CmdLineRecency
import ExtKtrace.Ktracepoint.Entry
import ExtKtrace.Ktracepoint.Init
import ExtKtrace.Ktracepoint.RawPipe

/-!
# Trace records as text

The line that `trace_pipe` shows for a record: the tracepoint is found by the type in the record, the
name of the process by its pid, and the rest is printed by the tracepoint's own function.
-/

namespace ExtKtrace.Ktracepoint
set_option autoImplicit false

open ReprC (readFields)
open TpLexer (Target Prim)
open TpLexer.BufSound
open Utf8 (Str)

/-- `((b'0') + n) as char`. -/
def preemptChar (n : UInt8) : Char := if n ≠ 0 then Char.ofNat (48 + n).toNat else '.'

def TraceEntry.tracePrintLatFmt (e : TraceEntry) : Str :=
  let irqsOff := '.'
  let resched := '.'
  let hardsoftIrq := '.'
  let preemptLow := preemptChar (e.commonPreemptCount &&& 0xf)
  let preemptHigh := preemptChar (e.commonPreemptCount >>> 4)
  [irqsOff, resched, hardsoftIrq, preemptLow, preemptHigh]

def secs (time : UInt64) : Nat := time.toNat / 1000000000

def usecRem (time : UInt64) : Nat := time.toNat % 1000000000 / 1000

/-- `format!("{:>16}-{:<7} [{:03}] {} {:5}.{:06}: {}({})\n", ...)`. -/
def formatRecord (pname : Str) (pid : Int32) (cpuId : UInt32) (lat : Str) (time : UInt64)
    (name str : Str) : Str :=
  pname.leftpad 16 ' ' ++ '-' :: (decimal pid.toInt).rightpad 7 ' ' ++
    " [".toList ++ (Nat.toDigits 10 cpuId.toNat).leftpad 3 '0' ++ "] ".toList ++ lat ++
    ' ' :: (Nat.toDigits 10 (secs time)).leftpad 5 ' ' ++
    '.' :: (Nat.toDigits 10 (usecRem time)).leftpad 6 '0' ++ ": ".toList ++
    name ++ '(' :: str ++ ")\n".toList

namespace TraceEntryParser
variable {κ : Type} {crate : ResizableCrate UInt32 Str}

/-- `none` is a panic: of `expect`, of the slice behind the common fields or of the cache. -/
def parse (t : Target) (tracepointMap : TracePointMap κ) (cmdlineCache : TraceCmdLineCache crate)
    (record : TracePipeRecord) : Option Str := do
  let entry := record.event
  let traceEntry := TraceEntry.ofBytes t entry
  let id := traceEntry.commonType.toUInt32
  let tracepoint ← tracepointMap.lookup id
  let offset := TraceEntry.shape.size
  if entry.length < offset then none
  else
    let str := tracepoint.traceEntryFmtFunc (entry.drop offset)
    let pname := (← cmdlineCache.get traceEntry.commonPid.toUInt32).getD "<...>".toList
    return formatRecord pname traceEntry.commonPid record.cpuId traceEntry.tracePrintLatFmt
      record.timestamp tracepoint.name str

end TraceEntryParser

theorem fromNeBytes_toNeBytes {t : Target} {p : Prim} {v : Int} (h : p.InRange t v) :
    p.fromNeBytes t (p.toNeBytes t v) = v :=
  ((Prim.stored_iff (Prim.length_toNeBytes t p v)).mp ⟨h, rfl⟩).symm

theorem inRange_u8 (t : Target) (n : UInt8) : Prim.u8.InRange t n.toNat :=
  ⟨Int.natCast_nonneg _, Int.ofNat_lt.mpr n.toNat_lt⟩

theorem inRange_u16 (t : Target) (n : UInt16) : Prim.u16.InRange t n.toNat :=
  ⟨Int.natCast_nonneg _, Int.ofNat_lt.mpr n.toNat_lt⟩

theorem inRange_i32 (t : Target) (n : Int32) : Prim.i32.InRange t n.toInt :=
  ⟨n.le_toInt, n.toInt_lt⟩

/-- The common fields are read back. -/
theorem ofBytes_of_placed {t : Target} {buf : List UInt8} {e : TraceEntry}
    {fs : List BuiltinField} {vs : List Value}
    (h : List.Forall₂ (Placed buf) (commonFields ++ fs)
      (namedValues TraceEntry.entry (e.values t) ++ vs)) : TraceEntry.ofBytes t buf = e := by
  obtain ⟨type, flags, preempt, pid⟩ := e
  rcases h with _ | ⟨htype, _ | ⟨hflags, _ | ⟨hpreempt, _ | ⟨hpid, -⟩⟩⟩⟩
  have htype := htype.bytes
  have hflags := hflags.bytes
  have hpreempt := hpreempt.bytes
  have hpid := hpid.bytes
  dsimp only at htype hflags hpreempt hpid
  unfold TraceEntry.ofBytes
  rw [htype, hflags, hpreempt, hpid]
  rw [fromNeBytes_toNeBytes (inRange_u16 t type), fromNeBytes_toNeBytes (inRange_u8 t flags),
    fromNeBytes_toNeBytes (inRange_u8 t preempt), fromNeBytes_toNeBytes (inRange_i32 t pid)]
  simp

namespace EventDecl
variable {t : Target} {d : EventDecl t} {values : List (List UInt8)}

theorem ofBytes_fullEntry (pad : Nat → UInt8) (common : TraceEntry)
    (h : List.Forall₂ (fun f bytes => bytes.length = f.shape.size) d.entry values) :
    TraceEntry.ofBytes t (d.fullEntry pad common values) = common :=
  ofBytes_of_placed (d.placed pad common h)

/-- The printing function looks for the entry right behind the common fields. -/
theorem traceFmt_fullEntry (pad : Nat → UInt8) (common : TraceEntry)
    (h : List.Forall₂ (fun f bytes => bytes.length = f.shape.size) d.entry values)
    (halign : d.entryShape.align ∣ TraceEntry.shape.size) :
    d.traceFmt ((d.fullEntry pad common values).drop TraceEntry.shape.size) = d.printk values := by
  have hoffset : d.entryOffset = TraceEntry.shape.size :=
    ReprC.roundUp_eq_self d.entryShape.align_pos halign
  have hread := readFields_fullEntry pad common h
  rw [hoffset] at hread
  rw [traceFmt, ReprC.readFields_drop, hread]

theorem size_le_length_fullEntry (pad : Nat → UInt8) (common : TraceEntry)
    (h : List.Forall₂ (fun f bytes => bytes.length = f.shape.size) d.entry values) :
    TraceEntry.shape.size ≤ (d.fullEntry pad common values).length := by
  rcases d.placed pad common h with _ | ⟨-, _ | ⟨-, _ | ⟨-, _ | ⟨hpid, -⟩⟩⟩⟩
  exact hpid.inside

end EventDecl

/-- The digits in front of the point and the six behind it are the time in microseconds. -/
theorem digits_of_time (time : UInt64) :
    ((Nat.toDigits 10 (usecRem time)).leftpad 6 '0').length = 6 ∧
    Nat.ofDigitChars 10 (Nat.toDigits 10 (secs time)) 0 * 1000000 +
      Nat.ofDigitChars 10 ((Nat.toDigits 10 (usecRem time)).leftpad 6 '0') 0 =
        time.toNat / 1000 := by
  have husec : usecRem time < 10 ^ 6 := by
    unfold usecRem
    omega
  constructor
  · rw [List.length_leftpad]
    exact Nat.max_eq_left ((Nat.length_toDigits_le_iff (by decide) (by decide)).mpr husec)
  · have hpad : ∀ n k, Nat.ofDigitChars 10 ((Nat.toDigits 10 n).leftpad k '0') 0 = n := by
      intro n k
      rw [List.leftpad, Nat.ofDigitChars_append, Nat.ofDigitChars_replicate_zero, Nat.mul_zero,
        Nat.ofDigitChars_ten_toDigits]
    rw [hpad, Nat.ofDigitChars_ten_toDigits, secs, usecRem]
    omega

namespace TraceEntryParser
variable {κ : Type} {crate : ResizableCrate UInt32 Str} {t : Target}

/-- The record of an event is printed as what was assigned when the event occurred, as long as the
tracepoint is found under the sixteen bits of its id that the record keeps and its entry is aligned to
no more than the common fields are long. -/
theorem parse_event {d : EventDecl t} {tracepointMap : TracePointMap κ}
    {cache : TraceCmdLineCache crate} {common : TraceEntry} {tp : StaticTracePoint κ}
    {pname : Option Str} (halign : d.entryShape.align ∣ TraceEntry.shape.size)
    (hmap : tracepointMap.lookup common.commonType.toUInt32 = some tp)
    (hfmt : tp.traceEntryFmtFunc = d.traceFmt)
    (hname : cache.get common.commonPid.toUInt32 = some pname) (pad : Nat → UInt8)
    (memory : UInt64 → UInt8) (args : List Arg) (timestamp : UInt64) (cpuId : UInt32) :
    parse t tracepointMap cache
        ⟨timestamp, cpuId, d.fullEntry pad common (d.fastAssign memory args)⟩ =
      some (formatRecord (pname.getD "<...>".toList) common.commonPid cpuId
        common.tracePrintLatFmt timestamp tp.name (d.printk (d.fastAssign memory args))) := by
  have hsized := d.sized memory args
  have hlong := d.size_le_length_fullEntry pad common hsized
  unfold parse
  dsimp only
  rw [d.ofBytes_fullEntry pad common hsized, hmap, Option.bind_eq_bind, Option.bind_some,
    if_neg (Nat.not_lt.mpr hlong), hfmt, d.traceFmt_fullEntry pad common hsized halign, hname]
  rfl

/-- For every declaration of an event, every call of its tracepoint and every process: where the 16 bits
of `common_type` find the tracepoint, the record prints, the tracepoint's own text is made from just
the values that were assigned, and the digits of the time are the microseconds of the clock. -/
theorem event_line {d : EventDecl t} {tracepointMap : TracePointMap κ}
    {cache : TraceCmdLineCache crate} {common : TraceEntry} {tp : StaticTracePoint κ}
    {pname : Option Str} (halign : d.entryShape.align ∣ TraceEntry.shape.size)
    (hmap : tracepointMap.lookup common.commonType.toUInt32 = some tp)
    (hfmt : tp.traceEntryFmtFunc = d.traceFmt)
    (hname : cache.get common.commonPid.toUInt32 = some pname) (pad : Nat → UInt8)
    (memory : UInt64 → UInt8) (args : List Arg) (timestamp : UInt64) (cpuId : UInt32) :
    ∃ before usec after secs : Str,
      parse t tracepointMap cache
          ⟨timestamp, cpuId, d.fullEntry pad common (d.fastAssign memory args)⟩ =
        some (before ++ secs.leftpad 5 ' ' ++ '.' :: usec ++ after) ∧
      usec.length = 6 ∧
      Nat.ofDigitChars 10 secs 0 * 1000000 + Nat.ofDigitChars 10 usec 0 = timestamp.toNat / 1000 ∧
      before = (pname.getD "<...>".toList).leftpad 16 ' ' ++
        '-' :: (decimal common.commonPid.toInt).rightpad 7 ' ' ++ " [".toList ++
        (Nat.toDigits 10 cpuId.toNat).leftpad 3 '0' ++ "] ".toList ++
        common.tracePrintLatFmt ++ [' '] ∧
      after = ": ".toList ++ tp.name ++ '(' :: d.printk (d.fastAssign memory args) ++
        ")\n".toList := by
  obtain ⟨hlength, htime⟩ := digits_of_time timestamp
  refine ⟨_, _, _, Nat.toDigits 10 (secs timestamp), ?_, hlength, htime, rfl, rfl⟩
  rw [parse_event halign hmap hfmt hname pad memory args timestamp cpuId, formatRecord]
  simp only [List.append_assoc, List.cons_append, List.nil_append]

def x86 : Target := ⟨false, false, true⟩

def test2Map : TracePointMap Bool := (∅ : TracePointMap Bool).insert 0 ((EventDecl.test2 x86).static false)

theorem event_line_test2 : ∃ before usec after secs : Str,
    parse x86 test2Map (.new (CmdLineRecency.listCrate UInt32 Str) ⟨1, Nat.one_pos⟩)
        ⟨1000, 8, (EventDecl.test2 x86).fullEntry (fun _ => 0) ⟨0, 0, 0, 255⟩
          ((EventDecl.test2 x86).fastAssign (fun _ => 0) [.int 1, .int 2])⟩ =
      some (before ++ secs.leftpad 5 ' ' ++ '.' :: usec ++ after) := by
  obtain ⟨before, usec, after, secs, hparse, -⟩ :=
    @event_line Bool (CmdLineRecency.listCrate UInt32 Str) x86 (.test2 x86) test2Map
      (.new _ ⟨1, Nat.one_pos⟩) ⟨0, 0, 0, 255⟩ ((EventDecl.test2 x86).static false) none
      (by decide) rfl rfl rfl (fun _ => 0) (fun _ => 0) [.int 1, .int 2] 1000 8
  exact ⟨before, usec, after, secs, hparse⟩

end TraceEntryParser

end ExtKtrace.Ktracepoint
