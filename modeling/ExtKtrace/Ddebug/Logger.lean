import Mathlib.Data.Finset.Basic
import Mathlib.Data.Finset.Dedup
import Mathlib.Data.Finset.SDiff
import Mathlib.Data.Finset.Lattice.Basic
import ExtKtrace.Ddebug.Runtime

/-!
# A logger of flags

What the control file and the call sites are for: a list of places with a set of flags each, and
no static keys, bits or link order. The code answers any calls and hits as the logger does.
-/

namespace ExtKtrace.Ddebug
set_option autoImplicit false

open StableSort
open Utf8 (encode)

inductive Flag where
  | print | thread | module | func | source | line
  deriving DecidableEq

namespace Flag

def mask : Flag → UInt8
  | print => FLAG_PRINT
  | thread => FLAG_THREAD
  | module => FLAG_MODULE
  | func => FLAG_FUNC
  | source => FLAG_SOURCE
  | line => FLAG_LINE

def index : Flag → Nat
  | print => 0
  | thread => 1
  | module => 2
  | func => 3
  | source => 4
  | line => 5

def letter : Flag → Char
  | print => 'p'
  | thread => 't'
  | module => 'm'
  | func => 'f'
  | source => 's'
  | line => 'l'

/-- In the order of the listing. -/
def all : List Flag := [print, thread, module, func, source, line]

theorem mem_all (f : Flag) : f ∈ all := by cases f <;> decide

theorem mask_eq (f : Flag) : f.mask.toBitVec = BitVec.twoPow 8 f.index := by cases f <;> rfl

end Flag

def flagsIn (bits : UInt8) : Finset Flag := 
  Flag.all.toFinset.filter fun f => bits.toBitVec.getLsbD f.index = true

theorem mem_flagsIn_iff {bits : UInt8} {f : Flag} :
    f ∈ flagsIn bits ↔ bits.toBitVec.getLsbD f.index = true := by
  unfold flagsIn
  rw [Finset.mem_filter, List.mem_toFinset]
  exact and_iff_right f.mem_all

theorem mem_flagsIn {bits : UInt8} {f : Flag} : f ∈ flagsIn bits ↔ bits &&& f.mask ≠ 0 := by
  rw [mem_flagsIn_iff, ← UInt8.toBitVec_inj.ne, UInt8.toBitVec_and, f.mask_eq,
    BitVec.and_twoPow]
  by_cases hbit : bits.toBitVec.getLsbD f.index = true
  · have hne : BitVec.twoPow 8 f.index ≠ (0 : UInt8).toBitVec := by cases f <;> decide
    rw [if_pos hbit]
    exact ⟨fun _ => hne, fun _ => hbit⟩
  · rw [if_neg hbit]
    exact ⟨fun h => absurd h hbit, fun h => absurd rfl h⟩

theorem flagsIn_zero : flagsIn 0 = ∅ := by
  apply Finset.eq_empty_of_forall_notMem
  intro f hf
  exact mem_flagsIn.mp hf (UInt8.zero_and ..)

structure Entry where
  place : Place
  flags : Finset Flag

def FlagOp.onFlags (op : FlagOp) (flags : Finset Flag) : Finset Flag :=
  match op.kind with
  | .add => flags ∪ flagsIn op.mask
  | .remove => flags \ flagsIn op.mask
  | .replace => flagsIn op.mask

def Selector.selects (place : Place) : Selector → Bool
  | .file pattern => matchesFile pattern place.file
  | .func pattern => matchesFunc pattern place.function
  | .module pattern => matchesModule pattern place.module
  | .line range => range.contains place.line
  | .format pattern => matchesFormat pattern place.format

def Command.selects (command : Command) (place : Place) : Bool :=
  command.selectors.all (Selector.selects place)

def Command.onEntry (entry : Entry) (command : Command) : Entry :=
  if command.selects entry.place then
    { entry with flags := command.operation.onFlags entry.flags }
  else entry

theorem parseCommands_isSome (query : Str) : (parseCommands query).run.isSome = true := by
  obtain ⟨r, hr⟩ := parseCommands_comes_back query
  rw [hr]
  rfl

/-- The commands of a query. -/
def commandsOf (query : Str) : Except Error (List Command) :=
  (parseCommands query).run.get (parseCommands_isSome query)

namespace Entry

def location (entry : Entry) : Str :=
  if Flag.source ∈ entry.flags then
    entry.place.file ++
      (if Flag.line ∈ entry.flags then ':' :: decimal entry.place.line.toNat else []) ++ [' ']
  else if Flag.line ∈ entry.flags then
    "line:".toList ++ decimal entry.place.line.toNat ++ [' ']
  else []

def header (threadId : UInt64) (entry : Entry) : Str :=
  (if Flag.thread ∈ entry.flags then "tid=".toList ++ decimal threadId.toNat ++ [' '] else []) ++
    ((if Flag.module ∈ entry.flags then '[' :: entry.place.module ++ [']', ' '] else []) ++
      ((if Flag.func ∈ entry.flags ∧ entry.place.function ≠ [] then
        entry.place.function ++ [' '] else []) ++ entry.location))

/-- A message as a line. -/
def terminated (text : Str) : Str :=
  if text.getLast? = some newline then text else text ++ [newline]

def hit (threadId : UInt64) (args : Str) (entry : Entry) : Option Str :=
  if Flag.print ∈ entry.flags then some (terminated (entry.header threadId ++ args)) else none

/-- The flags as they are listed. -/
def column (flags : Finset Flag) : Str :=
  if flags = ∅ then ['=', '_'] else '=' :: (Flag.all.filter (· ∈ flags)).map Flag.letter

def line (entry : Entry) : Str :=
  entry.place.file ++ ':' :: decimal entry.place.line.toNat ++ " [".toList ++ entry.place.module ++
    "]".toList ++ entry.place.function ++ ' ' :: column entry.flags ++ [' ', doubleQuote] ++
      entry.place.format ++ [doubleQuote, newline]

end Entry

abbrev Logger := List Entry

/-- What the places are listed by. -/
def Place.key (place : Place) : List UInt8 × UInt32 × List UInt8 × List UInt8 × List UInt8 :=
  (encode place.file, place.line, encode place.module, encode place.function, encode place.format)

namespace Logger

attribute [local instance] lexOrd

/-- Some places in any order, without flags. -/
def start (places : List Place) : Logger := (sortByKey Place.key places).map fun place => ⟨place, ∅⟩

def write (query : Str) (entries : Logger) : Except Error Nat × Logger :=
  match commandsOf query with
  | .error e => (.error e, entries)
  | .ok commands =>
    (.ok (commands.map fun command => entries.countP fun e => command.selects e.place).sum,
      entries.map fun entry => commands.foldl Command.onEntry entry)

def listing (entries : Logger) : Str :=
  "# filename:lineno [module]function flags format".toList ++ [newline] ++ entries.flatMap Entry.line

def step (entries : Logger) : Event → Answer × Logger
  | .write query => (.written (write query entries).1, (write query entries).2)
  | .read => (.listing (listing entries), entries)
  | .hit i threadId args => (.emitted (entries[i]?.bind (Entry.hit threadId args)), entries)

end Logger

end ExtKtrace.Ddebug
