import ExtKtrace.Ddebug.Control
import ExtKtrace.Lib.StableSort
import ExtKtrace.Lib.Utf8

/-!
# Call sites

What a call site emits when it is hit, what the control file lists, and how it is made from the
section of the image.
-/

namespace ExtKtrace.Ddebug
set_option autoImplicit false

open StableSort
open Utf8 (encode)

variable {κ : Type}

def decimal (n : Nat) : Str := Nat.toDigits 10 n

def appendPrefix (threadId : UInt64) (site : DebugSite κ) (flags : UInt8) (out : Str) : Str :=
  let out := if flags &&& FLAG_THREAD != 0 then
    out ++ "tid=".toList ++ decimal threadId.toNat ++ [' '] else out
  let out := if flags &&& FLAG_MODULE != 0 then out ++ ['['] ++ site.module ++ [']', ' '] else out
  let out := if flags &&& FLAG_FUNC != 0 && !site.function.isEmpty then
    out ++ site.function ++ [' '] else out
  if flags &&& FLAG_SOURCE != 0 then
    let out := out ++ site.file
    let out := if flags &&& FLAG_LINE != 0 then out ++ [':'] ++ decimal site.line.toNat else out
    out ++ [' ']
  else if flags &&& FLAG_LINE != 0 then
    out ++ "line:".toList ++ decimal site.line.toNat ++ [' ']
  else out

/-- `__dynamic_pr_debug` with the flags that it loads: the line for `emit`. -/
def dynamicPrDebug (threadId : UInt64) (site : DebugSite κ) (flags : UInt8) (args : Str) :
    Option Str :=
  if flags &&& FLAG_PRINT == 0 then none
  else
    let line := appendPrefix threadId site flags [] ++ args
    some (if line.getLast? = some newline then line else line ++ [newline])

/-- `pr_debug!` and `pr_debug_fn!`, with what the arguments are formatted to. -/
def prDebug (F : RawStaticFalseKey κ) (threadId : UInt64) (site : DebugSite κ) (args : Str) :
    Option Str :=
  if F.isEnabled site.key then dynamicPrDebug threadId site site.flags args else none

def flagLetters : List (UInt8 × Char) := [
  (FLAG_PRINT, 'p'), (FLAG_THREAD, 't'), (FLAG_MODULE, 'm'), (FLAG_FUNC, 'f'), (FLAG_SOURCE, 's'),
  (FLAG_LINE, 'l')]

def flagsToString (flags : UInt8) : Str :=
  let out := flagLetters.foldl (fun out e => if flags &&& e.1 != 0 then out ++ [e.2] else out) ['=']
  if out.length = 1 then out ++ ['_'] else out

def writeSiteLine (out : Str) (site : DebugSite κ) : Str :=
  let place := out ++ site.file ++ [':'] ++ decimal site.line.toNat ++ " [".toList ++ site.module
  let behind := flagsToString site.flags ++ [' ', doubleQuote] ++ site.format ++
    [doubleQuote, newline]
  if site.function.isEmpty then place ++ "] ".toList ++ behind
  else place ++ [']'] ++ site.function ++ [' '] ++ behind

/-- `ControlFile::read` -/
def read (control : ControlFile κ) : Str :=
  control.sites.foldl writeSiteLine ("# filename:lineno [module]function flags format".toList ++ [newline])

/-- Everything of a site that does not change. -/
structure Place where
  line : UInt32
  module : Str
  file : Str
  function : Str
  format : Str

def DebugSite.place (site : DebugSite κ) : Place :=
  ⟨site.line, site.module, site.file, site.function, site.format⟩

def cmpSites (lhs rhs : DebugSite κ) : Ordering :=
  (compare (encode lhs.file) (encode rhs.file)).then ((compare lhs.line rhs.line).then
    ((compare (encode lhs.module) (encode rhs.module)).then
      ((compare (encode lhs.function) (encode rhs.function)).then
        (compare (encode lhs.format) (encode rhs.format)))))

/-- `scan_debug_sites` -/
def scanDebugSites (rawSites : List (DebugSite κ)) : List (DebugSite κ) := sortBy cmpSites rawSites

def dynamicDebugInit (rawSites : List (DebugSite κ)) : ControlFile κ := ⟨scanDebugSites rawSites⟩

/-- A call on the control file, or a hit of one of its sites. -/
inductive Event where
  | write (query : Str)
  | read
  | hit (site : Nat) (threadId : UInt64) (args : Str)

inductive Answer where
  | written (result : Except Error Nat)
  | listing (text : Str)
  | emitted (line : Option Str)

def step (F : RawStaticFalseKey κ) (control : ControlFile κ) : Event → Option (Answer × ControlFile κ)
  | .write query => ((write F query).exec control).map fun r => (.written r.1, r.2)
  | .read => some (.listing (read control), control)
  | .hit i threadId args =>
    some (.emitted (control.sites[i]?.bind fun site => prDebug F threadId site args), control)

end ExtKtrace.Ddebug
