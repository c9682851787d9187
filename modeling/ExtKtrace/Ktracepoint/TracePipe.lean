import ExtKtrace.Bpf.LruMap
import ExtKtrace.Lib.Utf8

/-!
# The command line cache of the trace pipe

The names of the processes behind the trace records, each kept as the line that a reader of
`saved_cmdlines` gets.
-/

namespace ExtKtrace.Ktracepoint
set_option autoImplicit false

open Utf8 (Str byteLen splitAt)

abbrev NonZeroUsize := { n : Nat // 0 < n }

/-- `lru::LruCache`, with `resize`. -/
structure ResizableCrate (κ ν : Type) extends Bpf.LruCrate κ ν where
  resize : Nat → Cache → Cache

/-- A smaller capacity discards what is behind it. -/
structure ResizableCrate.KeepsContract {κ ν : Type} [DecidableEq κ] (crate : ResizableCrate κ ν) :
    Prop extends crate.toLruCrate.KeepsRecency where
  cap_resize : ∀ n c, crate.cap (crate.resize n c) = n
  iter_resize : ∀ n c, crate.iter (crate.resize n c) = (crate.iter c).take n

/-- `format!("{} {}\n", id, cmdline)`. -/
def formatLine (id : UInt32) (cmdline : Str) : Str :=
  Nat.toDigits 10 id.toNat ++ ' ' :: (cmdline ++ ['\n'])

/-- `splitn(2, sep).nth(1)`: what is behind the first separator. -/
def splitnSecond (sep : Char) (s : Str) : Option Str :=
  match s.dropWhile (· ≠ sep) with
  | [] => none
  | _ :: rest => some rest

def trimEndMatches (c : Char) (s : Str) : Str := s.rdropWhile (· = c)

structure TraceCmdLineCache (crate : ResizableCrate UInt32 Str) where
  cmdline : crate.Cache

namespace TraceCmdLineCache
variable {crate : ResizableCrate UInt32 Str}

def new (crate : ResizableCrate UInt32 Str) (maxRecord : NonZeroUsize) :
    TraceCmdLineCache crate where
  cmdline := crate.new maxRecord

abbrev maxCmdlineLen : Nat := 16

/-- `none` is the panic of `split_at`. -/
def insert (id : UInt32) (cmdline : Str) (cache : TraceCmdLineCache crate) :
    Option (TraceCmdLineCache crate) := do
  let (cmdline, _) ← splitAt (min maxCmdlineLen (byteLen cmdline)) cmdline
  let line := formatLine id cmdline
  return { cache with cmdline := crate.put id line cache.cmdline }

/-- `none` is the panic of `unwrap`. -/
def get (id : UInt32) (cache : TraceCmdLineCache crate) : Option (Option Str) :=
  match (crate.iter cache.cmdline).find? fun e => e.1 = id with
  | none => some none
  | some (_, line) => (splitnSecond ' ' line).map fun s => some (trimEndMatches '\n' s)

def setMaxRecord (maxLen : NonZeroUsize) (cache : TraceCmdLineCache crate) :
    TraceCmdLineCache crate :=
  { cache with cmdline := crate.resize maxLen cache.cmdline }

def maxRecord (cache : TraceCmdLineCache crate) : Nat := crate.cap cache.cmdline

/-- The lines, least recently inserted first. -/
def snapshot (cache : TraceCmdLineCache crate) : List Str :=
  (crate.iter cache.cmdline).reverse.map Prod.snd

end TraceCmdLineCache

end ExtKtrace.Ktracepoint
