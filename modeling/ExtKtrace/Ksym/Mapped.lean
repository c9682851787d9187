import ExtKtrace.Lib.Endian
import ExtKtrace.Lib.Outcome
import ExtKtrace.Ksym.Symbols

/-!
# The reader of the symbol table

A blob is parsed into sections without copying it; symbols are looked up by address and by name.
-/

namespace ExtKtrace.Ksym
set_option autoImplicit false
open Utf8 Endian

structure KallsymsMapped where
  tokenTable : List UInt8
  tokenIndex : List UInt32
  kallsymsNames : List UInt8
  kallsymsOffsets : List UInt32
  kallsymsSeqsOfNames : List UInt32
  kallsymsAddresses : List UInt64
  kallsymsNumSyms : Nat
  stext : UInt64
  etext : UInt64
  deriving DecidableEq

/-- A part of the blob: where it starts and how many elements it has. -/
structure Section where
  off : Nat
  count : Nat

structure Layout where
  numSyms : Nat
  addresses : Section
  offsets : Section
  seqs : Section
  names : Section
  tokenTable : Section
  tokenIndex : Section

abbrev Parse (α : Type) := Outcome Panic String α

def ofRun {α : Type} (r : Run α) : Parse α := Outcome.ofResult (r.map .ok)

@[simp] theorem ofRun_ok {α : Type} (a : α) : ofRun (.ok a) = pure a := rfl

def checkTotalBytes (blob : List UInt8) : Except String UInt64 :=
  if blob.length < 8 then .error "Blob is too small to contain the total byte count"
  else .ok (UInt64.ofNat (leNat (blob.take 8)))

/-- `align_off`, `base` being the address of the blob. -/
def alignOff (checks : Bool) (base align off : Nat) : Parse Nat := do
  let addr ← ofRun (usize checks (base + off))
  let addr ← ofRun (usize checks (addr + align))
  let addr ← ofRun (usizeSub checks addr 1)
  let addr := (UInt64.ofNat addr &&& ~~~UInt64.ofNat (align - 1)).toNat
  ofRun (usizeSub checks addr base)

/-- The end of `need` bytes from `off` on, which must not lie behind the blob. -/
def bounded (checks : Bool) (blob : List UInt8) (off need : Nat) (missing : String) :
    Parse Nat := do
  let stop ← ofRun (usize checks (off + need))
  if stop > blob.length then throw missing
  return stop

/-- A `u64` at `off`, and what is behind it. -/
def readCount (checks : Bool) (blob : List UInt8) (off : Nat) (missing : String) :
    Parse (Nat × Nat) := do
  let stop ← bounded checks blob off 8 missing
  let bytes ← ofRun (slice blob off stop)
  return (leNat bytes, stop)

/-- An array of `count` elements of `size` bytes each. -/
def readArray (checks : Bool) (blob : List UInt8) (base align off count size : Nat)
    (missing : String) : Parse (Section × Nat) := do
  let off ← alignOff checks base align off
  let need ← ofRun (usize checks (count * size))
  let stop ← bounded checks blob off need missing
  let _ ← ofRun (sliceFrom blob off)
  return (⟨off, count⟩, stop)

/-- Bytes with their number before them. -/
def readBytes (checks : Bool) (blob : List UInt8) (base off : Nat)
    (missingLength missing : String) : Parse (Section × Nat) := do
  let off ← alignOff checks base 8 off
  let (len, off) ← readCount checks blob off missingLength
  let stop ← bounded checks blob off len missing
  let _ ← ofRun (slice blob off stop)
  return (⟨off, len⟩, stop)

def layout (checks : Bool) (base : Nat) (blob : List UInt8) : Parse Layout := do
  let totalBytes ← Outcome.ofResult (.ok (checkTotalBytes blob))
  if totalBytes ≠ UInt64.ofNat blob.length then
    throw "The total bytes in the blob does not match the actual blob length"
  let (numSyms, off) ← readCount checks blob 8 "The number of symbols is missing"
  let (addresses, off) ←
    readArray checks blob base 8 off numSyms 8 "The addresses array is missing"
  let (offsets, off) ← readArray checks blob base 4 off numSyms 4 "The offsets array is missing"
  let (seqs, off) ← readArray checks blob base 4 off numSyms 4 "The seqs array is missing"
  let (names, off) ←
    readBytes checks blob base off "The names length is missing" "The names array is missing"
  let (tokenTable, off) ← readBytes checks blob base off "The token table length is missing"
    "The token table array is missing"
  let off ← alignOff checks base 8 off
  let (tokenIndexLen, off) ← readCount checks blob off "The token index length is missing"
  let (tokenIndex, _) ←
    readArray checks blob base 4 off tokenIndexLen 4 "The token index array is missing"
  return { numSyms, addresses, offsets, seqs, names, tokenTable, tokenIndex }

def Section.bytes (s : Section) (blob : List UInt8) : List UInt8 := (blob.drop s.off).take s.count

def Section.word (s : Section) (blob : List UInt8) (size i : Nat) : Nat :=
  leNat ((blob.drop (s.off + size * i)).take size)

def Section.u64s (s : Section) (blob : List UInt8) : List UInt64 :=
  (List.range s.count).map fun i => UInt64.ofNat (s.word blob 8 i)

def Section.u32s (s : Section) (blob : List UInt8) : List UInt32 :=
  (List.range s.count).map fun i => UInt32.ofNat (s.word blob 4 i)

def Layout.view (l : Layout) (blob : List UInt8) (stext etext : UInt64) : KallsymsMapped where
  tokenTable := l.tokenTable.bytes blob
  tokenIndex := l.tokenIndex.u32s blob
  kallsymsNames := l.names.bytes blob
  kallsymsOffsets := l.offsets.u32s blob
  kallsymsSeqsOfNames := l.seqs.u32s blob
  kallsymsAddresses := l.addresses.u64s blob
  kallsymsNumSyms := l.numSyms
  stext := stext
  etext := etext

def fromBlob (checks : Bool) (base : Nat) (blob : List UInt8) (stext etext : UInt64) :
    Parse KallsymsMapped := do
  return (← layout checks base blob).view blob stext etext

namespace KallsymsMapped

def readCompressedLenAndType (bytes : List UInt8) : UInt16 × Char :=
  match bytes with
  | ty :: lo :: hi :: _ => ((hi.toUInt16 <<< 8) ||| lo.toUInt16, Char.ofNat ty.toNat)
  | _ => (0, ' ')

/-- The id that a name starts with and where the rest of the name is. -/
def tokenAt (bytes : List UInt8) : Option (Nat × Nat) :=
  if bytes[2]? = some TOKEN_MARKER then (bytes[1]?).map fun id => (id.toNat, 3)
  else if bytes[3]? = some TOKEN_MARKER then do
    let hi ← bytes[1]?
    let lo ← bytes[2]?
    return (((hi.toUInt16 <<< 8) ||| lo.toUInt16).toNat, 4)
  else none

/-- The text of a token, nothing for an id that the table does not have. -/
def tokenStr (m : KallsymsMapped) (id : Nat) : Run (List UInt8) :=
  match m.tokenIndex[id]? with
  | none => .ok []
  | some start =>
    let stop := match m.tokenIndex[id + 1]? with
      | some next => next.toNat
      | none => m.tokenTable.length
    slice m.tokenTable start.toNat stop

/-- The bytes that `name_buf` is filled with. -/
def fillNameBuf (tokenStr rest : List UInt8) : List UInt8 :=
  let copied := tokenStr.take KSYM_NAME_LEN
  copied ++ rest.take (KSYM_NAME_LEN - copied.length)

/-- `name_buf` for a name that starts with the marker. -/
def expandToken (m : KallsymsMapped) (bytes : List UInt8) : Run (List UInt8) :=
  match tokenAt bytes with
  | some (id, i) => do return fillNameBuf (← m.tokenStr id) (bytes.drop i)
  | none => .ok (fillNameBuf [] bytes)

def expandSymbol (m : KallsymsMapped) (bytes : List UInt8) : Run Str := do
  let first ← index bytes 0
  let nameBuf ←
    if first = TOKEN_MARKER then m.expandToken bytes else .ok (fillNameBuf [] bytes)
  return (decode nameBuf).getD []

/-- The name and the type of the symbol at a position in address order. -/
def symbolAt (m : KallsymsMapped) (seq : Nat) : Run (Str × Char) := do
  let start := (← index m.kallsymsOffsets seq).toNat
  let (len, ty) := readCompressedLenAndType (← sliceFrom m.kallsymsNames start)
  let stop := start + PREFIX_LEN + len.toNat
  let name ← m.expandSymbol (← slice m.kallsymsNames (start + PREFIX_LEN) stop)
  return (name, ty)

/-- `{:016x}`. -/
def hex16 (n : UInt64) : Str :=
  let digits := Nat.toDigits 16 n.toNat
  List.replicate (16 - digits.length) '0' ++ digits

def dumpLine (addr : UInt64) (ty : Char) (name : Str) : Str :=
  hex16 addr ++ [' ', ty, ' '] ++ name ++ [Char.ofNat 10]

def dumpAllSymbols (m : KallsymsMapped) : Run Str :=
  (List.range m.kallsymsNumSyms).foldlM (fun out i => do
    let addr ← index m.kallsymsAddresses i
    let (name, ty) ← m.symbolAt i
    return out ++ dumpLine addr ty name) []

/-- The loop of the binary search. -/
def searchAddress (m : KallsymsMapped) (addr : UInt64) (low high : Nat) : Run Nat :=
  if high - low > 1 then do
    let mid := low + (high - low) / 2
    if (← index m.kallsymsAddresses mid) ≤ addr then m.searchAddress addr mid high
    else m.searchAddress addr low mid
  else .ok low
termination_by high - low
decreasing_by all_goals omega

/-- The loop that steps back over aliases. -/
def firstAlias (m : KallsymsMapped) (addr : UInt64) : Nat → Run Nat
  | 0 => .ok 0
  | low + 1 => do
    if (← index m.kallsymsAddresses low) = addr then m.firstAlias addr low else return low + 1

/-- The loop that looks for the next address that is no alias. -/
def nextAddress (m : KallsymsMapped) (symbolStart : UInt64) (high : Nat) :
    Run (Option UInt64) :=
  if high < m.kallsymsNumSyms then do
    let next ← index m.kallsymsAddresses high
    if next > symbolStart then return some next else m.nextAddress symbolStart (high + 1)
  else .ok none
termination_by m.kallsymsNumSyms - high

def lookupAddress (checks : Bool) (m : KallsymsMapped) (addr : UInt64) :
    Run (Option (Str × UInt64 × UInt64 × Char)) :=
  if addr < m.stext ∨ addr ≥ m.etext ∨ m.kallsymsNumSyms = 0 then .ok none
  else do
    let low ← m.searchAddress addr 0 m.kallsymsNumSyms
    if low ≥ m.kallsymsNumSyms then return none
    let low ← m.firstAlias addr low
    let symbolStart ← index m.kallsymsAddresses low
    let symbolEnd := (← m.nextAddress symbolStart (low + 1)).getD m.etext
    let (name, ty) ← m.symbolAt low
    let size ← u64Sub checks symbolEnd symbolStart
    let offset ← u64Sub checks addr symbolStart
    return some (name, size, offset, ty)

def lookupNameByIdx (m : KallsymsMapped) (idx : Nat) : Option UInt64 :=
  match m.kallsymsSeqsOfNames[idx]? with
  | none => none
  | some seq => m.kallsymsAddresses[seq.toNat]?

/-- The name at a position in name order. -/
def nameAt (m : KallsymsMapped) (idx : Nat) : Run Str := do
  let seq ← index m.kallsymsSeqsOfNames idx
  return (← m.symbolAt seq.toNat).1

/-- The loop of the binary search; the test of `mid` keeps `mid - 1` from underflow. -/
def searchName (m : KallsymsMapped) (name : Str) (low high : Nat) : Run (Option Nat) :=
  if low ≤ high then do
    let mid := low + (high - low) / 2
    match compare (encode name) (encode (← m.nameAt mid)) with
    | .eq => return some mid
    | .lt => if mid = 0 then return none else m.searchName name low (mid - 1)
    | .gt => m.searchName name (mid + 1) high
  else .ok none
termination_by high + 1 - low
decreasing_by all_goals omega

/-- The loop that steps back over earlier matches. -/
def firstMatch (m : KallsymsMapped) (name : Str) : Nat → Run Nat
  | 0 => .ok 0
  | low + 1 => do
    if (← m.nameAt low) ≠ name then return low + 1 else m.firstMatch name low

/-- The loop that steps forward over later matches. -/
def lastMatch (m : KallsymsMapped) (name : Str) (high : Nat) : Run Nat :=
  if high < m.kallsymsNumSyms - 1 then do
    if (← m.nameAt (high + 1)) ≠ name then return high else m.lastMatch name (high + 1)
  else .ok high
termination_by m.kallsymsNumSyms - high

def lookupNames (m : KallsymsMapped) (name : Str) (needEnd : Bool) : Run (Option (Nat × Nat)) :=
  if m.kallsymsNumSyms = 0 then .ok none
  else do
    match ← m.searchName name 0 (m.kallsymsNumSyms - 1) with
    | none => return none
    | some mid =>
      let low ← m.firstMatch name mid
      let high ← if needEnd then m.lastMatch name mid else .ok 0
      return some (low, high)

def lookupName (m : KallsymsMapped) (name : Str) : Run (Option UInt64) := do
  match ← m.lookupNames name false with
  | none => return none
  | some (startIdx, _) =>
    let seq ← index m.kallsymsSeqsOfNames startIdx
    return some (← index m.kallsymsAddresses seq.toNat)

end KallsymsMapped

end ExtKtrace.Ksym
