import Mathlib.Data.List.FinRange
import ExtKtrace.Lib.Endian
import ExtKtrace.Lib.StableSort
import ExtKtrace.Ksym.Symbols

/-!
# The generator of the symbol table

A list of symbols is compressed and written out as a blob. Names are shortened by tokens, common
prefixes of a few fixed lengths.
-/

namespace ExtKtrace.Ksym
set_option autoImplicit false
open Utf8 Endian StableSort

def PREFIX_CANDIDATE_LENS : List Nat :=
  [10, 24, 31, 40, 56, 60, 70, 80, 90, 100, 150, 200, 250, 300, 400, 500, 600, 700, 800, 900,
    1000, 1200, 1400, 1600, 1800, 2000]

def MAX_TOKEN : Nat := 512

structure KallsymsBlob where
  tokenTable : List UInt8
  tokenIndex : List UInt32
  tokenMap : List (Str × UInt16)
  kallsymsNames : List UInt8
  kallsymsOffsets : List UInt32
  kallsymsSeqsOfNames : List UInt32
  kallsymsAddresses : List UInt64
  kallsymsNumSyms : Nat
  deriving DecidableEq

/-- An order in which the entries of a `HashMap` come out of its iterator. -/
structure HashOrder where
  order : List (Str × Nat) → List (Str × Nat)
  perm : ∀ entries, (order entries).Perm entries

namespace KallsymsBlob

def new : KallsymsBlob := ⟨[], [], [], [], [], [], [], 0⟩

/-- `token_map.get`. -/
def tokenId (tokenMap : List (Str × UInt16)) (token : Str) : Option UInt16 :=
  (tokenMap.find? fun entry => entry.1 = token).map (·.2)

def addToken (b : KallsymsBlob) (token : Str) : KallsymsBlob :=
  match tokenId b.tokenMap token with
  | some _ => b
  | none =>
    { b with
      tokenIndex := b.tokenIndex ++ [UInt32.ofNat b.tokenTable.length]
      tokenTable := b.tokenTable ++ encode token
      tokenMap := b.tokenMap ++ [(token, UInt16.ofNat b.tokenMap.length)] }

/-- `*token_count.entry(token).or_insert(0) += 1`. -/
def countToken (token : Str) : List (Str × Nat) → List (Str × Nat)
  | [] => [(token, 1)]
  | (t, count) :: rest =>
    if t = token then (t, count + 1) :: rest else (t, count) :: countToken token rest

def countPrefix (name : Str) (tokenCount : List (Str × Nat)) (len : Nat) :
    Run (List (Str × Nat)) :=
  if len ≤ (encode name).length then
    match decode ((encode name).take len) with
    | some token => .ok (countToken token tokenCount)
    | none => .error .invalidUtf8
  else if name ≠ [] ∧ PREFIX_CANDIDATE_LENS.head? = some len then
    .ok (countToken name tokenCount)
  else .ok tokenCount

def countPrefixes (tokenCount : List (Str × Nat)) (symbol : Symbol) : Run (List (Str × Nat)) :=
  PREFIX_CANDIDATE_LENS.foldlM (countPrefix symbol.name) tokenCount

/-- A token is left out when it is a prefix of one that is in already. -/
def selectToken (finalTokenList : List Str) (tok : Str) : List Str :=
  if finalTokenList.length ≥ MAX_TOKEN then finalTokenList
  else if finalTokenList.any fun existing => (encode tok).isPrefixOf (encode existing) then
    finalTokenList
  else finalTokenList ++ [tok]

def selectTokens (tokens : List (Str × Nat)) : List Str :=
  let weight (entry : Str × Nat) := entry.2 * (encode entry.1).length
  ((sortBy (fun a b => compare (weight b) (weight a)) tokens).map (·.1)).foldl selectToken []

/-- `&s[..len]` for a length that is in the string. -/
def strPrefix (s : Str) (len : Nat) : Run Str :=
  match decode ((encode s).take len) with
  | some t => .ok t
  | none => .error .charBoundary

/-- The loop over the candidate lengths: the length and the id of the token that it takes. -/
def findToken (tokenMap : List (Str × UInt16)) (sym : Str) :
    List Nat → Run (Option (Nat × UInt16))
  | [] => .ok none
  | l :: lens =>
    if l > (encode sym).length then findToken tokenMap sym lens
    else do
      let candidate ← strPrefix sym l
      match tokenId tokenMap candidate with
      | some id => return some (l, id)
      | none => findToken tokenMap sym lens

def tyByte (ty : Char) : UInt8 := UInt8.ofNat ty.toNat

/-- A token id between its markers. -/
def tokenBytes (id : UInt16) : List UInt8 :=
  let idBytes :=
    if id < 256 then [id.toUInt8] else [(id >>> 8).toUInt8, (id &&& 0xFF).toUInt8]
  [TOKEN_MARKER] ++ idBytes ++ [TOKEN_MARKER]

def header (ty : Char) (length : UInt16) : List UInt8 :=
  [tyByte ty, (length &&& 0xFF).toUInt8, (length >>> 8).toUInt8]

/-- What is appended to `kallsyms_names` for a symbol. -/
def record (checks : Bool) (sym : Str) (ty : Char) (token : Option (Nat × UInt16)) :
    Run (List UInt8) :=
  let symBytes := encode sym
  match token with
  | some (l, id) => do
    let length ← u16Add checks (if id < 256 then 3 else 4) (UInt16.ofNat (symBytes.length - l))
    return header ty length ++ tokenBytes id ++ symBytes.drop l
  | none => .ok (header ty (UInt16.ofNat symBytes.length) ++ symBytes)

def emitSymbol (checks : Bool) (b : KallsymsBlob) (symbol : Symbol) : Run KallsymsBlob := do
  let token ← findToken b.tokenMap symbol.name PREFIX_CANDIDATE_LENS.reverse
  let bytes ← record checks symbol.name symbol.ty token
  return { b with
    kallsymsOffsets := b.kallsymsOffsets ++ [UInt32.ofNat b.kallsymsNames.length]
    kallsymsAddresses := b.kallsymsAddresses ++ [symbol.addr]
    kallsymsNames := b.kallsymsNames ++ bytes }

/-- `orig_to_addr_idx`: the position in address order of each symbol of the list. -/
def origToAddrIdx (n : Nat) (idxByAddr : List (Fin n)) : List Nat :=
  idxByAddr.zipIdx.foldl (fun positions entry => positions.set entry.1 entry.2)
    (List.replicate n 0)

def compressSymbols (checks : Bool) (hash : HashOrder) (b : KallsymsBlob)
    (symbols : List Symbol) : Run KallsymsBlob := do
  let n := symbols.length
  if n = 0 then return b
  let idxByAddr := sortByKey (fun i => (symbols.get i).addr) (List.finRange n)
  let idxByName := sortByKey (fun i => encode (symbols.get i).name) (List.finRange n)
  let origToAddr := origToAddrIdx n idxByAddr
  let tokenCount ← symbols.foldlM countPrefixes []
  let b := (selectTokens (hash.order tokenCount)).foldl addToken b
  let b ← idxByAddr.foldlM (fun b i => emitSymbol checks b (symbols.get i)) b
  let seqs ← idxByName.mapM fun i : Fin n => do return UInt32.ofNat (← index origToAddr i.val)
  return { b with
    kallsymsSeqsOfNames := b.kallsymsSeqsOfNames ++ seqs
    kallsymsNumSyms := n }

def pad (vec : List UInt8) (align : Nat) : List UInt8 :=
  if vec.length % align ≠ 0 then vec ++ List.replicate (align - vec.length % align) 0 else vec

def u64Bytes (n : UInt64) : List UInt8 := toLe 8 n.toNat

def u32Bytes (n : UInt32) : List UInt8 := toLe 4 n.toNat

/-- A byte vector with its length before it. -/
def lenBytes (bytes : List UInt8) : List UInt8 := u64Bytes (UInt64.ofNat bytes.length) ++ bytes

def toBlob (b : KallsymsBlob) : Run (List UInt8) :=
  let blob := u64Bytes 0 ++ u64Bytes (UInt64.ofNat b.kallsymsNumSyms)
  let blob := pad blob 8 ++ b.kallsymsAddresses.flatMap u64Bytes
  let blob := pad blob 4 ++ b.kallsymsOffsets.flatMap u32Bytes
  let blob := pad blob 4 ++ b.kallsymsSeqsOfNames.flatMap u32Bytes
  let blob := pad blob 8 ++ lenBytes b.kallsymsNames
  let blob := pad blob 8 ++ lenBytes b.tokenTable
  let blob := pad blob 8 ++ u64Bytes (UInt64.ofNat b.tokenIndex.length)
  let blob := pad blob 4 ++ b.tokenIndex.flatMap u32Bytes
  if blob.length ≤ ISIZE_MAX then .ok (u64Bytes (UInt64.ofNat blob.length) ++ blob.drop 8)
  else .error .capacity

end KallsymsBlob

def hexDigit (c : Char) : Option Nat :=
  if '0' ≤ c ∧ c ≤ '9' then some (c.toNat - '0'.toNat)
  else if 'a' ≤ c ∧ c ≤ 'f' then some (c.toNat - 'a'.toNat + 10)
  else if 'A' ≤ c ∧ c ≤ 'F' then some (c.toNat - 'A'.toNat + 10)
  else none

/-- The digits behind those read so far, `none` also when the number leaves the 64 bits. -/
def hexDigits (n : Nat) : Str → Option Nat
  | [] => some n
  | c :: rest =>
    match hexDigit c with
    | some d => if n * 16 + d < 2 ^ 64 then hexDigits (n * 16 + d) rest else none
    | none => none

/-- `u64::from_str_radix(s, 16).ok()`. -/
def fromStrRadix16 (s : Str) : Option UInt64 :=
  let digits := match s with
    | '+' :: rest => rest
    | _ => s
  if digits = [] then none else (hexDigits 0 digits).map UInt64.ofNat

def readSymbol (line : Str) : Run (Option Symbol) :=
  if (encode line).length > 4096 then .error (.kernelSymbolTooLong line)
  else .ok <| do
    let addr :: parts := splitWhitespace line | none
    let vaddr ← fromStrRadix16 addr
    let symbolType :: parts := parts | none
    let symbolType ← symbolType.head?
    let symbol := [' '].intercalate parts
    return { name := symbol, addr := vaddr, ty := symbolType }

def readMap : List Str → Run (List Symbol)
  | [] => .ok []
  | line :: lines => do
    let entry ← readSymbol (trim line)
    let symbolTable ← readMap lines
    return entry.toList ++ symbolTable

/-- `main` from the symbols that it has read. -/
def generate (checks : Bool) (hash : HashOrder) (symbols : List Symbol) : Run (List UInt8) := do
  (← KallsymsBlob.new.compressSymbols checks hash symbols).toBlob

end ExtKtrace.Ksym
