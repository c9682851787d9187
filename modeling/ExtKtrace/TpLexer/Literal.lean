import Mathlib.Algebra.Group.Int.Defs
import ExtKtrace.TpLexer.Syntax

/-! # The text of integers -/

namespace ExtKtrace.TpLexer
set_option autoImplicit false

inductive IntErrorKind where
  | empty
  | invalidDigit
  | posOverflow
  | negOverflow
deriving DecidableEq

def checkedI64 (x : Int) : Option Int64 :=
  if -2 ^ 63 ≤ x ∧ x < 2 ^ 63 then some (Int64.ofInt x) else none

def checkedNeg (v : Int64) : Option Int64 := checkedI64 (-v.toInt)

/-- `char::to_digit`, for radix 10 and 16. -/
def toDigit (radix : Nat) (c : UInt8) : Option Nat :=
  let d :=
    if byte '0' ≤ c ∧ c ≤ byte '9' then some (c.toNat - 48)
    else if byte 'a' ≤ c ∧ c ≤ byte 'f' then some (c.toNat - 87)
    else if byte 'A' ≤ c ∧ c ≤ byte 'F' then some (c.toNat - 55)
    else none
  d.filter (· < radix)

/-- The checked loop of `from_str_radix`; `sign` is `1` for adding digits, `-1` for subtracting.
The digit is looked at before the overflow of the multiplication. -/
def fromDigits (radix : Nat) (sign : Int) (overflow : IntErrorKind) :
    Int64 → Str → Except IntErrorKind Int64
  | result, [] => .ok result
  | result, c :: rest =>
    match toDigit radix c with
    | none => .error .invalidDigit
    | some x =>
      match checkedI64 (result.toInt * radix) with
      | none => .error overflow
      | some mul =>
        match checkedI64 (mul.toInt + sign * x) with
        | none => .error overflow
        | some result => fromDigits radix sign overflow result rest

/-- `i64::from_str_radix` of the standard library. -/
def fromStrRadix (src : Str) (radix : Nat) : Except IntErrorKind Int64 :=
  match src with
  | [] => .error .empty
  | c :: rest =>
    if c = byte '+' ∨ c = byte '-' then
      if rest = [] then .error .invalidDigit
      else if c = byte '+' then fromDigits radix 1 .posOverflow 0 rest
      else fromDigits radix (-1) .negOverflow 0 rest
    else fromDigits radix 1 .posOverflow 0 src

/-- The characters of `char::is_whitespace`, in UTF-8. -/
def whitespaceChars : List Str := [
  [0x09], [0x0A], [0x0B], [0x0C], [0x0D], [0x20],
  [0xC2, 0x85], [0xC2, 0xA0], [0xE1, 0x9A, 0x80],
  [0xE2, 0x80, 0x80], [0xE2, 0x80, 0x81], [0xE2, 0x80, 0x82], [0xE2, 0x80, 0x83],
  [0xE2, 0x80, 0x84], [0xE2, 0x80, 0x85], [0xE2, 0x80, 0x86], [0xE2, 0x80, 0x87],
  [0xE2, 0x80, 0x88], [0xE2, 0x80, 0x89], [0xE2, 0x80, 0x8A], [0xE2, 0x80, 0xA8],
  [0xE2, 0x80, 0xA9], [0xE2, 0x80, 0xAF], [0xE2, 0x81, 0x9F], [0xE3, 0x80, 0x80]]

/-- Drop pieces from the start of `s` while one of `pieces` is there, at most `n` of them. -/
def dropPieces (pieces : List Str) : Nat → Str → Str
  | 0, s => s
  | n + 1, s =>
    match pieces.find? fun w => w.isPrefixOf s with
    | none => s
    | some w => dropPieces pieces n (s.drop w.length)

/-- `str::trim`. -/
def trim (s : Str) : Str :=
  let front := dropPieces whitespaceChars s.length s
  (dropPieces (whitespaceChars.map List.reverse) front.length front.reverse).reverse

def stripHex : Str → Option Str
  | 0x30 :: 0x78 :: rest => some rest
  | 0x30 :: 0x58 :: rest => some rest
  | _ => none

def parseI64LiteralText (input : Str) : Except String Int64 :=
  let s := trim input
  match s with
  | [] => .error "integer value is empty"
  | c :: tail =>
    let (negative, rest) :=
      if c = byte '-' then (true, tail)
      else if c = byte '+' then (false, tail)
      else (false, s)
    let signed (value : Int64) : Except String Int64 :=
      if negative then
        match checkedNeg value with
        | none => .error "integer literal overflow"
        | some v => .ok v
      else .ok value
    if rest = [] then .error "integer literal missing digits"
    else
      match stripHex rest with
      | some hex =>
        if hex = [] then .error "hex literal missing digits"
        else
          match fromStrRadix hex 16 with
          | .ok value => signed value
          | .error .posOverflow | .error .negOverflow => .error "integer literal overflow"
          | .error _ => .error "invalid integer literal"
      | none =>
        match fromStrRadix rest 10 with
        | .ok value => signed value
        | .error .posOverflow | .error .negOverflow => .error "integer literal overflow"
        | .error .empty => .error "integer literal missing digits"
        | .error .invalidDigit => .error "invalid integer literal"

end ExtKtrace.TpLexer
