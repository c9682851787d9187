import ExtKtrace.Lib.Endian
import ExtKtrace.Lib.Outcome
import ExtKtrace.TpLexer.Syntax

/-! # Schemas, integer conversions and contexts -/

namespace ExtKtrace.TpLexer
set_option autoImplicit false

inductive Fault where
  | unreachable
  | overflow
  | sliceOutOfRange
deriving DecidableEq

/-- What the code is compiled for. -/
structure Target where
  bigEndian : Bool
  pointerWidth32 : Bool
  overflowChecks : Bool

namespace Target

def usizeBytes (t : Target) : Nat := if t.pointerWidth32 then 4 else 8

/-- `a + b` on `usize`. -/
def addUsize (t : Target) (a b : Nat) : Except Fault Nat :=
  if a + b < 256 ^ t.usizeBytes then .ok (a + b)
  else if t.overflowChecks then .error .overflow
  else .ok ((a + b) % 256 ^ t.usizeBytes)

end Target

/-- `&bytes[start..stop]`. -/
def sliceBytes (bytes : Str) (start stop : Nat) : Except Fault Str :=
  if start ≤ stop ∧ stop ≤ bytes.length then .ok ((bytes.take stop).drop start)
  else .error .sliceOutOfRange

structure ToI64 where
  toI64 : Str → Nat → Except Fault (Except String Int64)
  byteLen : Option Nat

/-- The twelve primitive integer types. -/
inductive Prim where
  | i8
  | i16
  | i32
  | i64
  | i128
  | isize
  | u8
  | u16
  | u32
  | u64
  | u128
  | usize
deriving DecidableEq

namespace Prim

def size (t : Target) : Prim → Nat
  | i8 | u8 => 1
  | i16 | u16 => 2
  | i32 | u32 => 4
  | i64 | u64 => 8
  | i128 | u128 => 16
  | isize | usize => t.usizeBytes

def signed : Prim → Bool
  | i8 | i16 | i32 | i64 | i128 | isize => true
  | _ => false

def fromNeBytes (t : Target) (p : Prim) (slice : Str) : Int :=
  let n := if t.bigEndian then Endian.beNat slice else Endian.leNat slice
  if p.signed then Endian.signedOf (8 * p.size t) n else n

def zeroMessage : Prim → String
  | i8 => "NonZeroI8 cannot be zero"
  | i16 => "NonZeroI16 cannot be zero"
  | i32 => "NonZeroI32 cannot be zero"
  | i64 => "NonZeroI64 cannot be zero"
  | i128 => "NonZeroI128 cannot be zero"
  | isize => "NonZeroIsize cannot be zero"
  | u8 => "NonZeroU8 cannot be zero"
  | u16 => "NonZeroU16 cannot be zero"
  | u32 => "NonZeroU32 cannot be zero"
  | u64 => "NonZeroU64 cannot be zero"
  | u128 => "NonZeroU128 cannot be zero"
  | usize => "NonZeroUsize cannot be zero"

end Prim

/-- The types of the `integer!` lists. -/
inductive IntegerType where
  | prim (p : Prim)
  | bool
  | char
  | nonZero (p : Prim)
deriving DecidableEq

namespace IntegerType

def size (t : Target) : IntegerType → Nat
  | prim p | nonZero p => p.size t
  | bool => 1
  | char => 4

/-- `char::from_u32`. -/
def isScalar (n : Int) : Bool := (0 ≤ n && n < 0xD800) || (0xE000 ≤ n && n ≤ 0x10FFFF)

/-- The arm of `to_i64` for the type, on a slice of its size; `as i64` truncates. -/
def decode (t : Target) (slice : Str) : IntegerType → Except String Int64
  | prim p => .ok (Int64.ofInt (p.fromNeBytes t slice))
  | bool => .ok (if slice.head? = some 0 then 0 else 1)
  | char =>
    let c := Prim.u32.fromNeBytes t slice
    if isScalar c then .ok (Int64.ofInt c) else .error "invalid char bytes"
  | nonZero p =>
    let v := Int64.ofInt (p.fromNeBytes t slice)
    if v = 0 then .error p.zeroMessage else .ok v

end IntegerType

/-- `IntegerToI64<T>`. -/
def integerToI64 (t : Target) (ty : IntegerType) : ToI64 where
  toI64 bytes offset := do
    let stop ← t.addUsize offset (ty.size t)
    if stop > bytes.length then return .error "insufficient bytes to read integer"
    let slice ← sliceBytes bytes offset stop
    return ty.decode t slice
  byteLen := some (ty.size t)

inductive FieldType where
  | integer (toI64Fn : ToI64)
  | bytes
  | unsupported

structure Field where
  name : Str
  fieldType : FieldType
  offset : Nat
  len : Nat

structure Schema where
  fields : List Field

namespace Schema

def get (s : Schema) (name : Str) : Option (FieldType × Nat × Nat) :=
  (s.fields.find? fun f => f.name = name).map fun f => (f.fieldType, f.offset, f.len)

def getType (s : Schema) (name : Str) : Option FieldType := (s.get name).map Prod.fst

end Schema

abbrev Access (α : Type) := Outcome Fault EvalError α

structure Context where
  getInteger : Str → Access (Option Int64)
  getStrBytes : Str → Access (Option Str)

/-- `map_err(|message| EvalError::new(name, message))`. -/
def nameError {α : Type} (name : Str) (r : Except String α) : Except EvalError α :=
  r.mapError fun message => { field := name, message := .text message }

def toStrBytes (t : Target) (buf : Str) (offset len : Nat) : Except Fault (Except String Str) := do
  let stop ← t.addUsize offset len
  if stop ≤ buf.length then
    let slice ← sliceBytes buf offset stop
    let stop :=
      match slice.findIdx? (· = 0) with
      | some p => p + offset
      | none => stop
    return .ok (← sliceBytes buf offset stop)
  else return .error "buffer too small for field"

def schemaLengthError (name : Str) (len expectedLen : Nat) : EvalError where
  field := name
  message := {
    format := "schema length \x7b\x7d does not match integer width \x7b\x7d"
    args := [.nat len, .nat expectedLen] }

/-- `BufContext` over a buffer and a schema. -/
def bufContext (t : Target) (buf : Str) (schema : Schema) : Context where
  getInteger name :=
    match schema.get name with
    | some (.integer toI64Fn, offset, len) =>
      match toI64Fn.byteLen.filter (· ≠ len) with
      | some expectedLen =>
        throw (schemaLengthError name len expectedLen)
      | none => do
        let v ← Outcome.ofResult ((toI64Fn.toI64 buf offset).map (nameError name))
        return some v
    | _ => return none
  getStrBytes name :=
    match schema.get name with
    | some (.bytes, offset, len) => do
      let bytes ← Outcome.ofResult ((toStrBytes t buf offset len).map (nameError name))
      return some bytes
    | _ => return none

end ExtKtrace.TpLexer
