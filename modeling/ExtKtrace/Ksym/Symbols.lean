import ExtKtrace.Lib.Utf8

/-!
# Symbols

What the generator of the symbol table and its reader share: the record format, the ways in
which a run panics, and `usize` arithmetic, which wraps unless the build checks for overflow.
-/

namespace ExtKtrace.Ksym
set_option autoImplicit false
open Utf8

universe u

inductive Panic where
  | overflow
  | outOfBounds
  /-- `unwrap` on the error of `str::from_utf8`. -/
  | invalidUtf8
  /-- A `str` cut inside a character. -/
  | charBoundary
  | kernelSymbolTooLong (line : Str)
  /-- A `Vec` of more than `isize::MAX` bytes. -/
  | capacity
  deriving DecidableEq

abbrev Run (α : Type u) := Except Panic α

@[simp] theorem ok_bind {α β : Type u} (a : α) (f : α → Run β) : (Except.ok a >>= f) = f a := rfl

@[simp] theorem error_bind {α β : Type u} (p : Panic) (f : α → Run β) :
    ((Except.error p : Run α) >>= f) = .error p := rfl

def TOKEN_MARKER : UInt8 := 0xFF
def LENGTH_BYTES : Nat := 2
def KSYM_NAME_LEN : Nat := 4096
def TY_LEN : Nat := 1
def PREFIX_LEN : Nat := LENGTH_BYTES + TY_LEN

def USIZE : Nat := 2 ^ 64
def ISIZE_MAX : Nat := 2 ^ 63 - 1

/-- The result of a `usize` addition or multiplication. -/
def usize (checks : Bool) (n : Nat) : Run Nat :=
  if n < USIZE then .ok n else if checks then .error .overflow else .ok (n % USIZE)

def usizeSub (checks : Bool) (a b : Nat) : Run Nat :=
  if b ≤ a then .ok (a - b) else if checks then .error .overflow else .ok (a + USIZE - b)

def u64Sub (checks : Bool) (a b : UInt64) : Run UInt64 :=
  if b ≤ a then .ok (a - b) else if checks then .error .overflow else .ok (a - b)

def u16Add (checks : Bool) (a b : UInt16) : Run UInt16 :=
  if a.toNat + b.toNat < 2 ^ 16 then .ok (a + b)
  else if checks then .error .overflow
  else .ok (a + b)

def index {α : Type u} (l : List α) (i : Nat) : Run α :=
  match l[i]? with
  | some a => .ok a
  | none => .error .outOfBounds

/-- `&l[start..]`. -/
def sliceFrom {α : Type u} (l : List α) (start : Nat) : Run (List α) :=
  if start ≤ l.length then .ok (l.drop start) else .error .outOfBounds

/-- `&l[start..end]`. -/
def slice {α : Type u} (l : List α) (start stop : Nat) : Run (List α) :=
  if start ≤ stop ∧ stop ≤ l.length then .ok ((l.take stop).drop start) else .error .outOfBounds

theorem usize_of_lt {checks : Bool} {n : Nat} (h : n < USIZE) : usize checks n = .ok n :=
  if_pos h

theorem usizeSub_of_le {checks : Bool} {a b : Nat} (h : b ≤ a) :
    usizeSub checks a b = .ok (a - b) := if_pos h

theorem u64Sub_of_le {checks : Bool} {a b : UInt64} (h : b ≤ a) :
    u64Sub checks a b = .ok (a - b) := if_pos h

theorem index_of_lt {α : Type u} {l : List α} {i : Nat} (h : i < l.length) :
    index l i = .ok l[i] := by
  unfold index
  rw [List.getElem?_eq_getElem h]

theorem index_of_getElem? {α : Type u} {l : List α} {i : Nat} {a : α} (h : l[i]? = some a) :
    index l i = .ok a := by
  unfold index
  rw [h]

theorem sliceFrom_of_le {α : Type u} {l : List α} {start : Nat} (h : start ≤ l.length) :
    sliceFrom l start = .ok (l.drop start) := if_pos h

theorem slice_of_le {α : Type u} {l : List α} {start stop : Nat} (h : start ≤ stop)
    (hstop : stop ≤ l.length) : slice l start stop = .ok ((l.take stop).drop start) :=
  if_pos ⟨h, hstop⟩

/-- The `(String, u64, char)` that a line of the symbol list is read as. -/
structure Symbol where
  name : Str
  addr : UInt64
  ty : Char
  deriving DecidableEq

end ExtKtrace.Ksym
