import Mathlib.Algebra.GroupWithZero.Nat
import Mathlib.Order.Lattice
import Mathlib.Data.List.Basic

/-!
# Patterns of the control file

A `&str` is the list of its characters. Wildcards compare the bytes of its UTF-8 form, the
other tests are the same on characters.
-/

namespace ExtKtrace.Ddebug
set_option autoImplicit false

abbrev Str := List Char

/-- `str::as_bytes`. -/
def asBytes (s : Str) : List UInt8 := s.flatMap String.utf8EncodeChar

def star : UInt8 := 0x2A
def questionMark : UInt8 := 0x3F

def hasGlob (pattern : Str) : Bool :=
  (asBytes pattern).any fun byte => byte = star || byte = questionMark

/-- The variables of the loop of `glob_match`. -/
structure GlobState where
  patIdx : Nat
  valIdx : Nat
  starIdx : Option Nat
  starMatch : Nat
  le : starMatch ≤ valIdx

/-- The loop of `glob_match`: the pattern index behind it, `none` on `return false`. -/
def globLoop (pattern value : List UInt8) (s : GlobState) : Option Nat :=
  if s.valIdx < value.length then
    if s.patIdx < pattern.length ∧
        (pattern[s.patIdx]? = some questionMark ∨ pattern[s.patIdx]? = value[s.valIdx]?) then
      globLoop pattern value
        { s with patIdx := s.patIdx + 1, valIdx := s.valIdx + 1, le := Nat.le_succ_of_le s.le }
    else if s.patIdx < pattern.length ∧ pattern[s.patIdx]? = some star then
      globLoop pattern value
        { s with
          starIdx := some s.patIdx
          patIdx := s.patIdx + 1
          starMatch := s.valIdx
          le := Nat.le_refl _ }
    else
      match s.starIdx with
      | some starIdx =>
        globLoop pattern value
          { patIdx := starIdx + 1
            valIdx := s.starMatch + 1
            starIdx := some starIdx
            starMatch := s.starMatch + 1
            le := Nat.le_refl _ }
      | none => none
  else some s.patIdx
termination_by (value.length - s.starMatch, pattern.length - s.patIdx + (value.length - s.valIdx))
decreasing_by
  · apply Prod.Lex.right
    omega
  · have hle := s.le
    rcases Nat.eq_or_lt_of_le hle with heq | hlt
    · simp only [heq]
      apply Prod.Lex.right
      omega
    · apply Prod.Lex.left
      omega
  · have hle := s.le
    apply Prod.Lex.left
    omega

/-- Skip the stars at an index of a pattern. -/
def skipStars (pattern : List UInt8) (patIdx : Nat) : Nat :=
  patIdx + ((pattern.drop patIdx).takeWhile (· = star)).length

def globMatchBytes (pattern value : List UInt8) : Bool :=
  match globLoop pattern value ⟨0, 0, none, 0, Nat.le_refl 0⟩ with
  | none => false
  | some patIdx => skipStars pattern patIdx = pattern.length

def globMatch (pattern value : Str) : Bool := globMatchBytes (asBytes pattern) (asBytes value)

/-- What follows the last `::`, if there is one. -/
def afterLastColons : Str → Option Str
  | [] => none
  | c :: rest =>
    match afterLastColons rest with
    | some tail => some tail
    | none => if c = ':' ∧ rest.head? = some ':' then some rest.tail else none

/-- `value.rsplit("::").next()`. -/
def lastSegment (value : Str) : Str := (afterLastColons value).getD value

/-- `str::strip_suffix`. -/
def stripSuffix (value pattern : Str) : Option Str :=
  if pattern.isSuffixOf value then some (value.take (value.length - pattern.length)) else none

/-- `str::contains`. -/
def contains (value pattern : Str) : Bool := value.tails.any fun tail => pattern.isPrefixOf tail

def matchesFile (pattern value : Str) : Bool :=
  if hasGlob pattern then globMatch pattern value
  else value == pattern || pattern.isSuffixOf value

def matchesModule (pattern value : Str) : Bool :=
  if hasGlob pattern then globMatch pattern value
  else if value = pattern then true
  else (stripSuffix value pattern).any fun front => "::".toList.isSuffixOf front

def matchesFunc (pattern value : Str) : Bool :=
  if hasGlob pattern then globMatch pattern value || globMatch pattern (lastSegment value)
  else value == pattern || lastSegment value == pattern

def matchesFormat (pattern value : Str) : Bool :=
  if hasGlob pattern then globMatch pattern value else contains value pattern

end ExtKtrace.Ddebug
