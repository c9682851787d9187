import Mathlib.Algebra.BigOperators.Group.List.Basic
import Mathlib.Algebra.GroupWithZero.Nat

/-!
# Format strings of `printf`

A format is a list of pieces: a character for itself, `%%`, or a conversion. A `*` for the width or
the precision of a conversion takes an argument of its own, in front of the one converted.
-/

namespace ExtKtrace.PrintfFormat
set_option autoImplicit false

inductive Flag where
  | minus
  | plus
  | alternate
  | zero
  | space

def Flag.char : Flag → Char
  | minus => '-'
  | plus => '+'
  | alternate => '#'
  | zero => '0'
  | space => ' '

/-- What may stand between the `%` and the letter of a conversion. -/
def modifierChars : List Char := "-+# 0123456789.*hlL".toList

/-- A width or a precision; no digits are no width, or the precision zero. -/
inductive Amount where
  | digits (ds : List (Fin 10))
  | star

def digitChar (d : Fin 10) : Char := Nat.digitChar d

namespace Amount

def text : Amount → List Char
  | digits ds => ds.map digitChar
  | star => ['*']

def arguments : Amount → Nat
  | digits _ => 0
  | star => 1

theorem mem_text {a : Amount} {ch : Char} (h : ch ∈ a.text) : ch ∈ modifierChars := by
  cases a with
  | digits ds =>
    have hdigit : ∀ d, digitChar d ∈ modifierChars := by decide
    obtain ⟨d, -, rfl⟩ := List.mem_map.mp h
    exact hdigit d
  | star =>
    cases List.mem_singleton.mp h
    decide

end Amount

inductive Length where
  | none
  | h
  | hh
  | l
  | ll
  | L

def Length.text : Length → List Char
  | none => []
  | h => ['h']
  | hh => ['h', 'h']
  | l => ['l']
  | ll => ['l', 'l']
  | L => ['L']

theorem Length.mem_text {length : Length} {ch : Char} (h : ch ∈ length.text) :
    ch ∈ modifierChars := by
  have hall : ['h', 'l', 'L'].all (· ∈ modifierChars) = true := by decide
  refine of_decide_eq_true (List.all_eq_true.mp hall ch ?_)
  cases length <;> revert h <;> simp +contextual [Length.text]

/-- A conversion by one of the letters given. -/
structure Conversion (letters : List Char) where
  flags : List Flag
  width : Amount
  precision : Option Amount
  length : Length
  letter : { c : Char // c ∈ letters }

inductive Piece (letters : List Char) where
  | literal (c : { c : Char // c ≠ '%' ∧ c ≠ '\x00' })
  | percent
  | conversion (conversion : Conversion letters)

variable {letters : List Char}

namespace Conversion

/-- What stands between the `%` and the letter. -/
def modifiers (c : Conversion letters) : List Char :=
  c.flags.map Flag.char ++ (c.width.text ++
    ((match c.precision with
      | none => []
      | some precision => '.' :: precision.text) ++ c.length.text))

def stars (c : Conversion letters) : Nat :=
  c.width.arguments + (c.precision.map Amount.arguments).getD 0

def arguments (c : Conversion letters) : Nat := c.stars + 1

def HasStar (c : Conversion letters) : Prop := c.width = .star ∨ c.precision = some .star

theorem stars_eq_zero {c : Conversion letters} : c.stars = 0 ↔ ¬ c.HasStar := by
  unfold stars HasStar
  cases c.width <;> rcases c.precision with _ | _ | _ <;> simp [Amount.arguments]

theorem mem_modifiers {c : Conversion letters} {ch : Char} (h : ch ∈ c.modifiers) :
    ch ∈ modifierChars := by
  unfold modifiers at h
  simp only [List.mem_append] at h
  rcases h with hflag | hwidth | hprecision | hlength
  · obtain ⟨flag, -, rfl⟩ := List.mem_map.mp hflag
    cases flag <;> decide
  · exact Amount.mem_text hwidth
  · cases hp : c.precision with
    | none =>
      rw [hp] at hprecision
      cases hprecision
    | some precision =>
      rw [hp] at hprecision
      rcases List.mem_cons.mp hprecision with rfl | hmem
      · decide
      · exact Amount.mem_text hmem
  · exact Length.mem_text hlength

end Conversion

namespace Piece

def text : Piece letters → List Char
  | literal c => [c.val]
  | percent => ['%', '%']
  | conversion c => '%' :: (c.modifiers ++ [c.letter.val])

/-- How many arguments `printf` takes for it. -/
def arguments : Piece letters → Nat
  | conversion c => c.arguments
  | _ => 0

def conversions : Piece letters → Nat
  | conversion _ => 1
  | _ => 0

def stars : Piece letters → Nat
  | conversion c => c.stars
  | _ => 0

theorem arguments_eq (piece : Piece letters) :
    piece.arguments = piece.stars + piece.conversions := by
  cases piece <;> rfl

end Piece

def text (pieces : List (Piece letters)) : List Char := pieces.flatMap Piece.text

def arguments (pieces : List (Piece letters)) : Nat := (pieces.map Piece.arguments).sum

def conversions (pieces : List (Piece letters)) : Nat := (pieces.map Piece.conversions).sum

/-- Only a `*` takes an argument that is not for a conversion itself. -/
theorem conversions_eq_arguments_iff (pieces : List (Piece letters)) :
    conversions pieces = arguments pieces ↔ ∀ c, .conversion c ∈ pieces → ¬ c.HasStar := by
  have hsum : arguments pieces = (pieces.map Piece.stars).sum + conversions pieces := by
    unfold arguments conversions
    rw [List.map_congr_left fun piece _ => piece.arguments_eq, List.sum_map_add]
  have hzero : conversions pieces = arguments pieces ↔ (pieces.map Piece.stars).sum = 0 := by
    omega
  rw [hzero, List.sum_eq_zero_iff_forall_eq_nat]
  simp only [List.mem_map, forall_exists_index, and_imp, forall_apply_eq_imp_iff₂]
  constructor
  · intro h c hc
    exact Conversion.stars_eq_zero.mp (h _ hc)
  · intro h piece hpiece
    cases piece with
    | literal c => rfl
    | percent => rfl
    | conversion c => exact Conversion.stars_eq_zero.mpr (h c hpiece)

end ExtKtrace.PrintfFormat
