import Mathlib.Data.Nat.Digits.Defs
import ExtKtrace.TpLexer.Lexer

/-!
# Printing filters

The text of a tree: decimal integers, patterns in double quotes, one space around operators.
-/

namespace ExtKtrace.TpLexer
set_option autoImplicit false

def digitByte (d : Nat) : UInt8 := (48 + d).toUInt8

def decimalNat (n : Nat) : Str :=
  if n = 0 then ascii "0" else (Nat.digits 10 n).reverse.map digitByte

def decimal (v : Int64) : Str :=
  if v.toInt < 0 then byte '-' :: decimalNat v.toInt.natAbs else decimalNat v.toInt.natAbs

def numOpText : NumOp → Str
  | .eq => ascii "=="
  | .ne => ascii "!="
  | .lt => ascii "<"
  | .le => ascii "<="
  | .gt => ascii ">"
  | .ge => ascii ">="

def strOpText : StrOp → Str
  | .eq => ascii "=="
  | .ne => ascii "!="
  | .glob => ascii "~"

def escape (pat : Str) : Str :=
  pat.flatMap fun b => if b = backslash ∨ b = doubleQuote then [backslash, b] else [b]

def quote (pat : Str) : Str := doubleQuote :: (escape pat ++ [doubleQuote])

def maskText : Option Int64 → Str
  | some m => ascii " & " ++ decimal m
  | none => []

def print : Expr → Str
  | .or l r => print l ++ (ascii " || " ++ print r)
  | .and l r => print l ++ (ascii " && " ++ print r)
  | .group inner => ascii "(" ++ (print inner ++ ascii ")")
  | .numCmp field _ mask op rhs =>
    field ++ (maskText mask ++ (ascii " " ++ (numOpText op ++ (ascii " " ++ decimal rhs))))
  | .strCmp field _ op pat => field ++ (ascii " " ++ (strOpText op ++ (ascii " " ++ quote pat)))

/-- The tree up to spans. -/
def eraseSpans : Expr → Expr
  | .or l r => .or (eraseSpans l) (eraseSpans r)
  | .and l r => .and (eraseSpans l) (eraseSpans r)
  | .group inner => .group (eraseSpans inner)
  | .numCmp field _ mask op rhs => .numCmp field ⟨0, 0⟩ mask op rhs
  | .strCmp field _ op pat => .strCmp field ⟨0, 0⟩ op pat

def isIdentifier : Str → Bool
  | [] => false
  | c :: rest => isIdentStart c && rest.all isIdentByte

def IsAscii (s : Str) : Prop := ∀ b ∈ s, b < 0x80

def isOr : Expr → Bool
  | .or _ _ => true
  | _ => false

def isAnd : Expr → Bool
  | .and _ _ => true
  | _ => false

/-- Canonical but for the literals: operators are left-nested, and an `||` below an `&&` or an
operator on the right side of itself is in parentheses. -/
def CanonicalShape : Expr → Prop
  | .or l r => CanonicalShape l ∧ CanonicalShape r ∧ isOr r = false
  | .and l r =>
    CanonicalShape l ∧ CanonicalShape r ∧ isOr l = false ∧ isOr r = false ∧ isAnd r = false
  | .group inner => CanonicalShape inner
  | .numCmp field _ _ _ _ => isIdentifier field = true
  | .strCmp field _ _ pat => isIdentifier field = true ∧ IsAscii pat

/-- No integer literal is `i64::MIN`. -/
def NoMinLiteral : Expr → Prop
  | .or l r | .and l r => NoMinLiteral l ∧ NoMinLiteral r
  | .group inner => NoMinLiteral inner
  | .numCmp _ _ mask _ rhs => mask ≠ some Int64.minValue ∧ rhs ≠ Int64.minValue
  | .strCmp _ _ _ _ => True

def Canonical (e : Expr) : Prop := CanonicalShape e ∧ NoMinLiteral e

theorem toDigit_digitByte {d : Nat} (h : d < 10) : toDigit 10 (digitByte d) = some d := by
  have hall : ∀ d : Fin 10, toDigit 10 (digitByte d) = some d.val := by decide
  exact hall ⟨d, h⟩

theorem checkedI64_eq_some {x : Int} (h : -2 ^ 63 ≤ x) (h' : x < 2 ^ 63) :
    checkedI64 x = some (Int64.ofInt x) := if_pos ⟨h, h'⟩

/-- The value of digits after an accumulated value. -/
def accumulate (acc : Nat) (ds : List Nat) : Nat := ds.foldl (fun a d => a * 10 + d) acc

theorem le_accumulate (acc : Nat) (ds : List Nat) : acc ≤ accumulate acc ds := by
  induction ds generalizing acc with
  | nil => exact Nat.le_refl acc
  | cons d ds ih =>
    have h := ih (acc * 10 + d)
    show acc ≤ accumulate (acc * 10 + d) ds
    omega

theorem accumulate_digits (n : Nat) : accumulate 0 (Nat.digits 10 n).reverse = n := by
  have h : accumulate 0 (Nat.digits 10 n).reverse = Nat.ofDigits 10 (Nat.digits 10 n) := by
    rw [accumulate, List.foldl_reverse, Nat.ofDigits_eq_foldr]
    congr 1
    funext d a
    simp only [Nat.cast_id]
    omega
  rw [h, Nat.ofDigits_digits]

/-- The checked loop reads digits whose value is in range. -/
theorem fromDigits_digits (ds : List Nat) (hds : ∀ d ∈ ds, d < 10) {acc : Nat}
    (h : accumulate acc ds < 2 ^ 63) :
    fromDigits 10 1 .posOverflow (Int64.ofInt acc) (ds.map digitByte) =
      .ok (Int64.ofInt (accumulate acc ds)) := by
  induction ds generalizing acc with
  | nil => rfl
  | cons d ds ih =>
    have hd := hds d List.mem_cons_self
    have hstep : accumulate acc (d :: ds) = accumulate (acc * 10 + d) ds := rfl
    have hle := le_accumulate (acc * 10 + d) ds
    rw [hstep] at h ⊢
    have hacc : (Int64.ofInt acc).toInt = acc :=
      Int64.toInt_ofInt_of_le (by omega) (by omega)
    have hmul : (Int64.ofInt (acc * 10)).toInt = acc * 10 :=
      Int64.toInt_ofInt_of_le (by omega) (by omega)
    simp only [List.map_cons, fromDigits, toDigit_digitByte hd, hacc, Nat.cast_ofNat]
    rw [checkedI64_eq_some (by omega) (by omega)]
    simp only [hmul, one_mul]
    rw [checkedI64_eq_some (by omega) (by omega)]
    have := ih (fun d hd => hds d (List.mem_cons_of_mem _ hd)) h
    simpa using this

/-- The digits of a number, most significant first; `0` has one. -/
def decimalDigits (n : Nat) : List Nat := if n = 0 then [0] else (Nat.digits 10 n).reverse

theorem decimalNat_eq (n : Nat) : decimalNat n = (decimalDigits n).map digitByte := by
  unfold decimalNat decimalDigits
  split <;> rfl

theorem decimalDigits_lt {n d : Nat} (h : d ∈ decimalDigits n) : d < 10 := by
  unfold decimalDigits at h
  split at h
  · rw [List.mem_singleton.mp h]
    omega
  · exact Nat.digits_lt_base (by omega) (List.mem_reverse.mp h)

theorem decimalDigits_ne_nil (n : Nat) : decimalDigits n ≠ [] := by
  unfold decimalDigits
  split
  · simp
  · rename_i h
    simpa using Nat.digits_ne_nil_iff_ne_zero.mpr h

theorem accumulate_decimalDigits (n : Nat) : accumulate 0 (decimalDigits n) = n := by
  unfold decimalDigits
  split
  · rename_i h
    rw [h]
    rfl
  · exact accumulate_digits n

theorem digitByte_isDigit {d : Nat} (h : d < 10) : isAsciiDigit (digitByte d) = true := by
  have hall : ∀ d : Fin 10, isAsciiDigit (digitByte d) = true := by decide
  exact hall ⟨d, h⟩

theorem decimalNat_digits {n : Nat} : ∀ b ∈ decimalNat n, isAsciiDigit b = true := by
  intro b hb
  rw [decimalNat_eq] at hb
  obtain ⟨d, hd, rfl⟩ := List.mem_map.mp hb
  exact digitByte_isDigit (decimalDigits_lt hd)

theorem decimalNat_cons (n : Nat) : ∃ c rest, decimalNat n = c :: rest := by
  rcases h : decimalNat n with _ | ⟨c, rest⟩
  · rw [decimalNat_eq] at h
    exact absurd (List.map_eq_nil_iff.mp h) (decimalDigits_ne_nil n)
  · exact ⟨c, rest, rfl⟩

theorem fromStrRadix_decimalNat {n : Nat} (h : n < 2 ^ 63) :
    fromStrRadix (decimalNat n) 10 = .ok (Int64.ofInt n) := by
  have hread := @fromDigits_digits (decimalDigits n) (fun d => decimalDigits_lt) 0
    (by rw [accumulate_decimalDigits]; exact h)
  rw [accumulate_decimalDigits, ← decimalNat_eq] at hread
  obtain ⟨c, rest, hcons⟩ := decimalNat_cons n
  have hc : isAsciiDigit c = true := decimalNat_digits c (by rw [hcons]; exact List.mem_cons_self)
  have hsign : ¬ (c = byte '+' ∨ c = byte '-') := by
    rintro (rfl | rfl) <;> exact absurd hc (by decide)
  rw [hcons] at hread ⊢
  simp only [fromStrRadix, if_neg hsign]
  exact hread

theorem dropPieces_of_head {pieces : List Str} {b : UInt8} {s : Str}
    (h : ∀ w ∈ pieces, w.head? ≠ some b ∧ w ≠ []) (n : Nat) :
    dropPieces pieces n (b :: s) = b :: s := by
  cases n with
  | zero => rfl
  | succ n =>
    have hnone : pieces.find? (fun w => w.isPrefixOf (b :: s)) = none := by
      apply List.find?_eq_none.mpr
      intro w hw hpre
      rcases w with _ | ⟨c, w⟩
      · exact (h [] hw).2 rfl
      · have hcb : c = b := by
          simp only [List.isPrefixOf, Bool.and_eq_true, beq_iff_eq] at hpre
          exact hpre.1
        exact (h _ hw).1 (by rw [hcb]; rfl)
    rw [dropPieces, hnone]

theorem trim_eq_self {b c : UInt8} {s t : Str} (hs : s = b :: t) (hlast : s.getLast? = some c)
    (hb : ∀ w ∈ whitespaceChars, w.head? ≠ some b ∧ w ≠ [])
    (hc : ∀ w ∈ whitespaceChars.map List.reverse, w.head? ≠ some c ∧ w ≠ []) : trim s = s := by
  have hfront : dropPieces whitespaceChars s.length s = s := by
    rw [hs]
    exact dropPieces_of_head hb _
  have hrev : ∃ r, s.reverse = c :: r := by
    rw [← List.head?_reverse] at hlast
    rcases hr : s.reverse with _ | ⟨d, r⟩
    · rw [hr] at hlast
      cases hlast
    · rw [hr] at hlast
      cases hlast
      exact ⟨r, rfl⟩
  obtain ⟨r, hr⟩ := hrev
  unfold trim
  simp only [hfront]
  rw [hr, dropPieces_of_head hc, ← hr, List.reverse_reverse]

theorem digit_not_head {pieces : List Str} {c : UInt8} (hc : isAsciiDigit c = true)
    (hall : (pieces.all fun w => w.head?.any fun b => !isAsciiDigit b) = true) :
    ∀ w ∈ pieces, w.head? ≠ some c ∧ w ≠ [] := by
  intro w hw
  have hhead := List.all_eq_true.mp hall w hw
  cases w with
  | nil => cases hhead
  | cons b w =>
    refine ⟨?_, List.cons_ne_nil b w⟩
    rintro ⟨⟩
    rw [List.head?_cons, Option.any_some, hc] at hhead
    cases hhead

/-- No digit begins or ends a white space character. -/
theorem digit_not_whitespace {c : UInt8} (hc : isAsciiDigit c = true) :
    (∀ w ∈ whitespaceChars, w.head? ≠ some c ∧ w ≠ []) ∧
      ∀ w ∈ whitespaceChars.map List.reverse, w.head? ≠ some c ∧ w ≠ [] :=
  ⟨digit_not_head hc rfl, digit_not_head hc rfl⟩

theorem stripHex_digits {w : Str} (hw : ∀ b ∈ w, isAsciiDigit b = true) : stripHex w = none := by
  unfold stripHex
  split
  · exact absurd (hw 0x78 (by simp)) (by decide)
  · exact absurd (hw 0x58 (by simp)) (by decide)
  · rfl

theorem trim_decimal (v : Int64) : trim (decimal v) = decimal v := by
  obtain ⟨c, rest, hcons⟩ := decimalNat_cons v.toInt.natAbs
  have hlast : ∃ d, (decimalNat v.toInt.natAbs).getLast? = some d ∧ isAsciiDigit d = true := by
    rw [hcons]
    refine ⟨_, List.getLast?_eq_some_getLast (by simp), ?_⟩
    apply decimalNat_digits (n := v.toInt.natAbs)
    rw [hcons]
    exact List.getLast_mem _
  obtain ⟨d, hlast, hd⟩ := hlast
  unfold decimal
  split
  · have hlast' : (byte '-' :: decimalNat v.toInt.natAbs).getLast? = some d := by
      rw [hcons, List.getLast?_cons_cons, ← hcons]
      exact hlast
    exact trim_eq_self rfl hlast' (by decide) (digit_not_whitespace hd).2
  · have hc : isAsciiDigit c = true :=
      decimalNat_digits c (by rw [hcons]; exact List.mem_cons_self)
    exact trim_eq_self hcons hlast (digit_not_whitespace hc).1 (digit_not_whitespace hd).2

/-- The decimal text of a number is a literal, but for `i64::MIN`, whose digits alone are out of
range. -/
theorem parseI64LiteralText_decimal {v : Int64} (hmin : v ≠ Int64.minValue) :
    parseI64LiteralText (decimal v) = .ok v := by
  have hlow := v.le_toInt
  have hhigh := v.toInt_lt
  have hne : v.toInt ≠ -2 ^ 63 := by
    rw [← Int64.toInt_minValue]
    exact fun h => hmin (Int64.toInt_inj.mp h)
  have hread := fromStrRadix_decimalNat (n := v.toInt.natAbs) (by omega)
  have hhex := stripHex_digits (@decimalNat_digits v.toInt.natAbs)
  obtain ⟨c, rest, hcons⟩ := decimalNat_cons v.toInt.natAbs
  have hnil : decimalNat v.toInt.natAbs ≠ [] := by simp [hcons]
  unfold parseI64LiteralText
  rw [trim_decimal]
  by_cases hneg : v.toInt < 0
  · have hdec : decimal v = byte '-' :: decimalNat v.toInt.natAbs := if_pos hneg
    have hvalue : (Int64.ofInt v.toInt.natAbs).toInt = -v.toInt := by
      rw [Int64.toInt_ofInt_of_le (by omega) (by omega)]
      omega
    have hcheck : checkedNeg (Int64.ofInt v.toInt.natAbs) = some v := by
      rw [checkedNeg, hvalue, checkedI64_eq_some (by omega) (by omega)]
      simp
    rw [hdec]
    simp only [if_true, hhex, hread, hcheck]
    rw [if_neg hnil]
  · have hdec : decimal v = decimalNat v.toInt.natAbs := if_neg hneg
    have hc : isAsciiDigit c = true :=
      decimalNat_digits c (by rw [hcons]; exact List.mem_cons_self)
    have hminus : c ≠ byte '-' := by
      rintro rfl
      exact absurd hc (by decide)
    have hplus : c ≠ byte '+' := by
      rintro rfl
      exact absurd hc (by decide)
    have hvalue : Int64.ofInt v.toInt.natAbs = v := by
      rw [Int.natAbs_of_nonneg (by omega)]
      exact Int64.ofInt_toInt v
    rw [hdec, hcons]
    simp only [if_neg hminus, if_neg hplus]
    rw [← hcons, if_neg hnil]
    simp only [hhex, hread, hvalue]
    simp

end ExtKtrace.TpLexer
