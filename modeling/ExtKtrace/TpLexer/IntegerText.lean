import ExtKtrace.TpLexer.Printer

/-!
# The grammar of integer text

What is read is a little more than one sign, a radix mark and digits: the standard library takes
a sign of its own in front of the digits it is given, and a sign that was cut off before is put
back on a number that had to be in range without it.
-/

namespace ExtKtrace.TpLexer.IntegerText
set_option autoImplicit false

/-- What a number becomes when digits are written behind it. -/
def Extended (radix : Nat) (a : Nat) (text : Str) (n : Nat) : Prop :=
  ∃ digits : List Nat, text.map (toDigit radix) = digits.map some ∧
    n = a * radix ^ digits.length + Nat.ofDigits radix digits.reverse

/-- Digits, at least one, and the number they are. -/
def Digits (radix : Nat) (text : Str) (n : Nat) : Prop := text ≠ [] ∧ Extended radix 0 text n

/-- Decimal digits, or hexadecimal ones behind `0x` or `0X`. -/
inductive Numeral : Str → Nat → Prop
  | decimal {text : Str} {n : Nat} (h : Digits 10 text n) : Numeral text n
  | hex {x : UInt8} {text : Str} {n : Nat} (hx : x = byte 'x' ∨ x = byte 'X')
      (h : Digits 16 text n) : Numeral (byte '0' :: x :: text) n

/-- A sign and then a number. -/
inductive Marked (P : Str → Nat → Prop) : Str → Int → Prop
  | plus {text : Str} {n : Nat} (h : P text n) : Marked P (byte '+' :: text) n
  | minus {text : Str} {n : Nat} (h : P text n) : Marked P (byte '-' :: text) (-n)

/-- A number with or without a sign. -/
def Signed (P : Str → Nat → Prop) (text : Str) (x : Int) : Prop :=
  (∃ n : Nat, P text n ∧ x = n) ∨ Marked P text x

/-- Without the white space around it, the text is an optional sign and a numeral, whose value
with this sign is `v`. -/
def Denotes (s : Str) (v : Int64) : Prop := Signed Numeral (trim s) v.toInt

theorem checkedI64_eq_some_iff {x : Int} {v : Int64} : checkedI64 x = some v ↔ v.toInt = x := by
  have hlow := v.le_toInt
  have hhigh := v.toInt_lt
  unfold checkedI64
  constructor
  · intro h
    split at h
    · rename_i hrange
      rw [← Option.some.inj h]
      exact Int64.toInt_ofInt_of_le hrange.1 hrange.2
    · cases h
  · rintro rfl
    rw [if_pos ⟨hlow, hhigh⟩, Int64.ofInt_toInt]

/-- What is nearer to zero than a number in range is in range. -/
theorem checkedI64_of_le {sign : Int} (hsign : sign = 1 ∨ sign = -1) {m n : Nat} (hle : m ≤ n)
    {v : Int64} (hv : v.toInt = sign * n) : ∃ w, checkedI64 (sign * m) = some w := by
  have hlow := v.le_toInt
  have hhigh := v.toInt_lt
  refine ⟨_, if_pos ?_⟩
  rcases hsign with rfl | rfl
  · constructor
    · omega
    · omega
  · constructor
    · omega
    · omega

theorem extended_nil {radix a n : Nat} : Extended radix a [] n ↔ n = a := by
  constructor
  · rintro ⟨digits, hdigits, hn⟩
    rw [List.map_nil, eq_comm, List.map_eq_nil_iff] at hdigits
    subst hdigits
    simpa using hn
  · intro hn
    exact ⟨[], rfl, by simpa using hn⟩

theorem extended_cons {radix a n : Nat} {c : UInt8} {rest : Str} :
    Extended radix a (c :: rest) n ↔
      ∃ d, toDigit radix c = some d ∧ Extended radix (a * radix + d) rest n := by
  have hnext : ∀ (d : Nat) (digits : List Nat),
      a * radix ^ (d :: digits).length + Nat.ofDigits radix (d :: digits).reverse =
        (a * radix + d) * radix ^ digits.length + Nat.ofDigits radix digits.reverse := by
    intro d digits
    rw [Nat.ofDigits_reverse_cons, List.length_cons, pow_succ]
    ring
  constructor
  · rintro ⟨digits, hdigits, hn⟩
    rcases digits with _ | ⟨d, digits⟩
    · cases hdigits
    · obtain ⟨hd, hdigits⟩ := List.cons.inj hdigits
      exact ⟨d, hd, digits, hdigits, by rw [hn, hnext]⟩
  · rintro ⟨d, hd, digits, hdigits, hn⟩
    exact ⟨d :: digits, by rw [List.map_cons, hd, hdigits, List.map_cons], by rw [hn, hnext]⟩

theorem le_of_extended {radix a n : Nat} (hradix : 0 < radix) {text : Str}
    (h : Extended radix a text n) : a ≤ n := by
  obtain ⟨digits, -, rfl⟩ := h
  have hpow := Nat.le_mul_of_pos_right a (Nat.pow_pos (n := digits.length) hradix)
  omega

/-- Once a step has left the range, no digits behind it lead back. -/
theorem no_value_behind {radix a m : Nat} (hradix : 0 < radix) {sign : Int}
    (hsign : sign = 1 ∨ sign = -1) {text : Str} {v : Int64}
    (hcheck : checkedI64 (sign * ↑m) = none) (hle : m ≤ a) :
    ¬ ∃ n, Extended radix a text n ∧ v.toInt = sign * n := by
  rintro ⟨n, hn, hv⟩
  have hm := Nat.le_trans hle (le_of_extended hradix hn)
  obtain ⟨w, hw⟩ := checkedI64_of_le hsign hm hv
  rw [hcheck] at hw
  cases hw

/-- The loop reads exactly digits, and only a value in range: both of its steps are nearer to zero
than that. -/
theorem fromDigits_eq_ok {radix : Nat} (hradix : 0 < radix) {sign : Int}
    (hsign : sign = 1 ∨ sign = -1) {overflow : IntErrorKind} {text : Str} {result v : Int64}
    {a : Nat} (hresult : result.toInt = sign * a) :
    fromDigits radix sign overflow result text = .ok v ↔
      ∃ n, Extended radix a text n ∧ v.toInt = sign * n := by
  induction text generalizing result a with
  | nil =>
    rw [fromDigits]
    constructor
    · intro h
      exact ⟨a, extended_nil.mpr rfl, by rw [← hresult, Except.ok.inj h]⟩
    · rintro ⟨n, hn, hv⟩
      rw [extended_nil.mp hn, ← hresult] at hv
      rw [Int64.toInt_inj.mp hv]
  | cons c rest ih =>
    rw [fromDigits]
    simp only [extended_cons]
    rcases hdigit : toDigit radix c with _ | d
    · simp
    have hmul : result.toInt * radix = sign * ↑(a * radix) := by
      rw [hresult, Nat.cast_mul, mul_assoc]
    have hadd : sign * ↑(a * radix) + sign * (d : Int) = sign * ↑(a * radix + d) := by
      rw [Nat.cast_add, mul_add]
    have hrest : (∃ n, (∃ d', some d = some d' ∧ Extended radix (a * radix + d') rest n) ∧
        v.toInt = sign * n) ↔ ∃ n, Extended radix (a * radix + d) rest n ∧ v.toInt = sign * n := by
      simp
    rw [hrest]
    dsimp only
    rw [hmul]
    rcases hcheck : checkedI64 (sign * ↑(a * radix)) with _ | mul
    · rw [hcheck]
      apply iff_of_false
      · intro h
        cases h
      · exact no_value_behind hradix hsign hcheck (Nat.le_add_right _ d)
    rw [hcheck]
    dsimp only
    rw [checkedI64_eq_some_iff.mp hcheck, hadd]
    rcases hcheck' : checkedI64 (sign * ↑(a * radix + d)) with _ | next
    · rw [hcheck']
      apply iff_of_false
      · intro h
        cases h
      · exact no_value_behind hradix hsign hcheck' (Nat.le_refl _)
    · rw [hcheck']
      exact ih (checkedI64_eq_some_iff.mp hcheck')

/-- The first sign, if there is one, and what is behind it. -/
def cutSign : Str → Bool × Str
  | [] => (false, [])
  | c :: rest =>
    if c = byte '-' then (true, rest)
    else if c = byte '+' then (false, rest)
    else (false, c :: rest)

def withSign (negative : Bool) (x : Int) : Int := if negative then -x else x

/-- No number begins with a sign. -/
def Unmarked (P : Str → Nat → Prop) : Prop :=
  ∀ rest n, ¬ P (byte '+' :: rest) n ∧ ¬ P (byte '-' :: rest) n

theorem signed_iff {P : Str → Nat → Prop} (hP : Unmarked P) {text : Str} {x : Int} :
    Signed P text x ↔ ∃ n : Nat, P (cutSign text).2 n ∧ x = withSign (cutSign text).1 n := by
  constructor
  · rintro (⟨n, hn, rfl⟩ | hmarked)
    · refine ⟨n, ?_⟩
      rcases text with _ | ⟨c, rest⟩
      · exact ⟨hn, rfl⟩
      · have hminus : c ≠ byte '-' := by
          rintro rfl
          exact (hP rest n).2 hn
        have hplus : c ≠ byte '+' := by
          rintro rfl
          exact (hP rest n).1 hn
        rw [cutSign, if_neg hminus, if_neg hplus]
        exact ⟨hn, rfl⟩
    · rcases hmarked with h | h
      · exact ⟨_, h, rfl⟩
      · exact ⟨_, h, rfl⟩
  · rintro ⟨n, hn, rfl⟩
    rcases text with _ | ⟨c, rest⟩
    · exact .inl ⟨n, hn, rfl⟩
    · rw [cutSign] at hn ⊢
      split at hn
      · rename_i hc
        rw [hc, if_pos rfl]
        exact .inr (.minus hn)
      · rename_i hminus
        rw [if_neg hminus]
        split at hn
        · rename_i hc
          rw [hc, if_pos rfl]
          exact .inr (.plus hn)
        · rename_i hplus
          rw [if_neg hplus]
          exact .inl ⟨n, hn, rfl⟩

theorem unmarked_digits (radix : Nat) : Unmarked (Digits radix) := by
  intro rest n
  constructor
  · rintro ⟨-, h⟩
    obtain ⟨d, hd, -⟩ := extended_cons.mp h
    cases hd
  · rintro ⟨-, h⟩
    obtain ⟨d, hd, -⟩ := extended_cons.mp h
    cases hd

theorem unmarked_numeral : Unmarked Numeral := by
  intro rest n
  constructor
  · intro h
    cases h with
    | decimal h => exact (unmarked_digits 10 _ _).1 h
  · intro h
    cases h with
    | decimal h => exact (unmarked_digits 10 _ _).2 h

/-- The standard library takes one sign in front of the digits. -/
theorem fromStrRadix_eq_ok {radix : Nat} (hradix : 0 < radix) {text : Str} {v : Int64} :
    fromStrRadix text radix = .ok v ↔ Signed (Digits radix) text v.toInt := by
  have hread : ∀ {sign : Int} {overflow : IntErrorKind} {rest : Str}, sign = 1 ∨ sign = -1 →
      rest ≠ [] → (fromDigits radix sign overflow 0 rest = .ok v ↔
        ∃ n, Digits radix rest n ∧ v.toInt = sign * n) := by
    intro sign overflow rest hsign hne
    rw [fromDigits_eq_ok hradix hsign (a := 0) (by simp)]
    simp [Digits, hne]
  rw [signed_iff (unmarked_digits radix)]
  rcases text with _ | ⟨c, rest⟩
  · constructor
    · intro h
      cases h
    · rintro ⟨n, h, -⟩
      exact absurd rfl h.1
  rw [fromStrRadix, cutSign]
  by_cases hminus : c = byte '-'
  · subst hminus
    have hother : byte '-' ≠ byte '+' := by decide
    rw [if_pos (.inr rfl), if_pos rfl, if_neg hother]
    by_cases hne : rest = []
    · simp [hne, Digits]
    · rw [if_neg hne, hread (.inr rfl) hne]
      simp [withSign]
  by_cases hplus : c = byte '+'
  · subst hplus
    rw [if_pos (.inl rfl), if_neg hminus, if_pos rfl, if_pos rfl]
    by_cases hne : rest = []
    · simp [hne, Digits]
    · rw [if_neg hne, hread (.inl rfl) hne]
      simp [withSign]
  · rw [if_neg (not_or.mpr ⟨hplus, hminus⟩), if_neg hminus, if_neg hplus,
      hread (.inl rfl) (List.cons_ne_nil _ _)]
    simp [withSign]

/-- What is behind the first sign: an optional radix mark, and what the standard library reads. -/
def Body (rest : Str) (x : Int) : Prop :=
  match stripHex rest with
  | some hex => Signed (Digits 16) hex x
  | none => Signed (Digits 10) rest x

/-- A sign stands where only digits may stand. -/
inductive SignInside : Str → Int → Prop
  | decimal {text : Str} {x : Int} (h : Marked (Digits 10) text x) : SignInside text x
  | hex {mark : UInt8} {text : Str} {x : Int} (hmark : mark = byte 'x' ∨ mark = byte 'X')
      (h : Marked (Digits 16) text x) : SignInside (byte '0' :: mark :: text) x

theorem stripHex_eq_some {text hex : Str} :
    stripHex text = some hex ↔
      ∃ mark, (mark = byte 'x' ∨ mark = byte 'X') ∧ text = byte '0' :: mark :: hex := by
  constructor
  · intro h
    unfold stripHex at h
    split at h
    · cases h
      exact ⟨_, .inl rfl, rfl⟩
    · cases h
      exact ⟨_, .inr rfl, rfl⟩
    · cases h
  · rintro ⟨mark, rfl | rfl, rfl⟩
    · rfl
    · rfl

theorem not_digits_hex {mark : UInt8} (hmark : mark = byte 'x' ∨ mark = byte 'X') {text : Str}
    {n : Nat} : ¬ Digits 10 (byte '0' :: mark :: text) n := by
  rintro ⟨-, h⟩
  obtain ⟨d, -, h⟩ := extended_cons.mp h
  obtain ⟨d', hd', -⟩ := extended_cons.mp h
  rcases hmark with rfl | rfl
  · cases hd'
  · cases hd'

theorem not_marked_hex {P : Str → Nat → Prop} {text : Str} {x : Int} :
    ¬ Marked P (byte '0' :: text) x := by
  intro h
  generalize htext : byte '0' :: text = word at h
  cases h <;> cases htext

theorem body_iff {rest : Str} {x : Int} :
    Body rest x ↔ (∃ n : Nat, Numeral rest n ∧ x = n) ∨ SignInside rest x := by
  unfold Body
  split
  · rename_i hex hstrip
    obtain ⟨mark, hmark, rfl⟩ := stripHex_eq_some.mp hstrip
    constructor
    · rintro (⟨n, hn, hx⟩ | h)
      · exact .inl ⟨n, .hex hmark hn, hx⟩
      · exact .inr (.hex hmark h)
    · rintro (⟨n, hn, hx⟩ | h)
      · cases hn with
        | decimal h => exact absurd h (not_digits_hex hmark)
        | hex _ h => exact .inl ⟨n, h, hx⟩
      · cases h with
        | decimal h => exact absurd h not_marked_hex
        | hex _ h => exact .inr h
  · rename_i hstrip
    have hmark : ∀ {mark : UInt8} {hex : Str}, mark = byte 'x' ∨ mark = byte 'X' →
        rest ≠ byte '0' :: mark :: hex := by
      intro mark hex hmark heq
      have hsome := stripHex_eq_some.mpr ⟨mark, hmark, heq⟩
      rw [hstrip] at hsome
      cases hsome
    constructor
    · rintro (⟨n, hn, hx⟩ | h)
      · exact .inl ⟨n, .decimal hn, hx⟩
      · exact .inr (.decimal h)
    · rintro (⟨n, hn, hx⟩ | h)
      · cases hn with
        | decimal h => exact .inl ⟨n, h, hx⟩
        | hex hx' _ => exact absurd rfl (hmark hx')
      · cases h with
        | decimal h => exact .inr h
        | hex hx' _ => exact absurd rfl (hmark hx')

/-- With a sign inside it is no numeral. -/
theorem SignInside.not_numeral {rest : Str} {x : Int} (h : SignInside rest x) {n : Nat} :
    ¬ Numeral rest n := by
  intro hn
  cases h with
  | decimal h =>
    cases h with
    | plus _ => exact (unmarked_numeral _ _).1 hn
    | minus _ => exact (unmarked_numeral _ _).2 hn
  | hex hmark h =>
    cases hn with
    | decimal hn => exact not_digits_hex hmark hn
    | hex _ hn =>
      cases h with
      | plus _ => exact (unmarked_digits 16 _ _).1 hn
      | minus _ => exact (unmarked_digits 16 _ _).2 hn

/-- The first sign on a value that was read without it. -/
def signed (negative : Bool) (value : Int64) : Except String Int64 :=
  if negative then
    match checkedNeg value with
    | none => .error "integer literal overflow"
    | some v => .ok v
  else .ok value

/-- What the parser does behind the first sign. -/
def readBody (negative : Bool) (rest : Str) : Except String Int64 :=
  if rest = [] then .error "integer literal missing digits"
  else
    match stripHex rest with
    | some hex =>
      if hex = [] then .error "hex literal missing digits"
      else
        match fromStrRadix hex 16 with
        | .ok value => signed negative value
        | .error .posOverflow | .error .negOverflow => .error "integer literal overflow"
        | .error _ => .error "invalid integer literal"
    | none =>
      match fromStrRadix rest 10 with
      | .ok value => signed negative value
      | .error .posOverflow | .error .negOverflow => .error "integer literal overflow"
      | .error .empty => .error "integer literal missing digits"
      | .error .invalidDigit => .error "invalid integer literal"

theorem parseI64LiteralText_eq {s : Str} (hne : trim s ≠ []) :
    parseI64LiteralText s = readBody (cutSign (trim s)).1 (cutSign (trim s)).2 := by
  obtain ⟨c, tail, htrim⟩ := List.exists_cons_of_ne_nil hne
  unfold parseI64LiteralText
  rw [htrim, cutSign]
  dsimp only
  split
  · rfl
  split
  · rfl
  · rfl

theorem signed_eq_ok {negative : Bool} {value v : Int64} :
    signed negative value = .ok v ↔ v.toInt = withSign negative value.toInt := by
  unfold signed withSign
  cases negative with
  | false =>
    constructor
    · intro h
      cases h
      rfl
    · intro h
      rw [Int64.toInt_inj.mp h]
      rfl
  | true =>
    rw [if_pos rfl, if_pos rfl, ← checkedI64_eq_some_iff, checkedNeg]
    rcases checkedI64 (-value.toInt) with _ | w
    · simp
    · simp

theorem readBody_eq_ok {negative : Bool} {rest : Str} {v : Int64} :
    readBody negative rest = .ok v ↔
      ∃ w : Int64, Body rest w.toInt ∧ v.toInt = withSign negative w.toInt := by
  have hten : 0 < 10 := by omega
  have hsixteen : 0 < 16 := by omega
  unfold readBody Body
  by_cases hrest : rest = []
  · subst hrest
    rw [if_pos rfl]
    constructor
    · intro h
      cases h
    · rintro ⟨w, h, -⟩
      cases (fromStrRadix_eq_ok hten).mpr h
  rw [if_neg hrest]
  rcases stripHex rest with _ | hex
  · simp only [← fromStrRadix_eq_ok hten]
    rcases fromStrRadix rest 10 with (_ | _ | _ | _) | value
    · simp
    · simp
    · simp
    · simp
    · simp [signed_eq_ok]
  · simp only [← fromStrRadix_eq_ok hsixteen]
    by_cases hhex : hex = []
    · subst hhex
      simp [fromStrRadix]
    rw [if_neg hhex]
    rcases fromStrRadix hex 16 with (_ | _ | _ | _) | value
    · simp
    · simp
    · simp
    · simp
    · simp [signed_eq_ok]

theorem parseI64LiteralText_eq_ok {s : Str} {v : Int64} :
    parseI64LiteralText s = .ok v ↔ ∃ w : Int64, Body (cutSign (trim s)).2 w.toInt ∧
      v.toInt = withSign (cutSign (trim s)).1 w.toInt := by
  rw [← readBody_eq_ok]
  by_cases hne : trim s = []
  · unfold parseI64LiteralText
    rw [hne]
    constructor
    · intro h
      cases h
    · intro h
      cases h
  · rw [parseI64LiteralText_eq hne]

def InRange (x : Int) : Prop := -2 ^ 63 ≤ x ∧ x < 2 ^ 63

theorem exists_toInt {x : Int} (h : InRange x) : ∃ v : Int64, v.toInt = x :=
  ⟨Int64.ofInt x, Int64.toInt_ofInt_of_le h.1 h.2⟩

/-- A minus does not make the lowest number of any other. -/
theorem min_ne_withSign (w : Int64) : Int64.minValue.toInt ≠ withSign true w.toInt := by
  have hhigh := w.toInt_lt
  rw [withSign, if_pos rfl, Int64.toInt_minValue]
  omega

/-- Behind the first sign there is a sign again, on digits whose value is in range with it and then
with both, or behind a minus a numeral that is in range only with this minus. -/
def Misread (s : Str) : Prop :=
  (∃ x, SignInside (cutSign (trim s)).2 x ∧ InRange x ∧
    InRange (withSign (cutSign (trim s)).1 x)) ∨
  (cutSign (trim s)).1 = true ∧ Numeral (cutSign (trim s)).2 (2 ^ 63)

/-- The text of a number is read as this number, and nothing else is read, but for the texts with a
sign too many and for the lowest number. -/
theorem parseI64LiteralText_denotes_iff (s : Str) :
    (∀ v, parseI64LiteralText s = .ok v ↔ Denotes s v) ↔ ¬ Misread s := by
  unfold Denotes Misread
  simp only [signed_iff unmarked_numeral, parseI64LiteralText_eq_ok]
  generalize cutSign (trim s) = text
  obtain ⟨negative, rest⟩ := text
  dsimp only
  constructor
  · rintro h (⟨x, hx, hrange, hsigned⟩ | ⟨rfl, hmin⟩)
    · obtain ⟨w, rfl⟩ := exists_toInt hrange
      obtain ⟨v, hv⟩ := exists_toInt hsigned
      obtain ⟨n, hn, -⟩ := (h v).mp ⟨w, body_iff.mpr (.inr hx), hv⟩
      exact hx.not_numeral hn
    · obtain ⟨w, -, hw⟩ := (h Int64.minValue).mpr ⟨_, hmin, rfl⟩
      exact min_ne_withSign w hw
  · intro h v
    constructor
    · rintro ⟨w, hbody, hv⟩
      rcases body_iff.mp hbody with ⟨n, hn, hw⟩ | hinside
      · exact ⟨n, hn, by rw [hv, hw]⟩
      · apply absurd _ h
        refine .inl ⟨_, hinside, ⟨w.le_toInt, w.toInt_lt⟩, ?_⟩
        rw [← hv]
        exact ⟨v.le_toInt, v.toInt_lt⟩
    · rintro ⟨n, hn, hv⟩
      have hrange : InRange n := by
        have hlow := v.le_toInt
        have hhigh := v.toInt_lt
        refine ⟨by omega, ?_⟩
        cases negative with
        | false =>
          have hplain : v.toInt = n := hv
          rw [← hplain]
          exact hhigh
        | true =>
          have hne : n ≠ 2 ^ 63 := by
            rintro rfl
            exact h (.inr ⟨rfl, hn⟩)
          rw [withSign, if_pos rfl] at hv
          omega
      obtain ⟨w, hw⟩ := exists_toInt hrange
      exact ⟨w, body_iff.mpr (.inl ⟨n, hn, hw⟩), by rw [hw, hv]⟩

/-- `i64::MIN` is in range, but its digits are not before the sign is put on them. -/
theorem parseI64LiteralText_min :
    ¬ ∀ (s : Str) (v : Int64), parseI64LiteralText s = .ok v ↔ Denotes s v := by
  intro h
  have htrim : trim (ascii "-9223372036854775808") = byte '-' :: ascii "9223372036854775808" := rfl
  have hdigits : Digits 10 (ascii "9223372036854775808") (2 ^ 63) :=
    ⟨List.cons_ne_nil _ _, [9, 2, 2, 3, 3, 7, 2, 0, 3, 6, 8, 5, 4, 7, 7, 5, 8, 0, 8], rfl, rfl⟩
  have hdenotes : Denotes (ascii "-9223372036854775808") Int64.minValue := by
    unfold Denotes
    rw [htrim, Int64.toInt_minValue]
    exact .inr (.minus (Numeral.decimal hdigits))
  obtain ⟨w, -, hw⟩ := parseI64LiteralText_eq_ok.mp ((h _ _).mpr hdenotes)
  rw [htrim] at hw
  exact min_ne_withSign w hw

example : parseI64LiteralText (ascii "--5") = .ok 5 := rfl

end ExtKtrace.TpLexer.IntegerText
