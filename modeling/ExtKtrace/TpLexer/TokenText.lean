import ExtKtrace.TpLexer.Printer

/-! # The tokens of a printed filter -/

namespace ExtKtrace.TpLexer
set_option autoImplicit false

open Call

/-- The tokens ahead of a lexer, up to the end of its input. -/
inductive Tokens : Lexer → List TokenKind → Prop
  | eof {l l' : Lexer} {span : Span} :
      Lexer.nextToken.exec l = some (.ok ⟨.eof, span⟩, l') → Tokens l []
  | cons {l l' : Lexer} {k : TokenKind} {span : Span} {ks : List TokenKind} :
      Lexer.nextToken.exec l = some (.ok ⟨k, span⟩, l') → Tokens l' ks → Tokens l (k :: ks)

/-- A text that ends any token before it. -/
def Delim (t : Str) : Prop := ∀ b ∈ t.head?, b = byte ' ' ∨ b = byte ')'

namespace Lexer

/-- The lexer that has read `pre` and has `s` ahead. -/
def after (pre s : Str) : Lexer := { input := pre ++ s, pos := pre.length }

@[simp] theorem after_rest (pre s : Str) : (after pre s).rest = s := List.drop_left

@[simp] theorem after_pos (pre s : Str) : (after pre s).pos = pre.length := rfl

theorem after_advance (pre w s : Str) :
    (after pre (w ++ s)).advance w.length = after (pre ++ w) s := by
  simp [after, advance]

theorem exec_bump_after (pre : Str) (b : UInt8) (s : Str) :
    bump.exec (after pre (b :: s)) = some (.ok (some b), after (pre ++ [b]) s) := by
  unfold bump
  rw [exec_bind_ok (exec_self _)]
  simp only [peekOf, after_rest, List.head?_cons]
  rw [exec_bind_ok (exec_update _ _)]
  exact congrArg (fun l => some (Except.ok (some b), l)) (after_advance pre [b] s)

theorem exec_peek_after (pre s : Str) :
    peek.exec (after pre s) = some (.ok s.head?, after pre s) := by
  unfold peek
  rw [exec_bind_ok (exec_self _)]
  simp [peekOf]

theorem exec_peek2_after (pre s : Str) :
    peek2.exec (after pre s) = some (.ok s.tail.head?, after pre s) := by
  unfold peek2
  rw [exec_bind_ok (exec_self _)]
  simp

theorem exec_advanceWhile (p : UInt8 → Bool) (pre s : Str) :
    (advanceWhile p).exec (after pre s) =
      some (.ok (), after (pre ++ s.takeWhile p) (s.dropWhile p)) := by
  have h := after_advance pre (s.takeWhile p) (s.dropWhile p)
  rw [List.takeWhile_append_dropWhile] at h
  unfold advanceWhile
  rw [exec_update, after_rest, h]

/-- The loop takes exactly the run `w` when what follows is not in the class. -/
theorem exec_advanceWhile_run {p : UInt8 → Bool} {w t : Str} (hw : ∀ b ∈ w, p b = true)
    (ht : ∀ b ∈ t.head?, p b = false) (pre : Str) :
    (advanceWhile p).exec (after pre (w ++ t)) = some (.ok (), after (pre ++ w) t) := by
  have htake : t.takeWhile p = [] ∧ t.dropWhile p = t := by
    cases t with
    | nil => simp
    | cons b t => simp [ht b rfl]
  rw [exec_advanceWhile, List.takeWhile_append_of_pos hw, List.dropWhile_append_of_pos hw,
    htake.1, htake.2, List.append_nil]

theorem exec_token (start : Nat) (kind : TokenKind) (l : Lexer) :
    (token start kind).exec l = some (.ok ⟨kind, ⟨start, l.pos⟩⟩, l) := rfl

theorem isCharBoundary_after {pre s : Str} (hs : ∀ b ∈ s.head?, b < 0x80 ∨ 0xC0 ≤ b) :
    isCharBoundary (pre ++ s) pre.length = true := by
  unfold isCharBoundary
  rw [List.getElem?_append_right (Nat.le_refl _), Nat.sub_self]
  rcases s with _ | ⟨b, s⟩
  · simp
  · have hb := hs b rfl
    simp [or_assoc, hb]

theorem sliceStr_after {pre w t : Str} (hw : ∀ b ∈ w.head?, b < 0x80 ∨ 0xC0 ≤ b)
    (ht : ∀ b ∈ t.head?, b < 0x80 ∨ 0xC0 ≤ b) (hne : w ≠ []) :
    sliceStr (pre ++ w ++ t) pre.length (pre ++ w).length = some w := by
  have hstart : isCharBoundary (pre ++ w ++ t) pre.length = true := by
    obtain ⟨b, w, rfl⟩ := List.exists_cons_of_ne_nil hne
    rw [List.append_assoc]
    exact isCharBoundary_after hw
  unfold sliceStr
  rw [if_pos ⟨by simp, hstart, isCharBoundary_after ht⟩, List.take_left, List.drop_left]

theorem exec_sliceFrom_after {pre w t : Str} (hw : ∀ b ∈ w.head?, b < 0x80 ∨ 0xC0 ≤ b)
    (ht : ∀ b ∈ t.head?, b < 0x80 ∨ 0xC0 ≤ b) (hne : w ≠ []) :
    (sliceFrom pre.length).exec (after (pre ++ w) t) = some (.ok w, after (pre ++ w) t) := by
  unfold sliceFrom
  rw [exec_bind_ok (exec_self _), exec_orPanic]
  show (sliceStr (pre ++ w ++ t) pre.length (pre ++ w).length).map _ = _
  rw [sliceStr_after hw ht hne]
  rfl

/-- What `lex_ident` and `lex_bareword` have in common. -/
def lexRun (p : UInt8 → Bool) (kind : Str → TokenKind) (start : Nat) : Method Token := do
  let base := (← Call.self).pos - 1
  advanceWhile p
  token start (kind (← sliceFrom base))

/-- A first byte and the run of a class behind it. -/
theorem exec_lexRun {p : UInt8 → Bool} {b : UInt8} {w t : Str} (kind : Str → TokenKind)
    (hb : b < 0x80 ∨ 0xC0 ≤ b) (hw : ∀ c ∈ w, p c = true) (ht : ∀ c ∈ t.head?, p c = false)
    (htext : ∀ c ∈ t.head?, c < 0x80 ∨ 0xC0 ≤ c) (pre : Str) :
    (lexRun p kind pre.length).exec (after (pre ++ [b]) (w ++ t)) =
      some (.ok ⟨kind (b :: w), ⟨pre.length, (pre ++ b :: w).length⟩⟩, after (pre ++ b :: w) t) := by
  have hbase : (after (pre ++ [b]) (w ++ t)).pos - 1 = pre.length := by simp
  have hhead : ∀ c ∈ (b :: w).head?, c < 0x80 ∨ 0xC0 ≤ c := by
    intro c hc
    cases hc
    exact hb
  have hslice := @exec_sliceFrom_after pre (b :: w) t hhead htext (List.cons_ne_nil _ _)
  unfold lexRun
  rw [exec_bind_ok (exec_self _), hbase, exec_bind_ok (exec_advanceWhile_run hw ht _),
    List.append_assoc, List.singleton_append, exec_bind_ok hslice]
  exact exec_token _ _ _

/-- What is ahead of a lexer: the end, or a token that starts at the first byte that is not
white space. -/
theorem exec_nextToken_after (pre s : Str) : nextToken.exec (after pre s) =
    match s.dropWhile isAsciiWhitespace with
    | [] => some (.ok ⟨.eof, ⟨(pre ++ s).length, (pre ++ s).length⟩⟩, after (pre ++ s) [])
    | b :: t => (lexArm (pre ++ s.takeWhile isAsciiWhitespace).length b).exec
        (after (pre ++ s.takeWhile isAsciiWhitespace ++ [b]) t) := by
  have happ := List.takeWhile_append_dropWhile (p := isAsciiWhitespace) (l := s)
  unfold nextToken
  rw [skipWs, exec_bind_ok (exec_advanceWhile _ pre s), exec_bind_ok (exec_self _)]
  rcases hdrop : s.dropWhile isAsciiWhitespace with _ | ⟨b, t⟩
  · rw [hdrop, List.append_nil] at happ
    rw [happ]
    simp [bump, exec_bind, peekOf]
  · rw [exec_bind_ok (exec_bump_after _ _ _)]
    rfl

theorem exec_nextToken_cons {b : UInt8} (hb : isAsciiWhitespace b = false) (pre s : Str) :
    nextToken.exec (after pre (b :: s)) = (lexArm pre.length b).exec (after (pre ++ [b]) s) := by
  rw [exec_nextToken_after, List.dropWhile_cons_of_neg (by simp [hb]),
    List.takeWhile_cons_of_neg (by simp [hb]), List.append_nil]

theorem exec_nextToken_nil (pre : Str) :
    nextToken.exec (after pre []) = some (.ok ⟨.eof, ⟨pre.length, pre.length⟩⟩, after pre []) := by
  rw [exec_nextToken_after]
  simp

theorem exec_nextToken_gap {gap : Str} (h : ∀ b ∈ gap, isAsciiWhitespace b = true) (pre s : Str) :
    nextToken.exec (after pre (gap ++ s)) = nextToken.exec (after (pre ++ gap) s) := by
  rw [exec_nextToken_after, exec_nextToken_after, List.dropWhile_append_of_pos h,
    List.takeWhile_append_of_pos h, List.append_assoc, List.append_assoc]

theorem exec_lexPair_pair (second : UInt8) (pair single : Method Token) (pre s : Str) :
    (lexPair second pair single).exec (after pre (second :: s)) =
      pair.exec (after (pre ++ [second]) s) := by
  unfold lexPair
  rw [exec_bind_ok (exec_peek_after _ _)]
  simp only [List.head?_cons, if_true]
  rw [exec_bind_ok (exec_bump_after _ _ _)]

theorem exec_lexPair_single {second : UInt8} {s : Str} (h : s.head? ≠ some second)
    (pair single : Method Token) (pre : Str) :
    (lexPair second pair single).exec (after pre s) = single.exec (after pre s) := by
  unfold lexPair
  rw [exec_bind_ok (exec_peek_after _ _), if_neg h]

end Lexer

open Lexer

/-- The tokens of a text, wherever it stands in the input. -/
def TokensOf (s : Str) (ks : List TokenKind) : Prop := ∀ pre, Tokens (after pre s) ks

/-- Before `t`, the text `w` is one token. -/
def Lexes (w : Str) (k : TokenKind) (t : Str) : Prop :=
  ∀ pre, ∃ span, nextToken.exec (after pre (w ++ t)) = some (.ok ⟨k, span⟩, after (pre ++ w) t)

theorem tokensOf_nil : TokensOf [] [] := fun pre => .eof (exec_nextToken_nil pre)

theorem TokensOf.gap {gap t : Str} {ks : List TokenKind} (h : TokensOf t ks)
    (hgap : ∀ b ∈ gap, isAsciiWhitespace b = true) : TokensOf (gap ++ t) ks := by
  intro pre
  have ht := h (pre ++ gap)
  cases ht with
  | eof hnext => exact .eof ((exec_nextToken_gap hgap pre t).trans hnext)
  | cons hnext hks => exact .cons ((exec_nextToken_gap hgap pre t).trans hnext) hks

theorem TokensOf.space {t : Str} {ks : List TokenKind} (h : TokensOf t ks) :
    TokensOf (ascii " " ++ t) ks := by
  apply h.gap
  intro b hb
  rw [List.mem_singleton.mp hb]
  rfl

theorem Lexes.cons {w t : Str} {k : TokenKind} {ks : List TokenKind} (h : Lexes w k t)
    (ht : TokensOf t ks) : TokensOf (w ++ t) (k :: ks) := by
  intro pre
  obtain ⟨span, hnext⟩ := h pre
  exact .cons hnext (ht _)

theorem Delim.head_ne {t : Str} (h : Delim t) {b : UInt8} (hb : b ≠ byte ' ' ∧ b ≠ byte ')') :
    t.head? ≠ some b := by
  intro heq
  rcases h b heq with rfl | rfl
  · exact hb.1 rfl
  · exact hb.2 rfl

theorem delim_space (t : Str) : Delim (ascii " " ++ t) := by
  intro b hb
  cases hb
  exact Or.inl rfl

theorem lexes_lParen (t : Str) : Lexes (ascii "(") .lParen t := fun pre =>
  ⟨_, (exec_nextToken_cons (by decide) pre t).trans (exec_token _ _ _)⟩

theorem lexes_rParen (t : Str) : Lexes (ascii ")") .rParen t := fun pre =>
  ⟨_, (exec_nextToken_cons (by decide) pre t).trans (exec_token _ _ _)⟩

theorem lexes_tilde (t : Str) : Lexes (ascii "~") .tilde t := fun pre =>
  ⟨_, (exec_nextToken_cons (by decide) pre t).trans (exec_token _ _ _)⟩

/-- A token of two bytes. -/
theorem lexes_pair {first second : UInt8} {k : TokenKind} {single : Nat → Method Token}
    (hws : isAsciiWhitespace first = false)
    (harm : ∀ start, lexArm start first = lexPair second (token start k) (single start)) (t : Str) :
    Lexes [first, second] k t := by
  intro pre
  refine ⟨⟨pre.length, (pre ++ [first] ++ [second]).length⟩, ?_⟩
  show nextToken.exec (after pre (first :: second :: t)) = _
  rw [exec_nextToken_cons hws, harm, exec_lexPair_pair, exec_token]
  simp

/-- A token of one byte that could start one of two. -/
theorem lexes_single {first second : UInt8} {k : TokenKind} {pair : Nat → Method Token}
    (hws : isAsciiWhitespace first = false)
    (harm : ∀ start, lexArm start first = lexPair second (pair start) (token start k)) {t : Str}
    (ht : t.head? ≠ some second) : Lexes [first] k t := by
  intro pre
  refine ⟨⟨pre.length, (pre ++ [first]).length⟩, ?_⟩
  show nextToken.exec (after pre (first :: t)) = _
  rw [exec_nextToken_cons hws, harm, exec_lexPair_single ht, exec_token]
  rfl

theorem lexes_andAnd (t : Str) : Lexes (ascii "&&") .andAnd t :=
  lexes_pair (by decide) (fun _ => rfl) t

theorem lexes_orOr (t : Str) : Lexes (ascii "||") .orOr t :=
  lexes_pair (by decide) (fun _ => rfl) t

theorem lexes_amp {t : Str} (ht : Delim t) : Lexes (ascii "&") .amp t :=
  lexes_single (by decide) (fun _ => rfl) (ht.head_ne (by decide))

def numOpKind : NumOp → TokenKind
  | .eq => .eqEq
  | .ne => .notEq
  | .lt => .lt
  | .le => .le
  | .gt => .gt
  | .ge => .ge

theorem lexes_numOp (op : NumOp) {t : Str} (ht : Delim t) :
    Lexes (numOpText op) (numOpKind op) t := by
  cases op with
  | eq => exact lexes_pair (by decide) (fun _ => rfl) t
  | ne => exact lexes_pair (by decide) (fun _ => rfl) t
  | lt => exact lexes_single (by decide) (fun _ => rfl) (ht.head_ne (by decide))
  | le => exact lexes_pair (by decide) (fun _ => rfl) t
  | gt => exact lexes_single (by decide) (fun _ => rfl) (ht.head_ne (by decide))
  | ge => exact lexes_pair (by decide) (fun _ => rfl) t

def strOpKind : StrOp → TokenKind
  | .eq => .eqEq
  | .ne => .notEq
  | .glob => .tilde

theorem lexes_strOp (op : StrOp) (t : Str) : Lexes (strOpText op) (strOpKind op) t := by
  cases op with
  | eq => exact lexes_pair (by decide) (fun _ => rfl) t
  | ne => exact lexes_pair (by decide) (fun _ => rfl) t
  | glob => exact lexes_tilde t

theorem Delim.not_class {t : Str} (h : Delim t) {p : UInt8 → Bool}
    (hp : p (byte ' ') = false ∧ p (byte ')') = false) : ∀ b ∈ t.head?, p b = false := by
  intro b hb
  rcases h b hb with rfl | rfl
  · exact hp.1
  · exact hp.2

theorem Delim.ascii {t : Str} (h : Delim t) : ∀ b ∈ t.head?, b < 0x80 ∨ 0xC0 ≤ b := by
  intro b hb
  rcases h b hb with rfl | rfl <;> decide

theorem isAsciiDigit_iff (b : UInt8) : isAsciiDigit b = true ↔ 48 ≤ b.toNat ∧ b.toNat ≤ 57 := by
  simp [isAsciiDigit, UInt8.le_iff_toNat_le, byte]

theorem isAsciiAlphabetic_iff (b : UInt8) : isAsciiAlphabetic b = true ↔
    (97 ≤ b.toNat ∧ b.toNat ≤ 122) ∨ (65 ≤ b.toNat ∧ b.toNat ≤ 90) := by
  simp [isAsciiAlphabetic, UInt8.le_iff_toNat_le, byte]

theorem isIdentStart_iff (b : UInt8) : isIdentStart b = true ↔
    ((97 ≤ b.toNat ∧ b.toNat ≤ 122) ∨ (65 ≤ b.toNat ∧ b.toNat ≤ 90)) ∨ b.toNat = 95 := by
  simp [isIdentStart, isAsciiAlphabetic_iff, ← UInt8.toNat_inj, byte]

theorem isAsciiWhitespace_eq_false {b : UInt8} (h : 32 < b.toNat) : isAsciiWhitespace b = false := by
  rw [Bool.eq_false_iff]
  intro hws
  simp only [isAsciiWhitespace, Bool.or_eq_true, decide_eq_true_eq] at hws
  rcases hws with (((rfl | rfl) | rfl) | rfl) | rfl <;> exact absurd h (by decide)

/-- A class of bytes with no operator in it. -/
theorem isOpChar_eq_false {p : UInt8 → Bool} (hp : (ascii "&|=!<>~()").any p = false) {b : UInt8}
    (hb : p b = true) : isOpChar b = false := by
  rw [Bool.eq_false_iff]
  intro hop
  exact List.any_eq_false.mp hp b (List.contains_iff_mem.mp hop) hb

theorem class_ne {p : UInt8 → Bool} {b c : UInt8} (hb : p b = true) (hc : p c = false) : b ≠ c := by
  rintro rfl
  rw [hb] at hc
  cases hc

/-- The arms of `lex_token` for a byte that is neither an operator nor a quote. -/
theorem lexArm_plain {p : UInt8 → Bool} {b : UInt8} (hb : p b = true)
    (hp : (ascii "()&|=!<>~" ++ [doubleQuote, singleQuote]).any p = false) (start : Nat) :
    lexArm start b =
      if isAsciiDigit b then do
        Call.update fun l => { l with pos := l.pos - 1 }
        lexNumber start
      else if isIdentStart b then lexIdent start
      else if isAsciiWhitespace b || isOpChar b then do
        throw (ParseError.new start (← Call.self).pos
          { format := "unrecognized character: '\x7b\x7d'", args := [.byteChar b] })
      else lexBareword start := by
  have hne : ∀ c ∈ ascii "()&|=!<>~" ++ [doubleQuote, singleQuote], b ≠ c :=
    fun c hc => class_ne hb (Bool.eq_false_iff.mpr (List.any_eq_false.mp hp c hc))
  unfold lexArm
  rw [if_neg (hne _ (by decide)), if_neg (hne _ (by decide)), if_neg (hne _ (by decide)),
    if_neg (hne _ (by decide)), if_neg (hne _ (by decide)), if_neg (hne _ (by decide)),
    if_neg (hne _ (by decide)), if_neg (hne _ (by decide)), if_neg (hne _ (by decide)),
    if_neg (not_or.mpr ⟨hne _ (by decide), hne _ (by decide)⟩)]

theorem identStart_facts (b : UInt8) (h : isIdentStart b = true) :
    isAsciiDigit b = false ∧ isAsciiWhitespace b = false ∧ b < 0x80 := by
  rw [isIdentStart_iff] at h
  refine ⟨?_, isAsciiWhitespace_eq_false (by omega), UInt8.lt_iff_toNat_lt.mpr ?_⟩
  · rw [Bool.eq_false_iff, ne_eq, isAsciiDigit_iff]
    omega
  · exact Nat.lt_of_le_of_lt (m := 122) (by omega) (by decide)

theorem digit_facts (b : UInt8) (h : isAsciiDigit b = true) :
    isAsciiWhitespace b = false ∧ b < 0x80 ∧ b ≠ byte 'x' ∧ b ≠ byte 'X' := by
  have hbelow := (isAsciiDigit_iff b).mp h
  refine ⟨isAsciiWhitespace_eq_false (by omega), UInt8.lt_iff_toNat_lt.mpr ?_, class_ne h rfl,
    class_ne h rfl⟩
  exact Nat.lt_of_le_of_lt hbelow.2 (by decide)

theorem lexArm_identStart {b : UInt8} (hb : isIdentStart b = true) (start : Nat) :
    lexArm start b = lexIdent start := by
  rw [lexArm_plain hb rfl, if_neg (by rw [(identStart_facts b hb).1]; decide), if_pos hb]

/-- An identifier before a byte that is in none. -/
theorem lexes_ident_of {w t : Str} (hw : isIdentifier w = true)
    (ht : ∀ b ∈ t.head?, isIdentByte b = false) (htext : ∀ b ∈ t.head?, b < 0x80 ∨ 0xC0 ≤ b) :
    Lexes w (.ident w) t := by
  rcases w with _ | ⟨c, w⟩
  · cases hw
  · have hc : isIdentStart c = true ∧ w.all isIdentByte = true := by
      simpa [isIdentifier] using hw
    have hfacts := identStart_facts c hc.1
    intro pre
    refine ⟨⟨pre.length, (pre ++ c :: w).length⟩, ?_⟩
    rw [List.cons_append, exec_nextToken_cons hfacts.2.1, lexArm_identStart hc.1]
    exact exec_lexRun .ident (.inl hfacts.2.2) (List.all_eq_true.mp hc.2) ht htext pre

theorem lexes_ident {w t : Str} (hw : isIdentifier w = true) (ht : Delim t) :
    Lexes w (.ident w) t := lexes_ident_of hw (ht.not_class (by decide)) ht.ascii

theorem lexes_digits {w t : Str} {v : Int64} (hne : w ≠ []) (hw : ∀ b ∈ w, isAsciiDigit b = true)
    (hread : fromStrRadix w 10 = .ok v) (ht : Delim t) : Lexes w (.int v) t := by
  rcases w with _ | ⟨c, w⟩
  · exact absurd rfl hne
  · have hc := hw c List.mem_cons_self
    have hfacts := digit_facts c hc
    intro pre
    refine ⟨⟨pre.length, (pre ++ c :: w).length⟩, ?_⟩
    have hback : (Call.update fun l : Lexer => { l with pos := l.pos - 1 } : Method Unit).exec
        (after (pre ++ [c]) (w ++ t)) = some (.ok (), after pre (c :: w ++ t)) := by
      simp [after]
    -- The second byte is a digit too, or what follows the number: no hexadecimal literal.
    have hsecond : ¬ ((c :: w ++ t).head? = some (byte '0') ∧
        ((c :: w ++ t).tail.head? = some (byte 'x') ∨
          (c :: w ++ t).tail.head? = some (byte 'X'))) := by
      rintro ⟨_, hx⟩
      rw [List.cons_append, List.tail_cons] at hx
      rcases w with _ | ⟨d, w⟩
      · rcases hx with hx | hx
        · exact ht.head_ne (by decide) hx
        · exact ht.head_ne (by decide) hx
      · have hd := (digit_facts d (hw d (by simp))).2.2
        rcases hx with hx | hx
        · exact hd.1 (Option.some.inj hx)
        · exact hd.2 (Option.some.inj hx)
    have hrun := exec_advanceWhile_run hw (ht.not_class (by decide)) pre
    have hslice := @exec_sliceFrom_after pre (c :: w) t (by simp [hfacts.2.1]) ht.ascii (by simp)
    show nextToken.exec (after pre (c :: (w ++ t))) = _
    rw [exec_nextToken_cons hfacts.1, lexArm_plain hc rfl, if_pos hc, exec_bind_ok hback]
    unfold lexNumber
    rw [exec_bind_ok (exec_peek_after _ _), exec_bind_ok (exec_peek2_after _ _),
      exec_bind_ok (exec_peek2_after _ _), if_neg hsecond, exec_bind_ok (exec_self _),
      exec_bind_ok hrun, after_pos, exec_bind_ok hslice, hread, exec_token]
    rfl

theorem toInt_natAbs {v : Int64} (h : ¬ v.toInt < 0) :
    v.toInt.natAbs < 2 ^ 63 ∧ Int64.ofInt v.toInt.natAbs = v := by
  have hlt := v.toInt_lt
  have habs : (v.toInt.natAbs : Int) = v.toInt := by omega
  refine ⟨by omega, ?_⟩
  rw [habs, Int64.ofInt_toInt]

/-- How a printed integer is lexed: a minus sign starts a bareword. -/
def intKind (v : Int64) : TokenKind := if v.toInt < 0 then .bareword (decimal v) else .int v

def isWordByte (b : UInt8) : Bool := !(isAsciiWhitespace b || isOpChar b)

def isQuote (b : UInt8) : Bool := b = doubleQuote || b = singleQuote

def startsBareword (b : UInt8) : Bool :=
  isWordByte b && !isQuote b && !isAsciiDigit b && !isIdentStart b

theorem lexArm_bareword {b : UInt8} (hb : startsBareword b = true) (start : Nat) :
    lexArm start b = lexBareword start := by
  have hfacts := hb
  simp only [startsBareword, isWordByte, Bool.and_eq_true, Bool.not_eq_true'] at hfacts
  rw [lexArm_plain hb rfl, hfacts.1.2, hfacts.2, hfacts.1.1.1]
  rfl

theorem isAsciiWhitespace_lt {b : UInt8} (h : isAsciiWhitespace b = true) : b < 0x80 := by
  simp only [isAsciiWhitespace, Bool.or_eq_true, decide_eq_true_eq] at h
  rcases h with (((rfl | rfl) | rfl) | rfl) | rfl <;> decide

/-- What ends a word is white space or an operator. -/
theorem lt_of_not_isWordByte {b : UInt8} (h : isWordByte b = false) : b < 0x80 := by
  rw [isWordByte, Bool.not_eq_false', Bool.or_eq_true] at h
  rcases h with h | h
  · exact isAsciiWhitespace_lt h
  · have hmem : b ∈ ascii "&|=!<>~()" := List.contains_iff_mem.mp h
    have hall : (ascii "&|=!<>~()").all (· < 0x80) = true := rfl
    exact of_decide_eq_true (List.all_eq_true.mp hall b hmem)

theorem lexes_bareword {c : UInt8} {w t : Str} (hc : startsBareword c = true)
    (hstart : c < 0x80 ∨ 0xC0 ≤ c) (hw : ∀ b ∈ w, isWordByte b = true)
    (ht : ∀ b ∈ t.head?, isWordByte b = false) : Lexes (c :: w) (.bareword (c :: w)) t := by
  have hws : isAsciiWhitespace c = false := by
    rw [startsBareword, isWordByte] at hc
    simp_all
  intro pre
  refine ⟨⟨pre.length, (pre ++ c :: w).length⟩, ?_⟩
  rw [List.cons_append, exec_nextToken_cons hws, lexArm_bareword hc]
  exact exec_lexRun .bareword hstart hw ht (fun b hb => .inl (lt_of_not_isWordByte (ht b hb))) pre

theorem isWordByte_digit {b : UInt8} (hb : isAsciiDigit b = true) : isWordByte b = true := by
  rw [isWordByte, (digit_facts b hb).1, isOpChar_eq_false rfl hb]
  rfl

theorem lexes_decimal (v : Int64) {t : Str} (ht : Delim t) : Lexes (decimal v) (intKind v) t := by
  unfold intKind
  split
  · rename_i hneg
    have hdec : decimal v = byte '-' :: decimalNat v.toInt.natAbs := if_pos hneg
    rw [hdec]
    exact lexes_bareword rfl (.inl (by decide)) (fun b hb => isWordByte_digit (decimalNat_digits b hb))
      (ht.not_class (by decide))
  · rename_i hpos
    have hdec : decimal v = decimalNat v.toInt.natAbs := if_neg hpos
    obtain ⟨c, rest, hcons⟩ := decimalNat_cons v.toInt.natAbs
    have hv := toInt_natAbs hpos
    have hread := fromStrRadix_decimalNat hv.1
    rw [hv.2] at hread
    rw [hdec]
    exact lexes_digits (by simp [hcons]) decimalNat_digits hread ht

theorem scanString_close (quote : UInt8) (t : Str) (pos : Nat) (out : Str) :
    scanString quote (quote :: t) pos out = (.closed out, pos + 1) := by
  rw [scanString.eq_def]
  simp

theorem scanString_special {quote : UInt8} (h : quote ≠ backslash) (c : UInt8) (t : Str) (pos : Nat)
    (out : Str) : scanString quote (backslash :: c :: t) pos out =
      scanString quote t (pos + 2) (unescape out c) := by
  rw [scanString.eq_def]
  simp [h.symm]

theorem scanString_plain {quote b : UInt8} (hq : b ≠ quote) (hb : b ≠ backslash) (t : Str)
    (pos : Nat) (out : Str) : scanString quote (b :: t) pos out =
      scanString quote t (pos + 1) (pushByteAsChar out b) := by
  rw [scanString.eq_def]
  simp [hq, hb]

/-- A pattern between two quotes of a kind, with a backslash before every one of them inside. -/
def escapeFor (q : UInt8) (pat : Str) : Str :=
  pat.flatMap fun b => if b = backslash ∨ b = q then [backslash, b] else [b]

def quoteFor (q : UInt8) (pat : Str) : Str := q :: (escapeFor q pat ++ [q])

/-- Every byte pushed as a character. -/
def latin1 (bytes : Str) : Str := bytes.flatMap fun b => pushByteAsChar [] b

theorem pushByteAsChar_eq (out : Str) (b : UInt8) :
    pushByteAsChar out b = out ++ pushByteAsChar [] b := by
  unfold pushByteAsChar
  split <;> rfl

theorem latin1_ascii {bytes : Str} (h : IsAscii bytes) : latin1 bytes = bytes := by
  induction bytes with
  | nil => rfl
  | cons b bytes ih =>
    have hb := h b List.mem_cons_self
    rw [latin1, List.flatMap_cons, ← latin1, ih fun c hc => h c (List.mem_cons_of_mem _ hc)]
    rw [pushByteAsChar, if_pos hb]
    rfl

/-- The loop of `lex_string` undoes the escapes, and pushes what is left byte by byte. -/
theorem scanString_escapeFor {q : UInt8} (hq : isQuote q = true) (pat t : Str) (pos : Nat)
    (out : Str) : scanString q (escapeFor q pat ++ q :: t) pos out =
      (.closed (out ++ latin1 pat), pos + (escapeFor q pat).length + 1) := by
  have hquote : q = doubleQuote ∨ q = singleQuote := by simpa [isQuote] using hq
  have hback : q ≠ backslash := by rcases hquote with rfl | rfl <;> decide
  induction pat generalizing pos out with
  | nil => simp [escapeFor, latin1, scanString_close]
  | cons b pat ih =>
    have hescape : escapeFor q (b :: pat) =
        (if b = backslash ∨ b = q then [backslash, b] else [b]) ++ escapeFor q pat := rfl
    have hlatin : latin1 (b :: pat) = pushByteAsChar [] b ++ latin1 pat := rfl
    rw [hescape, hlatin]
    split
    · rename_i hspecial
      have hun : unescape out b = out ++ pushByteAsChar [] b := by
        rcases hspecial with rfl | rfl
        · rfl
        · rcases hquote with rfl | rfl <;> rfl
      rw [List.cons_append, List.cons_append, List.cons_append, List.cons_append,
        scanString_special hback, List.nil_append, ih, hun, List.append_assoc]
      simp
      omega
    · rename_i hplain
      have hne := not_or.mp hplain
      rw [List.cons_append, List.cons_append, scanString_plain hne.2 hne.1, List.nil_append, ih,
        pushByteAsChar_eq, List.append_assoc]
      simp
      omega

theorem lexes_quoteFor {q : UInt8} (hq : isQuote q = true) (pat t : Str) :
    Lexes (quoteFor q pat) (.string (latin1 pat)) t := by
  have hquote : q = doubleQuote ∨ q = singleQuote := by simpa [isQuote] using hq
  intro pre
  refine ⟨⟨pre.length, (pre ++ quoteFor q pat).length⟩, ?_⟩
  have hscan := scanString_escapeFor hq pat t (pre ++ [q]).length []
  have hmove : ({ input := (after (pre ++ [q]) (escapeFor q pat ++ q :: t)).input
                  pos := (pre ++ [q]).length + (escapeFor q pat).length + 1 } : Lexer) =
      after (pre ++ quoteFor q pat) t := by
    simp [after, quoteFor]
    omega
  have hws : isAsciiWhitespace q = false := by rcases hquote with rfl | rfl <;> rfl
  have harm : lexArm pre.length q = lexString pre.length q := by
    rcases hquote with rfl | rfl <;> rfl
  have htext : quoteFor q pat ++ t = q :: (escapeFor q pat ++ q :: t) := by simp [quoteFor]
  rw [htext, exec_nextToken_cons hws, harm]
  unfold lexString
  rw [exec_bind_ok (exec_self _), after_rest, after_pos, hscan]
  simp only [List.nil_append]
  rw [exec_bind_ok (exec_update _ _)]
  rw [hmove]
  exact exec_token _ _ _

theorem lexes_quote {pat : Str} (hpat : IsAscii pat) (t : Str) :
    Lexes (quote pat) (.string pat) t := by
  have h := lexes_quoteFor (q := doubleQuote) rfl pat t
  rwa [latin1_ascii hpat] at h

end ExtKtrace.TpLexer
