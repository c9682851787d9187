import ExtKtrace.Lib.Utf8
import ExtKtrace.TpLexer.TokenText

/-!
# How tokens are written

On a text the lexer always comes back from a token: no slice splits a character, and a token that
it returns is written with the bytes it stepped over.
-/

namespace ExtKtrace.TpLexer
set_option autoImplicit false

open Call Utf8 Lexer

/-- The tokens that are written in one way only. -/
def fixedText : TokenKind → Option Str
  | .andAnd => some (ascii "&&")
  | .orOr => some (ascii "||")
  | .amp => some (ascii "&")
  | .eqEq => some (ascii "==")
  | .notEq => some (ascii "!=")
  | .lt => some (ascii "<")
  | .le => some (ascii "<=")
  | .gt => some (ascii ">")
  | .ge => some (ascii ">=")
  | .tilde => some (ascii "~")
  | .lParen => some (ascii "(")
  | .rParen => some (ascii ")")
  | _ => none

/-- A token of the kind is written like this in front of the text given last. -/
inductive Spells : TokenKind → Str → Str → Prop
  | fixed {k : TokenKind} {w t : Str} (h : fixedText k = some w) : Spells k w t
  | ident {w t : Str} (h : isIdentifier w = true) (ht : ∀ b ∈ t.head?, isIdentByte b = false) :
      Spells (.ident w) w t
  | int {v : Int64} {d : UInt8} {w t : Str} (hd : isAsciiDigit d = true) :
      Spells (.int v) (d :: w) t
  | string {q : UInt8} {body out t : Str} (hq : isQuote q = true)
      (h : ∀ pos, scanString q (body ++ q :: t) pos [] = (.closed out, pos + body.length + 1)) :
      Spells (.string out) (q :: (body ++ [q])) t
  | bareword {c : UInt8} {w t : Str} (hc : startsBareword c = true)
      (hw : ∀ b ∈ w, isWordByte b = true) (ht : ∀ b ∈ t.head?, isWordByte b = false) :
      Spells (.bareword (c :: w)) (c :: w) t

theorem Spells.ne_eof {k : TokenKind} {w t : Str} (h : Spells k w t) : k ≠ .eof := by
  rintro rfl
  cases h with
  | fixed h => cases h

theorem Spells.length_pos {k : TokenKind} {w t : Str} (h : Spells k w t) : 0 < w.length := by
  cases h with
  | fixed h =>
    cases k <;> cases h
    all_goals exact Nat.succ_pos _
  | ident h =>
    rcases w with _ | ⟨c, w⟩
    · cases h
    · exact Nat.succ_pos _
  | int => exact Nat.succ_pos _
  | string => exact Nat.succ_pos _
  | bareword => exact Nat.succ_pos _

namespace Lexer

/-- The lexer that had read `pre` and was on a token at the start of `s` returns it. -/
def Leaves (pre s : Str) (tok : Token) (l : Lexer) : Prop :=
  ∃ w t, s = w ++ t ∧ Spells tok.kind w t ∧ IsText t ∧
    tok.span = ⟨pre.length, (pre ++ w).length⟩ ∧ l = after (pre ++ w) t

theorem fail_good {P : Lexer → Prop} {Q : Token → Lexer → Prop} (start : Nat) (message : String) :
    Ensures P (fail start message) Q :=
  Ensures.self_bind fun _ _ => Ensures.throw _

theorem token_leaves {kind : TokenKind} {w t : Str} (h : Spells kind w t) (ht : IsText t)
    (pre : Str) :
    Ensures (· = after (pre ++ w) t) (token pre.length kind) (Leaves pre (w ++ t)) := by
  refine Ensures.of_exec ?_
  rintro l rfl
  exact ⟨_, _, exec_token _ _ _, w, t, rfl, h, ht, rfl, rfl⟩

theorem lexPair_leaves {pre t : Str} {first second : UInt8} {k : TokenKind}
    {single : Method Token} (hk : fixedText k = some [first, second])
    (hascii : first < 0x80 ∧ second < 0x80) (htext : IsText (first :: t))
    (hsingle : Ensures (· = after (pre ++ [first]) t) single (Leaves pre (first :: t))) :
    Ensures (· = after (pre ++ [first]) t) (lexPair second (token pre.length k) single)
      (Leaves pre (first :: t)) := by
  rintro l rfl
  by_cases hhead : t.head? = some second
  · rcases t with _ | ⟨b, t⟩
    · cases hhead
    · cases hhead
      have hrest := htext.after_ascii (w := [first, second]) (by simp [hascii])
      rw [exec_lexPair_pair, List.append_assoc]
      exact token_leaves (.fixed hk) hrest pre _ rfl
  · rw [exec_lexPair_single hhead]
    exact hsingle _ rfl

/-- A string ends behind its first quote that is not escaped. -/
theorem scanString_closed {quote : UInt8} {s out res : Str} {pos stop : Nat}
    (h : scanString quote s pos out = (.closed res, stop)) :
    ∃ body t, s = body ++ quote :: t ∧ stop = pos + body.length + 1 ∧
      ∀ start, scanString quote s start out = (.closed res, start + body.length + 1) := by
  fun_induction scanString quote s pos out with
  | case1 pos out => cases h
  | case2 rest pos out =>
    cases h
    exact ⟨[], rest, rfl, rfl, fun start => scanString_close quote rest start _⟩
  | case3 pos out => cases h
  | case4 pos out c rest hquote ih =>
    obtain ⟨body, t, rfl, rfl, hscan⟩ := ih h
    refine ⟨backslash :: c :: body, t, rfl, by simp; omega, ?_⟩
    intro start
    rw [scanString_special (Ne.symm hquote), hscan]
    simp
    omega
  | case5 b rest pos out hquote hback ih =>
    obtain ⟨body, t, rfl, rfl, hscan⟩ := ih h
    refine ⟨b :: body, t, rfl, by simp; omega, ?_⟩
    intro start
    rw [scanString_plain hquote hback, hscan]
    simp
    omega

theorem lexString_leaves {pre t : Str} {q : UInt8} (hq : isQuote q = true)
    (htext : IsText (q :: t)) :
    Ensures (· = after (pre ++ [q]) t) (lexString pre.length q) (Leaves pre (q :: t)) := by
  rintro l rfl
  unfold lexString
  rw [exec_bind_ok (exec_self _), after_rest, after_pos]
  rcases hscan : scanString q t (pre ++ [q]).length [] with ⟨stringEnd, stop⟩
  dsimp only
  rw [exec_bind_ok (exec_update _ _)]
  rcases stringEnd with out | _ | _
  · obtain ⟨body, rest, rfl, rfl, hclosed⟩ := scanString_closed hscan
    have hascii : q < 0x80 := by
      rcases (Bool.or_eq_true _ _).mp hq with h | h
      · rw [of_decide_eq_true h]
        decide
      · rw [of_decide_eq_true h]
        decide
    have hmove : ({ after (pre ++ [q]) (body ++ q :: rest) with
        pos := (pre ++ [q]).length + body.length + 1 } : Lexer) =
          after (pre ++ (q :: (body ++ [q]))) rest := by
      simp [after]
      omega
    have hrest : IsText (q :: body ++ q :: rest) := htext
    have hsplit : q :: (body ++ q :: rest) = q :: (body ++ [q]) ++ rest := by simp
    rw [hmove, hsplit]
    exact token_leaves (.string hq hclosed) (hrest.cut hascii).2.2 pre _ rfl
  · exact @fail_good (fun _ => True) _ _ _ _ trivial
  · exact @fail_good (fun _ => True) _ _ _ _ trivial

theorem isIdentByte_lt {b : UInt8} (h : isIdentByte b = true) : b < 0x80 := by
  rw [isIdentByte, Bool.or_right_comm, Bool.or_eq_true] at h
  rcases h with h | h
  · exact (identStart_facts b h).2.2
  · exact (digit_facts b h).2.1

theorem isAsciiHexdigit_lt {b : UInt8} (h : isAsciiHexdigit b = true) : b < 0x80 := by
  rw [isAsciiHexdigit, Bool.or_assoc, Bool.or_eq_true] at h
  rcases h with h | h
  · exact (digit_facts b h).2.1
  · simp only [Bool.or_eq_true, Bool.and_eq_true, decide_eq_true_eq, UInt8.le_iff_toNat_le] at h
    apply UInt8.lt_iff_toNat_lt.mpr
    rcases h with h | h
    · exact Nat.lt_of_le_of_lt h.2 (by decide)
    · exact Nat.lt_of_le_of_lt h.2 (by decide)

theorem literal_leaves {pre w t : Str} (h : ∀ v, Spells (.int v) w t) (ht : IsText t)
    (r : Except IntErrorKind Int64) (message : String) :
    Ensures (· = after (pre ++ w) t) (match r with
      | .error _ => fail pre.length message
      | .ok v => token pre.length (.int v)) (Leaves pre (w ++ t)) := by
  cases r with
  | error e => exact fail_good _ message
  | ok v => exact token_leaves (h v) ht pre

theorem lexRun_leaves {p : UInt8 → Bool} {kind : Str → TokenKind} {pre w t : Str} {b : UInt8}
    (htext : IsText (b :: (w ++ t))) (hrest : IsText t) (hw : ∀ c ∈ w, p c = true)
    (ht : ∀ c ∈ t.head?, p c = false) (hspells : Spells (kind (b :: w)) (b :: w) t) :
    Ensures (· = after (pre ++ [b]) (w ++ t)) (lexRun p kind pre.length)
      (Leaves pre (b :: (w ++ t))) := by
  refine Ensures.of_exec ?_
  rintro l rfl
  have hrun := exec_lexRun kind (htext.head b rfl) hw ht hrest.head pre
  exact ⟨_, _, hrun, b :: w, t, rfl, hspells, hrest, rfl, rfl⟩

theorem head_dropWhile {p : UInt8 → Bool} (t : Str) : ∀ b ∈ (t.dropWhile p).head?, p b = false := by
  intro b hb
  have hnot := List.head?_dropWhile_not p t
  rw [hb] at hnot
  exact Bool.eq_false_iff.mpr (by simpa using hnot)

theorem isText_dropWhile {p : UInt8 → Bool} (hp : ∀ b, p b = true → b < 0x80) {t : Str}
    (h : IsText t) : IsText (t.dropWhile p) := by
  apply IsText.after_ascii (w := t.takeWhile p)
  · rwa [List.takeWhile_append_dropWhile]
  · exact fun b hb => hp b (List.mem_takeWhile_imp hb)

theorem lexIdent_leaves {pre t : Str} {b : UInt8} (hb : isIdentStart b = true)
    (htext : IsText (b :: t)) :
    Ensures (· = after (pre ++ [b]) t) (lexIdent pre.length) (Leaves pre (b :: t)) := by
  have hident : isIdentifier (b :: t.takeWhile isIdentByte) = true := by
    rw [isIdentifier, hb, Bool.true_and, List.all_eq_true]
    exact fun c hc => List.mem_takeWhile_imp hc
  have ht : IsText t := IsText.after_ascii (w := [b]) htext (by simp [(identStart_facts b hb).2.2])
  have hrest := isText_dropWhile (fun _ => isIdentByte_lt) ht
  rw [← List.takeWhile_append_dropWhile (p := isIdentByte) (l := t)] at htext ⊢
  exact lexRun_leaves htext hrest (fun c hc => List.mem_takeWhile_imp hc) (head_dropWhile t)
    (.ident hident (head_dropWhile t))

theorem lexBareword_leaves {pre t : Str} {b : UInt8} (hb : startsBareword b = true)
    (htext : IsText (b :: t)) :
    Ensures (· = after (pre ++ [b]) t) (lexBareword pre.length) (Leaves pre (b :: t)) := by
  rw [← List.takeWhile_append_dropWhile (p := isWordByte) (l := t)] at htext ⊢
  have hrest : IsText (t.dropWhile isWordByte) := by
    apply IsText.before_ascii (w := b :: t.takeWhile isWordByte) htext
    exact fun c hc => lt_of_not_isWordByte (head_dropWhile t c hc)
  have hw : ∀ c ∈ t.takeWhile isWordByte, isWordByte c = true := fun c hc => List.mem_takeWhile_imp hc
  exact lexRun_leaves htext hrest hw (head_dropWhile t) (.bareword hb hw (head_dropWhile t))

/-- Behind `0x`. -/
theorem lexHex_leaves {pre t : Str} {b x : UInt8} (hb : isAsciiDigit b = true) (ht : IsText t) :
    Ensures (· = after (pre ++ [b] ++ [x]) t) (do
      let base := (← Call.self).pos
      advanceWhile isAsciiHexdigit
      if (← Call.self).pos = base then fail pre.length "hex literal missing digits"
      else
        match fromStrRadix (← sliceFrom base) 16 with
        | .error _ => fail pre.length "hex literal overflow"
        | .ok v => token pre.length (.int v)) (Leaves pre (b :: x :: t)) := by
  rintro l rfl
  rw [exec_bind_ok (exec_self _), exec_bind_ok (exec_advanceWhile _ _ t), exec_bind_ok (exec_self _)]
  split
  · exact @fail_good (fun _ => True) _ _ _ _ trivial
  · rename_i hne
    have hdigits : t.takeWhile isAsciiHexdigit ≠ [] := by
      intro h
      apply hne
      simp [h]
    have hhead : ∀ c ∈ (t.takeWhile isAsciiHexdigit).head?, c < 0x80 ∨ 0xC0 ≤ c :=
      fun c hc => .inl (isAsciiHexdigit_lt (List.mem_takeWhile_imp (List.mem_of_mem_head? hc)))
    have hrest := isText_dropWhile (fun _ => isAsciiHexdigit_lt) ht
    have hslice := @exec_sliceFrom_after (pre ++ [b] ++ [x]) _ _ hhead hrest.head hdigits
    have hstate : pre ++ [b] ++ [x] ++ t.takeWhile isAsciiHexdigit =
        pre ++ b :: x :: t.takeWhile isAsciiHexdigit := by simp
    have hsplit : b :: x :: t.takeWhile isAsciiHexdigit ++ t.dropWhile isAsciiHexdigit =
        b :: x :: t := by
      rw [List.cons_append, List.cons_append, List.takeWhile_append_dropWhile]
    rw [after_pos, exec_bind_ok hslice, hstate, ← hsplit]
    exact literal_leaves (fun v => .int hb) hrest _ _ _ rfl

theorem lexDecimal_leaves {pre t : Str} {b : UInt8} (hb : isAsciiDigit b = true)
    (htext : IsText (b :: t)) :
    Ensures (· = after pre (b :: t)) (do
      let base := (← Call.self).pos
      advanceWhile isAsciiDigit
      match fromStrRadix (← sliceFrom base) 10 with
      | .error _ => fail pre.length "decimal literal overflow"
      | .ok v => token pre.length (.int v)) (Leaves pre (b :: t)) := by
  rintro l rfl
  have htake : (b :: t).takeWhile isAsciiDigit = b :: t.takeWhile isAsciiDigit :=
    List.takeWhile_cons_of_pos hb
  have hsplit := List.takeWhile_append_dropWhile (p := isAsciiDigit) (l := b :: t)
  rw [htake] at hsplit
  have hrest := isText_dropWhile (fun c hc => (digit_facts c hc).2.1) htext
  have hslice := @exec_sliceFrom_after pre (b :: t.takeWhile isAsciiDigit)
    ((b :: t).dropWhile isAsciiDigit) htext.head hrest.head (List.cons_ne_nil _ _)
  have hleaves := @literal_leaves pre (b :: t.takeWhile isAsciiDigit) _ (fun v => .int hb) hrest
    (fromStrRadix (b :: t.takeWhile isAsciiDigit) 10) "decimal literal overflow"
  rw [hsplit] at hleaves
  rw [exec_bind_ok (exec_self _), exec_bind_ok (exec_advanceWhile _ _ _), htake, after_pos,
    exec_bind_ok hslice]
  exact hleaves _ rfl

theorem lexNumber_leaves {pre t : Str} {b : UInt8} (hb : isAsciiDigit b = true)
    (htext : IsText (b :: t)) :
    Ensures (· = after pre (b :: t)) (lexNumber pre.length) (Leaves pre (b :: t)) := by
  rintro l rfl
  unfold lexNumber
  rw [exec_bind_ok (exec_peek_after _ _), exec_bind_ok (exec_peek2_after _ _),
    exec_bind_ok (exec_peek2_after _ _)]
  split
  · rename_i hhex
    obtain ⟨x, t, rfl⟩ : ∃ x s, t = x :: s := by
      rcases t with _ | ⟨x, t⟩
      · simp at hhex
      · exact ⟨x, t, rfl⟩
    have hx : x < 0x80 := by
      rcases hhex.2 with h | h
      · cases h
        decide
      · cases h
        decide
    have ht : IsText t := htext.after_ascii (w := [b, x]) (by simp [(digit_facts b hb).2.1, hx])
    rw [exec_bind_ok (exec_bump_after _ _ _), exec_bind_ok (exec_bump_after _ _ _)]
    exact lexHex_leaves hb ht _ rfl
  · exact lexDecimal_leaves hb htext _ rfl

theorem lexArm_leaves {pre t : Str} {b : UInt8} (htext : IsText (b :: t)) :
    Ensures (· = after (pre ++ [b]) t) (lexArm pre.length b) (Leaves pre (b :: t)) := by
  have single : ∀ {k : TokenKind}, fixedText k = some [b] → b < 0x80 →
      Ensures (· = after (pre ++ [b]) t) (token pre.length k) (Leaves pre (b :: t)) :=
    fun hk hascii => token_leaves (.fixed hk) (htext.after_ascii (w := [b]) (by simp [hascii])) pre
  unfold lexArm
  refine Ensures.ite (fun h => ?_) fun _ => ?_
  · subst h
    exact single rfl (by decide)
  refine Ensures.ite (fun h => ?_) fun _ => ?_
  · subst h
    exact single rfl (by decide)
  refine Ensures.ite (fun h => ?_) fun _ => ?_
  · subst h
    exact lexPair_leaves rfl (by decide) htext (single rfl (by decide))
  refine Ensures.ite (fun h => ?_) fun _ => ?_
  · subst h
    exact lexPair_leaves rfl (by decide) htext (fail_good _ _)
  refine Ensures.ite (fun h => ?_) fun _ => ?_
  · subst h
    exact lexPair_leaves rfl (by decide) htext (fail_good _ _)
  refine Ensures.ite (fun h => ?_) fun _ => ?_
  · subst h
    exact lexPair_leaves rfl (by decide) htext (fail_good _ _)
  refine Ensures.ite (fun h => ?_) fun _ => ?_
  · subst h
    exact lexPair_leaves rfl (by decide) htext (single rfl (by decide))
  refine Ensures.ite (fun h => ?_) fun _ => ?_
  · subst h
    exact lexPair_leaves rfl (by decide) htext (single rfl (by decide))
  refine Ensures.ite (fun h => ?_) fun _ => ?_
  · subst h
    exact single rfl (by decide)
  refine Ensures.ite (fun hq => ?_) fun hquote => ?_
  · exact lexString_leaves (by simpa [isQuote] using hq) htext
  refine Ensures.ite (fun hdigit => ?_) fun hdigit => ?_
  · refine Ensures.bind (Q := fun _ l => l = after pre (b :: t)) (Ensures.update ?_)
      fun _ => lexNumber_leaves hdigit htext
    rintro l rfl
    simp [after]
  refine Ensures.ite (fun hident => lexIdent_leaves hident htext) fun hident => ?_
  refine Ensures.ite (fun _ => Ensures.self_bind fun _ _ => Ensures.throw _) fun hword => ?_
  apply lexBareword_leaves _ htext
  simp [startsBareword, isWordByte, isQuote, hdigit, hident, hword, not_or.mp hquote]

/-- What `next_token` does on a text: there is white space ahead and then the end, or a token. -/
def Next (pre s : Str) (tok : Token) (l : Lexer) : Prop :=
  (tok = ⟨.eof, ⟨(pre ++ s).length, (pre ++ s).length⟩⟩ ∧ (∀ b ∈ s, isAsciiWhitespace b = true) ∧
    l = after (pre ++ s) []) ∨
  ∃ gap w t, s = gap ++ (w ++ t) ∧ (∀ b ∈ gap, isAsciiWhitespace b = true) ∧
    Spells tok.kind w t ∧ IsText t ∧
    tok.span = ⟨(pre ++ gap).length, (pre ++ gap ++ w).length⟩ ∧ l = after (pre ++ gap ++ w) t

theorem nextToken_next {pre s : Str} (htext : IsText s) :
    Ensures (· = after pre s) nextToken (Next pre s) := by
  rintro l rfl
  have hsplit := List.takeWhile_append_dropWhile (p := isAsciiWhitespace) (l := s)
  have hgap : ∀ b ∈ s.takeWhile isAsciiWhitespace, isAsciiWhitespace b = true :=
    fun b hb => List.mem_takeWhile_imp hb
  rw [exec_nextToken_after]
  rcases hdrop : s.dropWhile isAsciiWhitespace with _ | ⟨b, t⟩
  · rw [hdrop, List.append_nil] at hsplit
    rw [hsplit] at hgap
    refine ⟨_, _, rfl, ?_⟩
    intro tok htok
    cases htok
    exact .inl ⟨rfl, hgap, rfl⟩
  · rw [hdrop] at hsplit
    have hrest : IsText (b :: t) := by
      rw [← hdrop]
      exact isText_dropWhile (fun c hc => isAsciiWhitespace_lt hc) htext
    obtain ⟨r, l', hexec, hr⟩ :=
      @lexArm_leaves (pre ++ s.takeWhile isAsciiWhitespace) _ _ hrest _ rfl
    refine ⟨r, l', hexec, ?_⟩
    intro tok htok
    obtain ⟨w, rest, heq, hspells, htext', hspan, hl⟩ := hr tok htok
    exact .inr ⟨_, w, rest, by rw [← heq, hsplit], hgap, hspells, htext', hspan, hl⟩

end Lexer

end ExtKtrace.TpLexer
