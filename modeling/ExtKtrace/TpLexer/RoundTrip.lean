import ExtKtrace.TpLexer.Parser
import ExtKtrace.TpLexer.TokenText

/-!
# Parsing undoes printing

The lexer turns the printed text into the tokens of the tree, and the parser reads the tree back
from these tokens, whatever follows it.
-/

namespace ExtKtrace.TpLexer.RoundTrip
set_option autoImplicit false

open Call

def toks : Expr → List TokenKind
  | .or l r => toks l ++ .orOr :: toks r
  | .and l r => toks l ++ .andAnd :: toks r
  | .group inner => .lParen :: (toks inner ++ [.rParen])
  | .numCmp field _ none op rhs => [.ident field, numOpKind op, intKind rhs]
  | .numCmp field _ (some m) op rhs => [.ident field, .amp, intKind m, numOpKind op, intKind rhs]
  | .strCmp field _ op pat => [.ident field, strOpKind op, .string pat]

/-- The text of a tree lexes to its tokens, before any text that ends a token. -/
theorem tokensOf_print {e : Expr} (he : CanonicalShape e) {t : Str} {ks : List TokenKind}
    (hd : Delim t) (ht : TokensOf t ks) : TokensOf (print e ++ t) (toks e ++ ks) := by
  induction e generalizing t ks with
  | or l r ihl ihr =>
    have hr := ihr he.2.1 hd ht
    have hop := ((lexes_orOr _).cons (TokensOf.space hr)).space
    have hl := ihl he.1 (delim_space _) hop
    have htext : print (.or l r) ++ t =
        print l ++ (ascii " " ++ (ascii "||" ++ (ascii " " ++ (print r ++ t)))) := by
      simp [print, ascii]
    have htoks : toks (.or l r) ++ ks = toks l ++ (.orOr :: (toks r ++ ks)) := by simp [toks]
    rw [htext, htoks]
    exact hl
  | and l r ihl ihr =>
    have hr := ihr he.2.1 hd ht
    have hop := ((lexes_andAnd _).cons (TokensOf.space hr)).space
    have hl := ihl he.1 (delim_space _) hop
    have htext : print (.and l r) ++ t =
        print l ++ (ascii " " ++ (ascii "&&" ++ (ascii " " ++ (print r ++ t)))) := by
      simp [print, ascii]
    have htoks : toks (.and l r) ++ ks = toks l ++ (.andAnd :: (toks r ++ ks)) := by simp [toks]
    rw [htext, htoks]
    exact hl
  | numCmp field span mask op rhs =>
    have hrhs := ((lexes_decimal rhs hd).cons ht).space
    have hop := ((lexes_numOp op (delim_space _)).cons hrhs).space
    cases mask with
    | none =>
      have hfield := (lexes_ident he (delim_space _)).cons hop
      have htext : print (.numCmp field span none op rhs) ++ t =
          field ++ (ascii " " ++ (numOpText op ++ (ascii " " ++ (decimal rhs ++ t)))) := by
        simp [print, maskText]
      rw [htext]
      exact hfield
    | some m =>
      have hmask := ((lexes_decimal m (delim_space _)).cons hop).space
      have hamp := ((lexes_amp (delim_space _)).cons hmask).space
      have hfield := (lexes_ident he (delim_space _)).cons hamp
      have htext : print (.numCmp field span (some m) op rhs) ++ t =
          field ++ (ascii " " ++ (ascii "&" ++ (ascii " " ++ (decimal m ++
            (ascii " " ++ (numOpText op ++ (ascii " " ++ (decimal rhs ++ t)))))))) := by
        simp [print, maskText, ascii]
      rw [htext]
      exact hfield
  | strCmp field span op pat =>
    have hpat := ((lexes_quote he.2 t).cons ht).space
    have hop := ((lexes_strOp op _).cons hpat).space
    have hfield := (lexes_ident he.1 (delim_space _)).cons hop
    have htext : print (.strCmp field span op pat) ++ t =
        field ++ (ascii " " ++ (strOpText op ++ (ascii " " ++ (quote pat ++ t)))) := by
      simp [print]
    rw [htext]
    exact hfield
  | group inner ih =>
    have hclose := (lexes_rParen t).cons ht
    have hdelim : Delim (ascii ")" ++ t) := by
      intro b hb
      cases hb
      exact Or.inr rfl
    have hinner := (lexes_lParen _).cons (ih he hdelim hclose)
    have htext : print (.group inner) ++ t = ascii "(" ++ (print inner ++ (ascii ")" ++ t)) := by
      simp [print]
    have htoks : toks (.group inner) ++ ks = .lParen :: (toks inner ++ (.rParen :: ks)) := by
      simp [toks]
    rw [htext, htoks]
    exact hinner

/-- The tokens a parser has ahead, its lookahead first. -/
def Ahead (p : Parser) : List TokenKind → Prop
  | [] => p.lookahead.kind = .eof
  | k :: ks => p.lookahead.kind = k ∧ Tokens p.lexer ks

namespace Parser

open TpLexer.Parser

theorem exec_peekKind (p : Parser) : peekKind.exec p = some (.ok p.lookahead.kind, p) := rfl

theorem exec_bump {p : Parser} {k : TokenKind} {ks : List TokenKind} (h : Ahead p (k :: ks)) :
    ∃ p', bump.exec p = some (.ok p.lookahead, p') ∧ Ahead p' ks := by
  obtain ⟨_, htokens⟩ := h
  unfold bump lexToken
  simp only [exec_bind, exec_self, exec_update, exec_focus, exec_pure, Option.bind_some]
  cases htokens with
  | eof hnext =>
    rw [hnext]
    exact ⟨_, rfl, rfl⟩
  | cons hnext hks =>
    rw [hnext]
    exact ⟨_, rfl, rfl, hks⟩

theorem decimal_ne_sign {v : Int64} (hneg : v.toInt < 0) :
    decimal v ≠ [byte '-'] ∧ decimal v ≠ [byte '+'] := by
  have hdec : decimal v = byte '-' :: decimalNat v.toInt.natAbs := if_pos hneg
  obtain ⟨c, rest, hcons⟩ := decimalNat_cons v.toInt.natAbs
  rw [hdec, hcons]
  constructor
  · intro h
    cases List.tail_eq_of_cons_eq h
  · intro h
    cases List.tail_eq_of_cons_eq h

theorem exec_parseSignedInt {v : Int64} (hmin : v ≠ Int64.minValue) {p : Parser}
    {ks : List TokenKind} (h : Ahead p (intKind v :: ks)) (n : Nat) :
    ∃ p', (parseSignedInt (n + 1)).exec p = some (.ok v, p') ∧ Ahead p' ks := by
  obtain ⟨p', hbump, hahead⟩ := exec_bump h
  refine ⟨p', ?_, hahead⟩
  rw [parseSignedInt, exec_bind_ok (exec_peekKind p), h.1]
  rcases Classical.em (v.toInt < 0) with hneg | hpos
  · have hsign := decimal_ne_sign hneg
    rw [intKind, if_pos hneg]
    dsimp only
    rw [exec_bind_ok (exec_self _), if_neg hsign.1, if_neg hsign.2,
      parseI64LiteralText_decimal hmin]
    dsimp only
    rw [exec_bind_ok hbump]
    rfl
  · rw [intKind, if_neg hpos]
    simp only
    rw [exec_bind_ok hbump]
    rfl

theorem startsNumericLiteral_intKind {v : Int64} (hmin : v ≠ Int64.minValue) :
    startsNumericLiteral (intKind v) = true := by
  unfold intKind
  split
  · rename_i hneg
    rw [startsNumericLiteral, parseI64LiteralText_decimal hmin]
    exact Bool.or_true _
  · rfl

/-- What may follow a comparison or a closed group. -/
def Follow (ks : List TokenKind) : Prop :=
  ∀ k ∈ ks.head?, k = .andAnd ∨ k = .orOr ∨ k = .rParen

theorem Ahead.kind {p : Parser} {ks : List TokenKind} (h : Ahead p ks) :
    p.lookahead.kind = ks.head?.getD .eof := by
  cases ks with
  | nil => exact h
  | cons k ks => exact h.1

/-- The merge takes every bareword that is there. -/
theorem exec_mergeBarewords {bs : List Str} {ks : List TokenKind}
    (hks : ∀ s, ks.head? ≠ some (.bareword s)) {p : Parser}
    (h : Ahead p (bs.map .bareword ++ ks)) {n : Nat} (hn : bs.length < n) (s : Str) :
    ∃ p', (mergeBarewords n s).exec p = some (.ok (s ++ bs.flatten), p') ∧ Ahead p' ks := by
  induction bs generalizing p n s with
  | nil =>
    obtain ⟨n, rfl⟩ := Nat.exists_eq_add_of_lt hn
    refine ⟨p, ?_, h⟩
    rw [mergeBarewords, exec_bind_ok (exec_peekKind p), Ahead.kind h]
    rcases ks with _ | ⟨k, ks⟩
    · simp
    · split
      · rename_i st hst
        exact absurd (congrArg some hst) (hks st)
      · simp
  | cons b bs ih =>
    obtain ⟨n, rfl⟩ := Nat.exists_eq_add_of_lt hn
    obtain ⟨p₁, hbump, h₁⟩ := exec_bump h
    obtain ⟨p', hmerge, h'⟩ := ih h₁ (n := (b :: bs).length + n) (by simp; omega) (s ++ b)
    refine ⟨p', ?_, h'⟩
    rw [mergeBarewords, exec_bind_ok (exec_peekKind p), h.1]
    dsimp only
    rw [exec_bind_ok hbump, hmerge, List.append_assoc, List.flatten_cons]

/-- A token that starts a pattern, and what it stands for. -/
def PatternKind (k : TokenKind) (s : Str) : Prop := k = .string s ∨ k = .bareword s ∨ k = .ident s

theorem exec_parsePatternLiteral {k : TokenKind} {s : Str} (hk : PatternKind k s) {bs : List Str}
    {ks : List TokenKind} (hks : ∀ s, ks.head? ≠ some (.bareword s)) {p : Parser}
    (h : Ahead p (k :: (bs.map .bareword ++ ks))) {n : Nat} (hn : bs.length < n) :
    ∃ p', (parsePatternLiteral n).exec p = some (.ok (s ++ bs.flatten), p') ∧ Ahead p' ks := by
  obtain ⟨p₁, hbump, h₁⟩ := exec_bump h
  obtain ⟨p', hmerge, h'⟩ := exec_mergeBarewords hks h₁ hn s
  refine ⟨p', ?_, h'⟩
  rw [parsePatternLiteral, exec_bind_ok (exec_peekKind p), h.1]
  rcases hk with rfl | rfl | rfl
  · dsimp only
    rw [exec_bind_ok hbump, hmerge]
  · dsimp only
    rw [exec_bind_ok hbump, hmerge]
  · dsimp only
    rw [exec_bind_ok hbump, hmerge]

theorem numOp_numOpKind (op : NumOp) : numOp (numOpKind op) = some op := by
  cases op <;> rfl

/-- The start of `parse_field_cmp`: the field name is consumed. -/
theorem exec_parseFieldCmp {field : Str} {p : Parser} {ks : List TokenKind}
    (h : Ahead p (.ident field :: ks)) :
    ∃ p', bump.exec p = some (.ok ⟨.ident field, p.lookahead.span⟩, p') ∧ Ahead p' ks := by
  obtain ⟨p', hbump, hahead⟩ := exec_bump h
  refine ⟨p', ?_, hahead⟩
  rw [hbump, ← h.1]

theorem exec_parseFieldCmp_masked {field : Str} {m rhs : Int64} {op : NumOp}
    (hm : m ≠ Int64.minValue) (hrhs : rhs ≠ Int64.minValue) {p : Parser} {ks : List TokenKind}
    (h : Ahead p (.ident field :: .amp :: intKind m :: numOpKind op :: intKind rhs :: ks)) (n : Nat) :
    ∃ p', (parseFieldCmp (n + 1)).exec p =
      some (.ok (.numCmp field p.lookahead.span (some m) op rhs), p') ∧ Ahead p' ks := by
  obtain ⟨p₁, hname, h₁⟩ := exec_parseFieldCmp h
  obtain ⟨p₂, hamp, h₂⟩ := exec_bump h₁
  obtain ⟨p₃, hmask, h₃⟩ := exec_parseSignedInt hm h₂ n
  obtain ⟨p₄, hop, h₄⟩ := exec_bump h₃
  obtain ⟨p₅, hint, h₅⟩ := exec_parseSignedInt hrhs h₄ n
  refine ⟨p₅, ?_, h₅⟩
  unfold parseFieldCmp
  rw [exec_bind_ok hname, exec_bind_ok (exec_orPanic _ _), exec_bind_ok (exec_peekKind p₁), h₁.1]
  simp only
  rw [exec_bind_ok hamp, exec_bind_ok hmask, exec_bind_ok hop, h₃.1, numOp_numOpKind]
  simp only
  rw [exec_bind_ok hint]
  rfl

theorem exec_parseFieldCmp_plain {field : Str} {rhs : Int64} {op : NumOp}
    (hrhs : rhs ≠ Int64.minValue) {p : Parser} {ks : List TokenKind}
    (h : Ahead p (.ident field :: numOpKind op :: intKind rhs :: ks)) (n : Nat) :
    ∃ p', (parseFieldCmp (n + 1)).exec p =
      some (.ok (.numCmp field p.lookahead.span none op rhs), p') ∧ Ahead p' ks := by
  obtain ⟨p₁, hname, h₁⟩ := exec_parseFieldCmp h
  obtain ⟨p₂, hop, h₂⟩ := exec_bump h₁
  obtain ⟨p₃, hint, h₃⟩ := exec_parseSignedInt hrhs h₂ n
  refine ⟨p₃, ?_, h₃⟩
  have hnum := startsNumericLiteral_intKind hrhs
  have hkind := h₁.1
  unfold parseFieldCmp
  rw [exec_bind_ok hname, exec_bind_ok (exec_orPanic _ _), exec_bind_ok (exec_peekKind p₁), hkind]
  cases op with
  | eq | ne =>
    simp only [numOpKind] at hkind ⊢
    rw [exec_bind_ok hop, exec_bind_ok (exec_peekKind p₂), h₂.1, if_pos hnum, exec_bind_ok hint, hkind]
    rfl
  | lt | le | gt | ge =>
    simp only [numOpKind] at hkind ⊢
    rw [exec_bind_ok hop, hkind, exec_bind_ok (exec_orPanic _ _), exec_bind_ok hint]
    rfl

/-- Behind `~` anything is a pattern; behind the other operators, a number is not. -/
theorem exec_parseFieldCmp_pattern {field s : Str} {op : StrOp} {k : TokenKind}
    (hk : PatternKind k s) (hnum : op = .glob ∨ startsNumericLiteral k = false) {bs : List Str}
    {ks : List TokenKind} (hks : ∀ s, ks.head? ≠ some (.bareword s)) {p : Parser}
    (h : Ahead p (.ident field :: strOpKind op :: k :: (bs.map .bareword ++ ks))) {n : Nat}
    (hn : bs.length < n) :
    ∃ p', (parseFieldCmp n).exec p =
      some (.ok (.strCmp field p.lookahead.span op (s ++ bs.flatten)), p') ∧ Ahead p' ks := by
  obtain ⟨p₁, hname, h₁⟩ := exec_parseFieldCmp h
  obtain ⟨p₂, hop, h₂⟩ := exec_bump h₁
  obtain ⟨p₃, hpat, h₃⟩ := exec_parsePatternLiteral hk hks h₂ hn
  refine ⟨p₃, ?_, h₃⟩
  have hkind := h₁.1
  unfold parseFieldCmp
  rw [exec_bind_ok hname, exec_bind_ok (exec_orPanic _ _), exec_bind_ok (exec_peekKind p₁), hkind]
  cases op with
  | eq | ne =>
    have hfalse : startsNumericLiteral k = false := by
      rcases hnum with h | h
      · cases h
      · exact h
    simp only [strOpKind] at hkind ⊢
    rw [exec_bind_ok hop, exec_bind_ok (exec_peekKind p₂), h₂.1, hfalse,
      if_neg (by exact Bool.false_ne_true), exec_bind_ok hpat, hkind]
    rfl
  | glob =>
    simp only [strOpKind]
    rw [exec_bind_ok hop, exec_bind_ok hpat]
    rfl

/-- What may follow a whole chain of `||`. -/
def FollowOr (ks : List TokenKind) : Prop := ∀ k ∈ ks.head?, k = .orOr ∨ k = .rParen

theorem FollowOr.follow {ks : List TokenKind} (h : FollowOr ks) : Follow ks :=
  fun k hk => Or.inr (h k hk)

/-- `parse_cmp` reads the tree back; each token may cost three levels of recursion. -/
def CmpReads (e : Expr) : Prop :=
  ∀ n p ks, 3 * (toks e).length ≤ n → Follow ks → Ahead p (toks e ++ ks) →
    ∃ e' p', (parseCmp n).exec p = some (.ok e', p') ∧ eraseSpans e' = eraseSpans e ∧ Ahead p' ks

/-- `parse_and` arrives in its loop with the tree read back. -/
def AndReads (e : Expr) : Prop :=
  ∀ n p ks, 3 * (toks e).length + 1 ≤ n → Follow ks → Ahead p (toks e ++ ks) →
    ∃ e' p' m, (parseAnd n).exec p = (parseAndLoop m e').exec p' ∧
      eraseSpans e' = eraseSpans e ∧ Ahead p' ks ∧ n ≤ m + (toks e).length

/-- `parse_or` arrives in its loop with the tree read back. -/
def OrReads (e : Expr) : Prop :=
  ∀ n p ks, 3 * (toks e).length + 2 ≤ n → FollowOr ks → Ahead p (toks e ++ ks) →
    ∃ e' p' m, (parseOr n).exec p = (parseOrLoop m e').exec p' ∧
      eraseSpans e' = eraseSpans e ∧ Ahead p' ks ∧ n ≤ m + (toks e).length

theorem toks_length_pos (e : Expr) : 0 < (toks e).length := by
  induction e with
  | or l r ihl ihr =>
    rw [toks, List.length_append]
    omega
  | and l r ihl ihr =>
    rw [toks, List.length_append]
    omega
  | numCmp field span mask op rhs => cases mask <;> exact Nat.succ_pos _
  | strCmp field span op pat => exact Nat.succ_pos _
  | group inner ih => exact Nat.succ_pos _

theorem parseAndLoop_stop {p : Parser} {ks : List TokenKind} (h : Ahead p ks) (hf : FollowOr ks)
    {m : Nat} (hm : 0 < m) (e : Expr) : (parseAndLoop m e).exec p = some (.ok e, p) := by
  obtain ⟨m, rfl⟩ := Nat.exists_eq_succ_of_ne_zero (Nat.pos_iff_ne_zero.mp hm)
  rw [parseAndLoop, exec_bind_ok (exec_peekKind p), Ahead.kind h]
  cases ks with
  | nil => rfl
  | cons k ks => rcases hf k rfl with rfl | rfl <;> rfl

theorem parseOrLoop_stop {p : Parser} {ks : List TokenKind} (h : Ahead p ks)
    (hf : ks.head? ≠ some .orOr) {m : Nat} (hm : 0 < m) (e : Expr) :
    (parseOrLoop m e).exec p = some (.ok e, p) := by
  obtain ⟨m, rfl⟩ := Nat.exists_eq_succ_of_ne_zero (Nat.pos_iff_ne_zero.mp hm)
  rw [parseOrLoop, exec_bind_ok (exec_peekKind p), Ahead.kind h]
  split
  · rename_i heq
    cases ks with
    | nil => cases heq
    | cons k ks => exact absurd (congrArg some heq) hf
  · rfl

theorem CmpReads.andReads {e : Expr} (h : CmpReads e) : AndReads e := by
  intro n p ks hn hf hahead
  obtain ⟨n, rfl⟩ := Nat.exists_eq_add_of_lt (show 0 < n by omega)
  obtain ⟨e', p', hcmp, herase, hahead'⟩ := h n p ks (by omega) hf hahead
  have hpos := toks_length_pos e
  refine ⟨e', p', n, ?_, herase, hahead', by omega⟩
  rw [Nat.zero_add, parseAnd, exec_bind_ok hcmp]

theorem AndReads.orReads {e : Expr} (h : AndReads e) : OrReads e := by
  intro n p ks hn hf hahead
  obtain ⟨n, rfl⟩ := Nat.exists_eq_add_of_lt (show 0 < n by omega)
  obtain ⟨e', p', m, hand, herase, hahead', hm⟩ := h n p ks (by omega) hf.follow hahead
  have hpos := toks_length_pos e
  have hstop := parseAndLoop_stop hahead' hf (show 0 < m by omega) e'
  refine ⟨e', p', n, ?_, herase, hahead', by omega⟩
  rw [Nat.zero_add, parseOr, exec_bind_ok (hand.trans hstop)]

/-- One more operand of a chain of `&&`. -/
theorem AndReads.and {l r : Expr} (hl : AndReads l) (hr : CmpReads r) : AndReads (.and l r) := by
  intro n p ks hn hf hahead
  have hlen : (toks (.and l r)).length = (toks l).length + (toks r).length + 1 := by
    simp [toks]
    omega
  have htoks : toks (.and l r) ++ ks = toks l ++ (.andAnd :: (toks r ++ ks)) := by simp [toks]
  rw [htoks] at hahead
  obtain ⟨l', p₁, m, hand, hel, h₁, hm⟩ := hl n p _ (by omega)
    (by intro k hk; cases hk; exact Or.inl rfl) hahead
  obtain ⟨m, rfl⟩ := Nat.exists_eq_add_of_lt (show 0 < m by omega)
  obtain ⟨p₂, hbump, h₂⟩ := exec_bump h₁
  obtain ⟨r', p₃, hcmp, her, h₃⟩ := hr m p₂ ks (by omega) hf h₂
  refine ⟨.and l' r', p₃, m, ?_, by simp [eraseSpans, hel, her], h₃, by omega⟩
  rw [hand, Nat.zero_add, parseAndLoop, exec_bind_ok (exec_peekKind p₁), h₁.1]
  simp only
  rw [exec_bind_ok hbump, exec_bind_ok hcmp]

/-- One more operand of a chain of `||`. -/
theorem OrReads.or {l r : Expr} (hl : OrReads l) (hr : AndReads r) : OrReads (.or l r) := by
  intro n p ks hn hf hahead
  have hlen : (toks (.or l r)).length = (toks l).length + (toks r).length + 1 := by
    simp [toks]
    omega
  have htoks : toks (.or l r) ++ ks = toks l ++ (.orOr :: (toks r ++ ks)) := by simp [toks]
  rw [htoks] at hahead
  obtain ⟨l', p₁, m, hor, hel, h₁, hm⟩ := hl n p _ (by omega)
    (by intro k hk; cases hk; exact Or.inl rfl) hahead
  obtain ⟨m, rfl⟩ := Nat.exists_eq_add_of_lt (show 0 < m by omega)
  obtain ⟨p₂, hbump, h₂⟩ := exec_bump h₁
  obtain ⟨r', p₃, m', hand, her, h₃, hm'⟩ := hr m p₂ ks (by omega) hf.follow h₂
  have hstop := parseAndLoop_stop h₃ hf (show 0 < m' by omega) r'
  refine ⟨.or l' r', p₃, m, ?_, by simp [eraseSpans, hel, her], h₃, by omega⟩
  rw [hor, Nat.zero_add, parseOrLoop, exec_bind_ok (exec_peekKind p₁), h₁.1]
  simp only
  rw [exec_bind_ok hbump, exec_bind_ok (hand.trans hstop)]

theorem OrReads.group {e : Expr} (h : OrReads e) : CmpReads (.group e) := by
  intro n p ks hn hf hahead
  have hlen : (toks (.group e)).length = (toks e).length + 2 := by simp [toks]
  have htoks : toks (.group e) ++ ks = .lParen :: (toks e ++ (.rParen :: ks)) := by simp [toks]
  rw [htoks] at hahead
  obtain ⟨n, rfl⟩ := Nat.exists_eq_add_of_lt (show 0 < n by omega)
  obtain ⟨p₁, hbump, h₁⟩ := exec_bump hahead
  obtain ⟨e', p₂, m, hor, herase, h₂, hm⟩ := h n p₁ _ (by omega)
    (by intro k hk; cases hk; exact Or.inr rfl) h₁
  have hstop := parseOrLoop_stop h₂ (by simp) (show 0 < m by omega) e'
  obtain ⟨p₃, hclose, h₃⟩ := exec_bump h₂
  refine ⟨.group e', p₃, ?_, by simp [eraseSpans, herase], h₃⟩
  rw [Nat.zero_add, parseCmp, exec_bind_ok (exec_peekKind p), hahead.1]
  simp only
  rw [exec_bind_ok hbump, exec_bind_ok (hor.trans hstop)]
  unfold expect
  rw [exec_bind, exec_bind_ok (exec_peekKind p₂), h₂.1, if_pos (by rfl), hclose]
  rfl

theorem parseCmp_ident {field : Str} {p : Parser} {ks : List TokenKind}
    (h : Ahead p (.ident field :: ks)) (n : Nat) :
    (parseCmp (n + 1)).exec p = (parseFieldCmp n).exec p := by
  rw [parseCmp, exec_bind_ok (exec_peekKind p), h.1]

theorem cmpReads_numCmp (field : Str) (span : Span) {mask : Option Int64} (op : NumOp) {rhs : Int64}
    (hmin : NoMinLiteral (.numCmp field span mask op rhs)) :
    CmpReads (.numCmp field span mask op rhs) := by
  intro n p ks hn hf hahead
  cases mask with
  | none =>
    obtain ⟨n, rfl⟩ := Nat.exists_eq_add_of_le (show 2 ≤ n by simp [toks] at hn; omega)
    obtain ⟨p', hparse, h⟩ := exec_parseFieldCmp_plain hmin.2 hahead n
    refine ⟨.numCmp field p.lookahead.span none op rhs, p', ?_, rfl, h⟩
    rw [show 2 + n = n + 1 + 1 by omega, parseCmp_ident hahead, hparse]
  | some m =>
    obtain ⟨n, rfl⟩ := Nat.exists_eq_add_of_le (show 2 ≤ n by simp [toks] at hn; omega)
    have hm : m ≠ Int64.minValue := fun h => hmin.1 (congrArg some h)
    obtain ⟨p', hparse, h⟩ := exec_parseFieldCmp_masked hm hmin.2 hahead n
    refine ⟨.numCmp field p.lookahead.span (some m) op rhs, p', ?_, rfl, h⟩
    rw [show 2 + n = n + 1 + 1 by omega, parseCmp_ident hahead, hparse]

theorem Follow.not_bareword {ks : List TokenKind} (h : Follow ks) (s : Str) :
    ks.head? ≠ some (.bareword s) := by
  intro hhead
  rcases h _ hhead with h | h | h <;> cases h

theorem cmpReads_strCmp (field : Str) (span : Span) (op : StrOp) (pat : Str) :
    CmpReads (.strCmp field span op pat) := by
  intro n p ks hn hf hahead
  obtain ⟨n, rfl⟩ := Nat.exists_eq_add_of_le (show 2 ≤ n by simp [toks] at hn; omega)
  obtain ⟨p', hparse, h⟩ := @exec_parseFieldCmp_pattern _ _ _ _ (.inl rfl) (.inr rfl) [] _
    hf.not_bareword _ hahead _ (Nat.succ_pos n)
  rw [List.flatten_nil, List.append_nil] at hparse
  refine ⟨.strCmp field p.lookahead.span op pat, p', ?_, rfl, h⟩
  rw [show 2 + n = n + 1 + 1 by omega, parseCmp_ident hahead, hparse]

/-- Every canonical tree is read back by the level of the grammar it stands on. -/
theorem reads_canonical {e : Expr} (hs : CanonicalShape e) (hm : NoMinLiteral e) :
    OrReads e ∧ (isOr e = false → AndReads e) ∧
      (isOr e = false → isAnd e = false → CmpReads e) := by
  have of_cmp : ∀ {e : Expr}, CmpReads e → OrReads e ∧ (isOr e = false → AndReads e) ∧
      (isOr e = false → isAnd e = false → CmpReads e) :=
    fun h => ⟨h.andReads.orReads, fun _ => h.andReads, fun _ _ => h⟩
  induction e with
  | or l r ihl ihr =>
    obtain ⟨hl, hr, hor⟩ := hs
    refine ⟨(ihl hl hm.1).1.or ((ihr hr hm.2).2.1 hor), ?_, ?_⟩
    · intro h
      cases h
    · intro h
      cases h
  | and l r ihl ihr =>
    obtain ⟨hl, hr, horl, horr, handr⟩ := hs
    have hand := ((ihl hl hm.1).2.1 horl).and ((ihr hr hm.2).2.2 horr handr)
    refine ⟨hand.orReads, fun _ => hand, ?_⟩
    intro _ h
    cases h
  | numCmp field span mask op rhs => exact of_cmp (cmpReads_numCmp field span op hm)
  | strCmp field span op pat => exact of_cmp (cmpReads_strCmp field span op pat)
  | group inner ih => exact of_cmp (ih hs hm).1.group

theorem decimal_length_pos (v : Int64) : 0 < (decimal v).length := by
  obtain ⟨c, rest, hcons⟩ := decimalNat_cons v.toInt.natAbs
  unfold decimal
  split <;> simp [hcons]

theorem toks_length_le (e : Expr) (hs : CanonicalShape e) : (toks e).length ≤ (print e).length := by
  induction e with
  | or l r ihl ihr =>
    have hl := ihl hs.1
    have hr := ihr hs.2.1
    simp [toks, print, ascii]
    omega
  | and l r ihl ihr =>
    have hl := ihl hs.1
    have hr := ihr hs.2.1
    simp [toks, print, ascii]
    omega
  | numCmp field span mask op rhs =>
    have hfield : 0 < field.length := by
      rcases field with _ | ⟨c, field⟩
      · cases hs
      · exact Nat.succ_pos _
    have hop : 0 < (numOpText op).length := by cases op <;> decide
    have hrhs := decimal_length_pos rhs
    cases mask with
    | none =>
      simp [toks, print, maskText, ascii]
      omega
    | some m =>
      have hmask := decimal_length_pos m
      simp [toks, print, maskText, ascii]
      omega
  | strCmp field span op pat =>
    simp [toks, print, quote, ascii]
    omega
  | group inner ih =>
    have h := ih hs
    simp [toks, print, ascii]
    omega

/-- A comparison that is all there is. -/
theorem parseOr_of_cmp {p p' : Parser} {e : Expr} {n : Nat}
    (hcmp : (parseCmp n).exec p = some (.ok e, p')) (hend : Ahead p' []) (hn : 0 < n) :
    (parseOr (n + 2)).exec p = (parseOrLoop (n + 1) e).exec p' := by
  rw [parseOr, parseAnd, exec_bind_ok ((exec_bind_ok hcmp).trans
    (parseAndLoop_stop hend (by intro k hk; cases hk) hn e))]

/-- A text whose tokens `parse_or` takes up to the last one is a filter. -/
theorem parseFilter_of_or {input : Str} {ks : List TokenKind} {P : Expr → Prop}
    (htokens : Tokens (Lexer.new input) ks) (hne : ks ≠ [])
    (hor : ∀ p, Ahead p ks → ∃ e p' m,
      (parseOr (depthFor input)).exec p = (parseOrLoop m e).exec p' ∧ P e ∧ Ahead p' [] ∧ 0 < m) :
    ∃ e, parseFilter input = some (.ok e) ∧ P e := by
  cases htokens with
  | eof _ => exact absurd rfl hne
  | @cons _ l' k span ks hnext hrest =>
    have hnew : Parser.new input = some (.ok ⟨l', ⟨k, span⟩⟩) := by
      unfold Parser.new
      rw [hnext]
      rfl
    obtain ⟨e, p', m, hread, he, hend, hm⟩ := hor ⟨l', ⟨k, span⟩⟩ ⟨rfl, hrest⟩
    have hstop := parseOrLoop_stop hend (by simp) hm e
    refine ⟨e, ?_, he⟩
    unfold parseFilter
    rw [hnew]
    simp only
    unfold parse
    rw [exec_bind_ok (hread.trans hstop), exec_bind_ok (exec_peekKind p'), hend]
    rfl

/-- Parsing undoes printing. -/
theorem parseFilter_print {e : Expr} (he : Canonical e) :
    ∃ e', parseFilter (print e) = some (.ok e') ∧ eraseSpans e' = eraseSpans e := by
  have hdelim : Delim [] := by
    intro b hb
    cases hb
  have htokens := tokensOf_print he.1 hdelim tokensOf_nil []
  rw [List.append_nil, List.append_nil] at htokens
  have hlen := toks_length_le e he.1
  have hpos := toks_length_pos e
  apply parseFilter_of_or htokens (List.ne_nil_of_length_pos hpos)
  intro p hahead
  rw [← List.append_nil (toks e)] at hahead
  obtain ⟨e', p', m, hor, herase, hend, hm⟩ := (reads_canonical he.1 he.2).1
    (depthFor (print e)) p [] (by unfold depthFor; omega) (by intro k hk; cases hk) hahead
  exact ⟨e', p', m, hor, herase, hend, by unfold depthFor at hm; omega⟩

end Parser

end ExtKtrace.TpLexer.RoundTrip
