import ExtKtrace.TpLexer.Accepted
import ExtKtrace.TpLexer.Derived

/-!
# The grammar of filters

The parser accepts just the token sequences that the grammar derives, and returns the tree of the
derivation, so the grammar gives no sequence two trees.
-/

namespace ExtKtrace.TpLexer.Grammar
set_option autoImplicit false

open Call TpLexer.Parser RoundTrip RoundTrip.Parser Derived

/-- A signed number: signs and parentheses around a literal. -/
inductive Number : Int64 → List Token → Prop
  | int {v : Int64} {t : Token} (ht : t.kind = .int v) : Number v [t]
  | word {v : Int64} {st : Str} {t : Token} (ht : t.kind = .bareword st) (hminus : st ≠ [byte '-'])
      (hplus : st ≠ [byte '+']) (hv : parseI64LiteralText st = .ok v) : Number v [t]
  | minus {v w : Int64} {t : Token} {toks : List Token} (ht : t.kind = .bareword [byte '-'])
      (h : Number v toks) (hw : checkedNeg v = some w) : Number w (t :: toks)
  | plus {v : Int64} {t : Token} {toks : List Token} (ht : t.kind = .bareword [byte '+'])
      (h : Number v toks) : Number v (t :: toks)
  | paren {v : Int64} {o c : Token} {toks : List Token} (ho : o.kind = .lParen)
      (h : Number v toks) (hc : c.kind = .rParen) : Number v (o :: (toks ++ [c]))

inductive Level where
  | or
  | and
  | cmp

/-- Chains associate to the left, `&&` binds closer than `||`. A string comparison takes the
operand that does not start like a number, or any behind `~`. -/
inductive Derives : Level → Expr → List Token → Prop
  | or {l r : Expr} {toks toks' : List Token} {o : Token} (hl : Derives .or l toks)
      (ho : o.kind = .orOr) (hr : Derives .and r toks') :
      Derives .or (.or l r) (toks ++ o :: toks')
  | oneAnd {e : Expr} {toks : List Token} (h : Derives .and e toks) : Derives .or e toks
  | and {l r : Expr} {toks toks' : List Token} {o : Token} (hl : Derives .and l toks)
      (ho : o.kind = .andAnd) (hr : Derives .cmp r toks') :
      Derives .and (.and l r) (toks ++ o :: toks')
  | oneCmp {e : Expr} {toks : List Token} (h : Derives .cmp e toks) : Derives .and e toks
  | group {e : Expr} {toks : List Token} {o c : Token} (ho : o.kind = .lParen)
      (h : Derives .or e toks) (hc : c.kind = .rParen) :
      Derives .cmp (.group e) (o :: (toks ++ [c]))
  | masked {field : Str} {m rhs : Int64} {op : NumOp} {name amp o : Token}
      {toks toks' : List Token} (hname : name.kind = .ident field) (hamp : amp.kind = .amp)
      (hm : Number m toks) (ho : numOp o.kind = some op) (hrhs : Number rhs toks') :
      Derives .cmp (.numCmp field name.span (some m) op rhs) (name :: amp :: (toks ++ o :: toks'))
  | plain {field : Str} {rhs : Int64} {op : NumOp} {name o : Token} {toks : List Token}
      (hname : name.kind = .ident field) (ho : numOp o.kind = some op) (hrhs : Number rhs toks) :
      Derives .cmp (.numCmp field name.span none op rhs) (name :: o :: toks)
  | pattern {field pat : Str} {op : StrOp} {name o first : Token} {toks : List Token}
      (hname : name.kind = .ident field) (ho : o.kind = strOpKind op)
      (hop : op = .glob ∨ startsNumericLiteral first.kind = false)
      (hpat : Pattern first pat toks) :
      Derives .cmp (.strCmp field name.span op pat) (name :: o :: toks)

variable {p : Parser}

theorem reads_parseSignedInt (n : Nat) : Reads p (parseSignedInt n) Number := by
  induction n generalizing p with
  | zero => exact .stuck
  | succ n ih =>
    rw [parseSignedInt]
    apply Reads.peek_bind
    split
    · rename_i v hkind
      apply Reads.bump_bind
      intro p'
      exact .pure (.int hkind)
    · rename_i st hkind
      apply Reads.self_bind
      split
      · rename_i hst
        apply Reads.bump_bind
        intro p'
        apply ih.bind
        intro v toks p₂ hv
        split
        · rename_i w hw
          apply Reads.pure
          rw [List.append_nil]
          exact .minus (hst ▸ hkind) hv hw
        · exact .throw _
      rename_i hminus
      split
      · rename_i hst
        apply Reads.bump_bind
        intro p'
        apply ih.mono
        intro v toks hv
        exact .plus (hst ▸ hkind) hv
      rename_i hplus
      split
      · rename_i v hv
        apply Reads.bump_bind
        intro p'
        exact .pure (.word hkind hminus hplus hv)
      · exact .throw _
    · rename_i hkind
      apply Reads.bump_bind
      intro p'
      apply ih.bind
      intro v toks p₂ hv
      apply Reads.expect_rParen.bind
      rintro tok toks' p₃ ⟨rfl, hclose⟩
      apply Reads.pure
      rw [List.append_nil]
      exact .paren hkind hv hclose
    · exact .failHere _

/-- Behind a comparison operator without a mask. -/
theorem reads_unmasked {field : Str} {name : Token} (hname : name.kind = .ident field) (n : Nat) :
    Reads p (do
      let opTok ← bump
      let op ← Call.orPanic (numOp opTok.kind)
      let rhs ← parseSignedInt n
      return .numCmp field name.span none op rhs) fun e toks =>
        Derives .cmp e (name :: toks) := by
  apply Reads.bump_bind
  intro p₁
  apply Reads.orPanic_bind
  intro op hop
  apply (reads_parseSignedInt n).bind
  intro rhs toks p₂ hrhs
  apply Reads.pure
  rw [List.append_nil]
  exact .plain hname hop hrhs

/-- Behind `==` and `!=`, the next token decides. -/
theorem reads_equality {field : Str} {name : Token} (hname : name.kind = .ident field) (n : Nat)
    (heq : p.lookahead.kind = .eqEq ∨ p.lookahead.kind = .notEq) :
    Reads p (do
      let opTok ← bump
      if startsNumericLiteral (← peekKind) then
        let rhs ← parseSignedInt n
        let op ← Call.orPanic (numOp opTok.kind)
        return .numCmp field name.span none op rhs
      else
        let pat ← parsePatternLiteral n
        let op : StrOp := if opTok.kind == .eqEq then .eq else .ne
        return .strCmp field name.span op pat) fun e toks => Derives .cmp e (name :: toks) := by
  apply Reads.bump_bind
  intro p₁
  apply Reads.peek_bind
  split
  · apply (reads_parseSignedInt n).bind
    intro rhs toks p₂ hrhs
    apply Reads.orPanic_bind
    intro op hop
    apply Reads.pure
    rw [List.append_nil]
    exact .plain hname hop hrhs
  · rename_i hnum
    apply (Reads.parsePatternLiteral n).bind
    intro pat toks p₂ hpat
    apply Reads.pure
    rw [List.append_nil]
    refine .pattern hname ?_ (.inr (Bool.eq_false_iff.mpr hnum)) hpat
    rcases heq with h | h
    · rw [h]
      rfl
    · rw [h]
      rfl

theorem reads_parseFieldCmp (n : Nat) : Reads p (parseFieldCmp n) (Derives .cmp) := by
  apply Reads.bump_bind
  intro p₁
  apply Reads.orPanic_bind
  intro field hfield
  have hname : p.lookahead.kind = .ident field := by
    split at hfield
    · rename_i s hkind
      cases hfield
      exact hkind
    · cases hfield
  apply Reads.peek_bind
  split
  · rename_i hkind
    apply Reads.bump_bind
    intro p₂
    apply (reads_parseSignedInt n).bind
    intro m toks p₃ hm
    apply Reads.bump_bind
    intro p₄
    split
    · exact .throw _
    · rename_i op hop
      apply (reads_parseSignedInt n).bind
      intro rhs toks' p₅ hrhs
      apply Reads.pure
      rw [List.append_nil]
      exact .masked hname hkind hm hop hrhs
  · exact reads_unmasked hname n
  · exact reads_unmasked hname n
  · exact reads_unmasked hname n
  · exact reads_unmasked hname n
  · rename_i hkind
    apply Reads.bump_bind
    intro p₂
    apply (Reads.parsePatternLiteral n).bind
    intro pat toks p₃ hpat
    apply Reads.pure
    rw [List.append_nil]
    exact .pattern hname hkind (.inl rfl) hpat
  · rename_i hkind
    exact reads_equality hname n (.inl hkind)
  · rename_i hkind
    exact reads_equality hname n (.inr hkind)
  · exact .failHere _

/-- What the recursive functions read with `n` levels left; the loops start with the tree of the
tokens before them. -/
structure Sound (n : Nat) : Prop where
  parseOr : ∀ {p : Parser}, Reads p (parseOr n) (Derives .or)
  parseOrLoop : ∀ {p : Parser} {left : Expr} {before : List Token}, Derives .or left before →
    Reads p (parseOrLoop n left) fun e toks => Derives .or e (before ++ toks)
  parseAnd : ∀ {p : Parser}, Reads p (parseAnd n) (Derives .and)
  parseAndLoop : ∀ {p : Parser} {left : Expr} {before : List Token}, Derives .and left before →
    Reads p (parseAndLoop n left) fun e toks => Derives .and e (before ++ toks)
  parseCmp : ∀ {p : Parser}, Reads p (parseCmp n) (Derives .cmp)

/-- One turn of a loop over the operands of a level. -/
theorem turn {level operand : Level} {c : Parser.Method Expr} {f : Expr → Parser.Method Expr}
    {before : List Token} {join : Expr → Expr}
    (hjoin : ∀ {right : Expr} {toks : List Token}, Derives operand right toks →
      Derives level (join right) (before ++ p.lookahead :: toks))
    (hc : ∀ {p' : Parser}, Reads p' c (Derives operand))
    (hf : ∀ {p' : Parser} {left : Expr} {before : List Token}, Derives level left before →
      Reads p' (f left) fun e toks => Derives level e (before ++ toks)) :
    Reads p (bump >>= fun _ => c >>= fun right => f (join right)) fun e toks =>
      Derives level e (before ++ toks) := by
  apply Reads.bump_bind
  intro p₁
  apply hc.bind
  intro right toks p₂ hright
  apply (hf (hjoin hright)).mono
  intro e toks' he
  simpa using he

theorem sound (n : Nat) : Sound n := by
  induction n with
  | zero =>
    constructor
    · exact .stuck
    · exact fun _ => .stuck
    · exact .stuck
    · exact fun _ => .stuck
    · exact .stuck
  | succ n ih =>
    constructor
    · intro p
      rw [TpLexer.Parser.parseOr]
      exact ih.parseAnd.bind fun _ _ _ hleft => ih.parseOrLoop (.oneAnd hleft)
    · intro p left before hleft
      rw [TpLexer.Parser.parseOrLoop]
      apply Reads.peek_bind
      split
      · rename_i hkind
        exact turn (fun hright => .or hleft hkind hright) ih.parseAnd ih.parseOrLoop
      · apply Reads.pure
        rwa [List.append_nil]
    · intro p
      rw [TpLexer.Parser.parseAnd]
      exact ih.parseCmp.bind fun _ _ _ hleft => ih.parseAndLoop (.oneCmp hleft)
    · intro p left before hleft
      rw [TpLexer.Parser.parseAndLoop]
      apply Reads.peek_bind
      split
      · rename_i hkind
        exact turn (fun hright => .and hleft hkind hright) ih.parseCmp ih.parseAndLoop
      · apply Reads.pure
        rwa [List.append_nil]
    · intro p
      rw [TpLexer.Parser.parseCmp]
      apply Reads.peek_bind
      split
      · rename_i hkind
        apply Reads.bump_bind
        intro p₁
        apply ih.parseOr.bind
        intro e toks p₂ he
        apply Reads.expect_rParen.bind
        rintro c toks' p₃ ⟨rfl, hclose⟩
        exact .pure (.group hkind he hclose)
      · exact reads_parseFieldCmp n
      · exact .failHere _

theorem takes_cons {t : Token} {toks : List Token} {p' : Parser} (h : Takes p (t :: toks) p') :
    ∃ p₁, t = p.lookahead ∧ bump.exec p = some (.ok t, p₁) ∧ Takes p₁ toks p' := by
  cases h with
  | step hbump hrest => exact ⟨_, rfl, hbump, hrest⟩

theorem takes_append {toks toks' : List Token} {p' : Parser} (h : Takes p (toks ++ toks') p') :
    ∃ p₁, Takes p toks p₁ ∧ Takes p₁ toks' p' := by
  induction toks generalizing p with
  | nil => exact ⟨p, .refl p, h⟩
  | cons t toks ih =>
    obtain ⟨p₁, rfl, hbump, hrest⟩ := takes_cons h
    obtain ⟨p₂, hfirst, hsecond⟩ := ih hrest
    exact ⟨p₂, .step hbump hfirst, hsecond⟩

theorem takes_nil {p' : Parser} (h : Takes p [] p') : p' = p := by
  cases h
  rfl

theorem exec_expect {t : Token} {p' : Parser} (ht : t.kind = .rParen) (h : Takes p [t] p') :
    (expect .rParen).exec p = some (.ok t, p') := by
  obtain ⟨p₁, rfl, hbump, hrest⟩ := takes_cons h
  cases takes_nil hrest
  unfold expect
  rw [exec_bind_ok (exec_peekKind p), ht, if_pos (by rfl), hbump]

theorem Number.pos {v : Int64} {toks : List Token} (h : Number v toks) : 0 < toks.length := by
  cases h <;> exact Nat.succ_pos _

/-- Each token takes at most one level. -/
theorem exec_number {v : Int64} {toks : List Token} (h : Number v toks) {p' : Parser}
    (htakes : Takes p toks p') {n : Nat} (hn : toks.length ≤ n) :
    (parseSignedInt n).exec p = some (.ok v, p') := by
  induction h generalizing p p' n with
  | @int v t ht =>
    obtain ⟨n, rfl⟩ := Nat.exists_eq_add_of_lt (show 0 < n from hn)
    obtain ⟨p₁, rfl, hbump, hrest⟩ := takes_cons htakes
    cases takes_nil hrest
    rw [Nat.zero_add, parseSignedInt, exec_bind_ok (exec_peekKind p), ht]
    dsimp only
    rw [exec_bind_ok hbump]
    rfl
  | @word v st t ht hminus hplus hv =>
    obtain ⟨n, rfl⟩ := Nat.exists_eq_add_of_lt (show 0 < n from hn)
    obtain ⟨p₁, rfl, hbump, hrest⟩ := takes_cons htakes
    cases takes_nil hrest
    rw [Nat.zero_add, parseSignedInt, exec_bind_ok (exec_peekKind p), ht]
    dsimp only
    rw [exec_bind_ok (exec_self _), if_neg hminus, if_neg hplus, hv]
    dsimp only
    rw [exec_bind_ok hbump]
    rfl
  | @minus v w t toks ht h hw ih =>
    rw [List.length_cons] at hn
    obtain ⟨n, rfl⟩ := Nat.exists_eq_add_of_lt (show 0 < n by omega)
    obtain ⟨p₁, rfl, hbump, hrest⟩ := takes_cons htakes
    have hinner := ih hrest (n := n) (by omega)
    rw [Nat.zero_add, parseSignedInt, exec_bind_ok (exec_peekKind p), ht]
    dsimp only
    rw [exec_bind_ok (exec_self _), if_pos rfl, exec_bind_ok hbump, exec_bind_ok hinner, hw]
    rfl
  | @plus v t toks ht h ih =>
    rw [List.length_cons] at hn
    obtain ⟨n, rfl⟩ := Nat.exists_eq_add_of_lt (show 0 < n by omega)
    obtain ⟨p₁, rfl, hbump, hrest⟩ := takes_cons htakes
    rw [Nat.zero_add, parseSignedInt, exec_bind_ok (exec_peekKind p), ht]
    dsimp only
    rw [exec_bind_ok (exec_self _), if_neg (by decide), if_pos rfl, exec_bind_ok hbump]
    exact ih hrest (by omega)
  | @paren v o c toks ho h hc ih =>
    rw [List.length_cons, List.length_append] at hn
    obtain ⟨n, rfl⟩ := Nat.exists_eq_add_of_lt (show 0 < n by omega)
    obtain ⟨p₁, rfl, hbump, hrest⟩ := takes_cons htakes
    obtain ⟨p₂, hvalue, hclose⟩ := takes_append hrest
    have hinner := ih hvalue (n := n) (by omega)
    rw [Nat.zero_add, parseSignedInt, exec_bind_ok (exec_peekKind p), ho]
    dsimp only
    rw [exec_bind_ok hbump, exec_bind_ok hinner, exec_bind_ok (exec_expect hc hclose)]
    rfl

/-- A number can be told by its first token. -/
theorem Number.starts {v : Int64} {first : Token} {toks : List Token}
    (h : Number v (first :: toks)) : startsNumericLiteral first.kind = true := by
  cases h with
  | int ht | minus ht | plus ht | paren ht =>
    rw [ht]
    rfl
  | word ht _ _ hv =>
    rw [ht, startsNumericLiteral, hv]
    exact Bool.or_true _

/-- The merge ends where the barewords do. -/
theorem exec_merge {chunks : List Token} {words : List Str}
    (hwords : chunks.map Token.kind = words.map .bareword) {p' : Parser}
    (htakes : Takes p chunks p') (hend : ∀ st, p'.lookahead.kind ≠ .bareword st) {n : Nat}
    (hn : chunks.length < n) (s : Str) :
    (mergeBarewords n s).exec p = some (.ok (s ++ words.flatten), p') := by
  induction chunks generalizing p words n s with
  | nil =>
    obtain ⟨n, rfl⟩ := Nat.exists_eq_add_of_lt hn
    cases takes_nil htakes
    cases List.map_eq_nil_iff.mp hwords.symm
    rw [mergeBarewords, exec_bind_ok (exec_peekKind _)]
    split
    · rename_i st hst
      exact absurd hst (hend st)
    · simp
  | cons t chunks ih =>
    obtain ⟨n, rfl⟩ := Nat.exists_eq_add_of_lt hn
    obtain ⟨p₁, rfl, hbump, hrest⟩ := takes_cons htakes
    obtain ⟨st, words', rfl, hst, hwords'⟩ := List.map_eq_cons_iff.mp hwords.symm
    rw [mergeBarewords, exec_bind_ok (exec_peekKind p), ← hst]
    simp only
    have hlen : chunks.length < (p.lookahead :: chunks).length + n := by
      rw [List.length_cons]
      omega
    rw [exec_bind_ok hbump, ih hwords'.symm hrest hlen, List.append_assoc, List.flatten_cons]

theorem exec_pattern {first : Token} {pat : Str} {toks : List Token} (h : Pattern first pat toks)
    {p' : Parser} (htakes : Takes p toks p') (hend : ∀ st, p'.lookahead.kind ≠ .bareword st)
    {n : Nat} (hn : toks.length ≤ n) :
    first = p.lookahead ∧ (parsePatternLiteral n).exec p = some (.ok pat, p') := by
  obtain ⟨s, chunks, words, rfl, hfirst, hwords, rfl⟩ := h
  obtain ⟨p₁, rfl, hbump, hrest⟩ := takes_cons htakes
  have hmerge := exec_merge hwords hrest hend (Nat.lt_of_succ_le hn) s
  refine ⟨rfl, ?_⟩
  rw [parsePatternLiteral, exec_bind_ok (exec_peekKind p)]
  rcases hfirst with hkind | hkind | hkind
  all_goals
    rw [hkind]
    simp only
    rw [exec_bind_ok hbump, hmerge]

/-- What may follow a chain of `&&` and what may follow a comparison. -/
def FollowsAnd (k : TokenKind) : Prop := k = .orOr ∨ k = .rParen ∨ k = .eof

def FollowsCmp (k : TokenKind) : Prop := k = .andAnd ∨ FollowsAnd k

theorem FollowsCmp.not_bareword {k : TokenKind} (h : FollowsCmp k) (st : Str) :
    k ≠ .bareword st := by
  rintro rfl
  rcases h with h | h | h | h <;> cases h

theorem exec_masked {field : Str} {m rhs : Int64} {op : NumOp} {name amp o : Token}
    {toks toks' : List Token} (hname : name.kind = .ident field) (hamp : amp.kind = .amp)
    (hm : Number m toks) (ho : numOp o.kind = some op) (hrhs : Number rhs toks') {p' : Parser}
    (htakes : Takes p (name :: amp :: (toks ++ o :: toks')) p') {n : Nat}
    (hn : toks.length + toks'.length ≤ n) :
    (parseFieldCmp n).exec p = some (.ok (.numCmp field name.span (some m) op rhs), p') := by
  obtain ⟨p₁, rfl, hbump, hrest⟩ := takes_cons htakes
  obtain ⟨p₂, rfl, hbump₂, hrest⟩ := takes_cons hrest
  obtain ⟨p₃, hmask, hrest⟩ := takes_append hrest
  obtain ⟨p₄, rfl, hbump₄, hvalue⟩ := takes_cons hrest
  unfold parseFieldCmp
  rw [exec_bind_ok hbump, hname, exec_bind_ok (exec_orPanic _ _), exec_bind_ok (exec_peekKind p₁),
    hamp]
  dsimp only
  rw [exec_bind_ok hbump₂, exec_bind_ok (exec_number hm hmask (by omega)), exec_bind_ok hbump₄, ho]
  dsimp only
  rw [exec_bind_ok (exec_number hrhs hvalue (by omega))]
  rfl

theorem numOp_kinds {k : TokenKind} {op : NumOp} (h : numOp k = some op) :
    (k = .eqEq ∨ k = .notEq) ∨ k = .lt ∨ k = .le ∨ k = .gt ∨ k = .ge := by
  cases k <;> simp [numOp] at h ⊢

theorem exec_plain {field : Str} {rhs : Int64} {op : NumOp} {name o : Token} {toks : List Token}
    (hname : name.kind = .ident field) (ho : numOp o.kind = some op) (hrhs : Number rhs toks)
    {p' : Parser} (htakes : Takes p (name :: o :: toks) p') {n : Nat} (hn : toks.length ≤ n) :
    (parseFieldCmp n).exec p = some (.ok (.numCmp field name.span none op rhs), p') := by
  obtain ⟨p₁, rfl, hbump, hrest⟩ := takes_cons htakes
  obtain ⟨p₂, rfl, hbump₂, hvalue⟩ := takes_cons hrest
  obtain ⟨first, digits, rfl⟩ := List.exists_cons_of_length_pos hrhs.pos
  have hstarts := hrhs.starts
  obtain ⟨-, rfl, -, -⟩ := takes_cons hvalue
  have hnumber := exec_number hrhs hvalue hn
  unfold parseFieldCmp
  rw [exec_bind_ok hbump, hname, exec_bind_ok (exec_orPanic _ _), exec_bind_ok (exec_peekKind p₁)]
  rcases numOp_kinds ho with heq | hord
  · rcases heq with hkind | hkind
    all_goals
      rw [hkind]
      dsimp only
      rw [exec_bind_ok hbump₂, exec_bind_ok (exec_peekKind p₂), if_pos hstarts,
        exec_bind_ok hnumber, ho]
      rfl
  · rcases hord with hkind | hkind | hkind | hkind
    all_goals
      rw [hkind]
      dsimp only
      rw [exec_bind_ok hbump₂, ho, exec_bind_ok (exec_orPanic _ _), exec_bind_ok hnumber]
      rfl

theorem exec_strCmp {field pat : Str} {op : StrOp} {name o first : Token} {toks : List Token}
    (hname : name.kind = .ident field) (ho : o.kind = strOpKind op)
    (hop : op = .glob ∨ startsNumericLiteral first.kind = false) (hpat : Pattern first pat toks)
    {p' : Parser} (htakes : Takes p (name :: o :: toks) p')
    (hend : ∀ st, p'.lookahead.kind ≠ .bareword st) {n : Nat} (hn : toks.length ≤ n) :
    (parseFieldCmp n).exec p = some (.ok (.strCmp field name.span op pat), p') := by
  obtain ⟨p₁, rfl, hbump, hrest⟩ := takes_cons htakes
  obtain ⟨p₂, rfl, hbump₂, hvalue⟩ := takes_cons hrest
  obtain ⟨rfl, hread⟩ := exec_pattern hpat hvalue hend hn
  unfold parseFieldCmp
  rw [exec_bind_ok hbump, hname, exec_bind_ok (exec_orPanic _ _), exec_bind_ok (exec_peekKind p₁),
    ho]
  cases op with
  | glob =>
    dsimp only [strOpKind]
    rw [exec_bind_ok hbump₂, exec_bind_ok hread]
    rfl
  | eq | ne =>
    have hword : startsNumericLiteral p₂.lookahead.kind = false := by
      rcases hop with hglob | hword
      · cases hglob
      · exact hword
    dsimp only [strOpKind]
    rw [exec_bind_ok hbump₂, exec_bind_ok (exec_peekKind p₂), hword,
      if_neg (by exact Bool.false_ne_true), exec_bind_ok hread, ho]
    rfl

/-- With three levels for each token, `parse_cmp` returns the tree, and the loops of the other
two arrive at the end of the tokens with it. -/
def Accepts (e : Expr) (toks : List Token) : Level → Prop
  | .or => ∀ n p p', 3 * toks.length + 2 ≤ n → Takes p toks p' →
      FollowsAnd p'.lookahead.kind →
      ∃ m, (parseOr n).exec p = (parseOrLoop m e).exec p' ∧ n ≤ m + toks.length
  | .and => ∀ n p p', 3 * toks.length + 1 ≤ n → Takes p toks p' →
      FollowsCmp p'.lookahead.kind →
      ∃ m, (parseAnd n).exec p = (parseAndLoop m e).exec p' ∧ n ≤ m + toks.length
  | .cmp => ∀ n p p', 3 * toks.length ≤ n → Takes p toks p' → FollowsCmp p'.lookahead.kind →
      (parseCmp n).exec p = some (.ok e, p')

theorem exec_andLoop_stop (h : FollowsAnd p.lookahead.kind) {m : Nat} (hm : 0 < m) (e : Expr) :
    (parseAndLoop m e).exec p = some (.ok e, p) := by
  obtain ⟨m, rfl⟩ := Nat.exists_eq_add_of_lt hm
  rw [Nat.zero_add, parseAndLoop, exec_bind_ok (exec_peekKind p)]
  rcases h with h | h | h
  all_goals
    rw [h]
    rfl

theorem exec_orLoop_stop (h : p.lookahead.kind = .rParen ∨ p.lookahead.kind = .eof) {m : Nat}
    (hm : 0 < m) (e : Expr) : (parseOrLoop m e).exec p = some (.ok e, p) := by
  obtain ⟨m, rfl⟩ := Nat.exists_eq_add_of_lt hm
  rw [Nat.zero_add, parseOrLoop, exec_bind_ok (exec_peekKind p)]
  rcases h with h | h
  all_goals
    rw [h]
    rfl

theorem Derives.pos {level : Level} {e : Expr} {toks : List Token} (h : Derives level e toks) :
    0 < toks.length := by
  induction h with
  | or _ _ _ ihl _ | and _ _ _ ihl _ =>
    rw [List.length_append]
    omega
  | oneAnd _ ih | oneCmp _ ih => exact ih
  | group | masked | plain | pattern => exact Nat.succ_pos _

/-- The end of `parse_field_cmp`, one level further in. -/
theorem exec_cmp {name : Token} {field : Str} {toks : List Token} {p' : Parser} {e : Expr} {n : Nat}
    (hname : name.kind = .ident field) (htakes : Takes p (name :: toks) p') (hn : 0 < n)
    (h : (parseFieldCmp (n - 1)).exec p = some (.ok e, p')) :
    (parseCmp n).exec p = some (.ok e, p') := by
  obtain ⟨n, rfl⟩ := Nat.exists_eq_add_of_lt hn
  obtain ⟨p₁, rfl, -, -⟩ := takes_cons htakes
  rw [Nat.zero_add, Nat.add_sub_cancel] at h
  rw [Nat.zero_add, parseCmp, exec_bind_ok (exec_peekKind p), hname]
  exact h

theorem accepts {level : Level} {e : Expr} {toks : List Token} (h : Derives level e toks) :
    Accepts e toks level := by
  induction h with
  | @or l r toks toks' o hl ho hr ihl ihr =>
    intro n p p' hn htakes hend
    rw [List.length_append, List.length_cons] at hn ⊢
    obtain ⟨p₁, hleft, hrest⟩ := takes_append htakes
    obtain ⟨p₂, rfl, hbump, hright⟩ := takes_cons hrest
    obtain ⟨m, hor, hm⟩ := ihl n p p₁ (by omega) hleft (.inl ho)
    obtain ⟨m, rfl⟩ := Nat.exists_eq_add_of_lt (show 0 < m by omega)
    obtain ⟨m', hand, hm'⟩ := ihr m p₂ p' (by omega) hright (.inr hend)
    have hstop := exec_andLoop_stop hend (show 0 < m' by omega) r
    refine ⟨m, ?_, by omega⟩
    rw [hor, Nat.zero_add, parseOrLoop, exec_bind_ok (exec_peekKind p₁), ho]
    dsimp only
    rw [exec_bind_ok hbump, exec_bind_ok (hand.trans hstop)]
  | @oneAnd e toks h ih =>
    intro n p p' hn htakes hend
    have hpos := h.pos
    obtain ⟨n, rfl⟩ := Nat.exists_eq_add_of_lt (show 0 < n by omega)
    obtain ⟨m, hand, hm⟩ := ih n p p' (by omega) htakes (.inr hend)
    have hstop := exec_andLoop_stop hend (show 0 < m by omega) e
    refine ⟨n, ?_, by omega⟩
    rw [Nat.zero_add, parseOr, exec_bind_ok (hand.trans hstop)]
  | @and l r toks toks' o hl ho hr ihl ihr =>
    intro n p p' hn htakes hend
    rw [List.length_append, List.length_cons] at hn ⊢
    obtain ⟨p₁, hleft, hrest⟩ := takes_append htakes
    obtain ⟨p₂, rfl, hbump, hright⟩ := takes_cons hrest
    obtain ⟨m, hand, hm⟩ := ihl n p p₁ (by omega) hleft (.inl ho)
    obtain ⟨m, rfl⟩ := Nat.exists_eq_add_of_lt (show 0 < m by omega)
    have hcmp := ihr m p₂ p' (by omega) hright hend
    refine ⟨m, ?_, by omega⟩
    rw [hand, Nat.zero_add, parseAndLoop, exec_bind_ok (exec_peekKind p₁), ho]
    dsimp only
    rw [exec_bind_ok hbump, exec_bind_ok hcmp]
  | @oneCmp e toks h ih =>
    intro n p p' hn htakes hend
    have hpos := h.pos
    obtain ⟨n, rfl⟩ := Nat.exists_eq_add_of_lt (show 0 < n by omega)
    refine ⟨n, ?_, by omega⟩
    rw [Nat.zero_add, parseAnd, exec_bind_ok (ih n p p' (by omega) htakes hend)]
  | @group e toks o c ho h hc ih =>
    intro n p p' hn htakes hend
    rw [List.length_cons, List.length_append, List.length_singleton] at hn
    obtain ⟨n, rfl⟩ := Nat.exists_eq_add_of_lt (show 0 < n by omega)
    obtain ⟨p₁, rfl, hbump, hrest⟩ := takes_cons htakes
    obtain ⟨p₂, hinner, hclose⟩ := takes_append hrest
    have hpar : p₂.lookahead.kind = .rParen := by
      obtain ⟨p₃, rfl, -, -⟩ := takes_cons hclose
      exact hc
    obtain ⟨m, hor, hm⟩ := ih n p₁ p₂ (by omega) hinner (.inr (.inl hpar))
    have hstop := exec_orLoop_stop (.inl hpar) (show 0 < m by omega) e
    rw [Nat.zero_add, parseCmp, exec_bind_ok (exec_peekKind p), ho]
    dsimp only
    rw [exec_bind_ok hbump, exec_bind_ok (hor.trans hstop), exec_bind_ok (exec_expect hc hclose)]
    rfl
  | masked hname hamp hm ho hrhs =>
    intro n p p' hn htakes hend
    simp only [List.length_cons, List.length_append] at hn
    exact exec_cmp hname htakes (by omega) (exec_masked hname hamp hm ho hrhs htakes (by omega))
  | plain hname ho hrhs =>
    intro n p p' hn htakes hend
    simp only [List.length_cons] at hn
    exact exec_cmp hname htakes (by omega) (exec_plain hname ho hrhs htakes (by omega))
  | pattern hname ho hop hpat =>
    intro n p p' hn htakes hend
    simp only [List.length_cons] at hn
    exact exec_cmp hname htakes (by omega)
      (exec_strCmp hname ho hop hpat htakes hend.not_bareword (by omega))

/-- A parser takes the tokens that its lexer returns. -/
theorem takes_of_run {l : Lexer} {toks : List Token} (h : Spans.Run l toks .eof) :
    ∃ first l', Lexer.nextToken.exec l = some (.ok first, l') ∧
      ∃ p', Takes ⟨l', first⟩ toks p' ∧ p'.lookahead.kind = .eof := by
  generalize hend : Spans.Finish.eof = finish at h
  induction h with
  | eof hnext => exact ⟨_, _, hnext, _, .refl _, rfl⟩
  | error => cases hend
  | @token l l' tok toks finish hnext hk hrest ih =>
    obtain ⟨first, l₁, hfirst, p', htakes, heof⟩ := ih hend
    refine ⟨tok, l', hnext, p', ?_, heof⟩
    have hbump : bump.exec (⟨l', tok⟩ : Parser) = some (.ok tok, ⟨l₁, first⟩) := by
      unfold bump lexToken
      simp only [exec_bind, exec_self, exec_update, exec_focus, exec_pure, Option.bind_some, hfirst,
        Option.map_some]
    exact .step hbump htakes

/-- Each token is at least a byte long. -/
theorem length_le_of_run {toks : List Token} {finish : Spans.Finish} (pre s : Str)
    (htext : Utf8.IsText s) (h : Spans.Run (Lexer.after pre s) toks finish) :
    toks.length ≤ s.length := by
  induction toks generalizing pre s with
  | nil => exact Nat.zero_le _
  | cons tok toks ih =>
    obtain ⟨gap, w, t, rfl, -, hspells, htext', -, hrest⟩ := h.uncons htext
    have hpos := hspells.length_pos
    have hle := ih _ t htext' hrest
    simp only [List.length_cons, List.length_append]
    omega

theorem parseFilter_of_derives {input : Str} (htext : Utf8.IsText input) {toks : List Token}
    (hrun : Spans.Run (Lexer.new input) toks .eof) {e : Expr} (h : Derives .or e toks) :
    parseFilter input = some (.ok e) := by
  obtain ⟨first, l, hnext, p', htakes, heof⟩ := takes_of_run hrun
  have hlen : toks.length ≤ input.length := length_le_of_run [] input htext hrun
  have hnew : Parser.new input = some (.ok ⟨l, first⟩) := by
    unfold Parser.new
    rw [hnext]
    rfl
  have hpos := h.pos
  obtain ⟨m, hor, hm⟩ := accepts h (depthFor input) ⟨l, first⟩ p' (by unfold depthFor; omega) htakes
    (.inr (.inr heof))
  have hloop : 0 < m := by
    unfold depthFor at hm
    omega
  have hstop := exec_orLoop_stop (.inr heof) hloop e
  unfold parseFilter
  rw [hnew]
  dsimp only
  unfold parse
  rw [exec_bind_ok (hor.trans hstop), exec_bind_ok (exec_peekKind p'), heof]
  rfl

theorem Number.ne_eof {v : Int64} {toks : List Token} (h : Number v toks) :
    ∀ tok ∈ toks, tok.kind ≠ .eof := by
  induction h with
  | int ht | word ht _ _ _ =>
    rw [List.forall_mem_singleton, ht]
    simp
  | minus ht _ _ ih | plus ht _ ih =>
    rw [List.forall_mem_cons, ht]
    exact ⟨by simp, ih⟩
  | paren ho _ hc ih =>
    rw [List.forall_mem_cons, List.forall_mem_append, List.forall_mem_singleton, ho, hc]
    exact ⟨by simp, ih, by simp⟩

theorem pattern_ne_eof {first : Token} {pat : Str} {toks : List Token}
    (h : Pattern first pat toks) : ∀ tok ∈ toks, tok.kind ≠ .eof := by
  obtain ⟨s, chunks, words, rfl, hfirst, hwords, -⟩ := h
  rw [List.forall_mem_cons]
  constructor
  · rcases hfirst with h | h | h
    all_goals simp [h]
  · intro tok htok heof
    have hmem : tok.kind ∈ chunks.map Token.kind := List.mem_map_of_mem htok
    rw [hwords, heof] at hmem
    simp at hmem

theorem Derives.ne_eof {level : Level} {e : Expr} {toks : List Token} (h : Derives level e toks) :
    ∀ tok ∈ toks, tok.kind ≠ .eof := by
  induction h with
  | or _ ho _ ihl ihr | and _ ho _ ihl ihr =>
    rw [List.forall_mem_append, List.forall_mem_cons, ho]
    exact ⟨ihl, by simp, ihr⟩
  | oneAnd _ ih | oneCmp _ ih => exact ih
  | group ho _ hc ih =>
    rw [List.forall_mem_cons, List.forall_mem_append, List.forall_mem_singleton, ho, hc]
    exact ⟨by simp, ih, by simp⟩
  | masked hname hamp hm ho hrhs =>
    rw [List.forall_mem_cons, List.forall_mem_cons, List.forall_mem_append, List.forall_mem_cons,
      hname, hamp]
    refine ⟨by simp, by simp, hm.ne_eof, ?_, hrhs.ne_eof⟩
    intro heof
    simp [heof, numOp] at ho
  | plain hname ho hrhs =>
    rw [List.forall_mem_cons, List.forall_mem_cons, hname]
    refine ⟨by simp, ?_, hrhs.ne_eof⟩
    intro heof
    simp [heof, numOp] at ho
  | @pattern field pat op name o first toks hname ho hop hpat =>
    rw [List.forall_mem_cons, List.forall_mem_cons, hname, ho]
    refine ⟨by simp, ?_, pattern_ne_eof hpat⟩
    cases op <;> simp [strOpKind]

/-- `parse` comes back only where it has read everything. -/
theorem parse_reads {depth : Nat} {p p' : Parser} {e : Expr}
    (h : (parse depth).exec p = some (.ok e, p')) :
    ∃ toks, Takes p toks p' ∧ Derives .or e toks ∧ p'.lookahead.kind = .eof := by
  unfold parse at h
  rw [exec_bind] at h
  obtain ⟨⟨r, p₁⟩, hor, hnext⟩ := Option.bind_eq_some_iff.mp h
  rcases r with err | left
  · cases hnext
  · obtain ⟨toks, htakes, he⟩ := (sound depth).parseOr left p₁ hor
    dsimp only at hnext
    rw [exec_bind_ok (exec_peekKind p₁)] at hnext
    split at hnext
    · rename_i hkind
      cases hnext
      exact ⟨toks, htakes, he, hkind⟩
    · cases hnext

theorem derives_of_parseFilter {input : Str} {e : Expr} (h : parseFilter input = some (.ok e)) :
    ∃ toks, Spans.Run (Lexer.new input) toks .eof ∧ Derives .or e toks := by
  unfold parseFilter Parser.new at h
  rcases hnext : Lexer.nextToken.exec (Lexer.new input) with _ | ⟨_ | first, l⟩
  · rw [hnext] at h
    cases h
  · rw [hnext] at h
    cases h
  · rw [hnext] at h
    obtain ⟨⟨r, p'⟩, hparse, hr⟩ := Option.map_eq_some_iff.mp h
    cases hr
    obtain ⟨toks, htakes, he, heof⟩ := parse_reads hparse
    exact ⟨toks, htakes.run he.ne_eof heof hnext, he⟩

/-- On every text the parser comes back, and it returns a tree just when the grammar derives that
tree from the tokens of the whole text; so no filter has two readings, and one without a reading
is an error. -/
theorem filters_are_derived (text : Utf8.Str) :
    ∃ r, parseFilter (Utf8.encode text) = some r ∧ ∀ e, r = .ok e ↔
      ∃ toks, Spans.Run (Lexer.new (Utf8.encode text)) toks .eof ∧ Derives .or e toks := by
  obtain ⟨r, hr, -⟩ := @Accepted.parseFilter_good False _ ⟨text, rfl⟩ False.elim
  refine ⟨r, hr, ?_⟩
  intro e
  constructor
  · intro he
    rw [he] at hr
    exact derives_of_parseFilter hr
  · intro h
    obtain ⟨toks, hrun, hderives⟩ := h
    rw [parseFilter_of_derives ⟨text, rfl⟩ hrun hderives] at hr
    exact (Option.some.inj hr).symm

end ExtKtrace.TpLexer.Grammar
