import ExtKtrace.TpLexer.RoundTrip
import ExtKtrace.TpLexer.Spans

/-!
# What the parser has read

A value that a call of the parser returns depends on just the tokens it has consumed for it.
-/

namespace ExtKtrace.TpLexer.Derived
set_option autoImplicit false

open Call TpLexer.Parser RoundTrip RoundTrip.Parser

/-- The parser consumes the tokens, its lookahead first. -/
inductive Takes : Parser → List Token → Parser → Prop
  | refl (p : Parser) : Takes p [] p
  | step {p p' p'' : Parser} {toks : List Token}
      (h : bump.exec p = some (.ok p.lookahead, p')) (hrest : Takes p' toks p'') :
      Takes p (p.lookahead :: toks) p''

theorem Takes.trans {p p' p'' : Parser} {toks toks' : List Token} (h : Takes p toks p')
    (h' : Takes p' toks' p'') : Takes p (toks ++ toks') p'' := by
  induction h with
  | refl => exact h'
  | step hbump _ ih => exact .step hbump (ih h')

/-- Where the call returns a value, `Q` holds of it and of the tokens consumed for it. -/
def Reads {α : Type} (p : Parser) (c : Parser.Method α) (Q : α → List Token → Prop) : Prop :=
  ∀ a p', c.exec p = some (.ok a, p') → ∃ toks, Takes p toks p' ∧ Q a toks

namespace Reads
variable {α β : Type} {p : Parser} {Q R : α → List Token → Prop} {T : β → List Token → Prop}

theorem mono {c : Parser.Method α} (h : Reads p c Q) (hQ : ∀ a toks, Q a toks → R a toks) :
    Reads p c R := by
  intro a p' hexec
  obtain ⟨toks, htakes, hq⟩ := h a p' hexec
  exact ⟨toks, htakes, hQ a toks hq⟩

theorem pure {a : α} (h : Q a []) : Reads p (pure a) Q := by
  intro a' p' hexec
  cases hexec
  exact ⟨[], .refl p, h⟩

theorem throw (e : ParseError) : Reads p (throw e) Q := by
  intro a p' hexec
  cases hexec

theorem stuck : Reads p Call.stuck Q := by
  intro a p' hexec
  cases hexec

theorem failHere (message : Message) : Reads p (failHere message) Q := by
  intro a p' hexec
  cases hexec

theorem bind {c : Parser.Method α} {f : α → Parser.Method β} (hc : Reads p c Q)
    (hf : ∀ a toks p', Q a toks → Reads p' (f a) fun b toks' => T b (toks ++ toks')) :
    Reads p (c >>= f) T := by
  intro b p' hexec
  rw [exec_bind] at hexec
  obtain ⟨⟨r, p₁⟩, hfirst, hnext⟩ := Option.bind_eq_some_iff.mp hexec
  rcases r with e | a
  · cases hnext
  · obtain ⟨toks, htakes, hq⟩ := hc a p₁ hfirst
    obtain ⟨toks', htakes', ht⟩ := hf a toks p₁ hq b p' hnext
    exact ⟨toks ++ toks', htakes.trans htakes', ht⟩

theorem self_bind {f : Parser → Parser.Method β} (h : Reads p (f p) T) :
    Reads p (Call.self >>= f) T := by
  intro b p' hexec
  rw [exec_bind_ok (exec_self p)] at hexec
  exact h b p' hexec

theorem peek_bind {f : TokenKind → Parser.Method β} (h : Reads p (f p.lookahead.kind) T) :
    Reads p (peekKind >>= f) T := by
  intro b p' hexec
  rw [exec_bind_ok (exec_peekKind p)] at hexec
  exact h b p' hexec

theorem orPanic_bind {r : Option α} {f : α → Parser.Method β}
    (h : ∀ a, r = some a → Reads p (f a) T) : Reads p (Call.orPanic r >>= f) T := by
  intro b p' hexec
  rcases r with _ | a
  · cases hexec
  · exact h a rfl b p' hexec

/-- Consuming the lookahead, whatever it is. -/
theorem bump : Reads p bump fun tok toks => tok = p.lookahead ∧ toks = [tok] := by
  intro tok p' hexec
  have htok : tok = p.lookahead := by
    unfold TpLexer.Parser.bump at hexec
    rw [exec_bind_ok (exec_self p), exec_bind_ok (exec_update _ _), exec_bind] at hexec
    obtain ⟨⟨r, p₁⟩, -, hnext⟩ := Option.bind_eq_some_iff.mp hexec
    rcases r with e | t
    · cases hnext
    · cases hnext
      rfl
  subst htok
  exact ⟨[p.lookahead], .step hexec (.refl p'), rfl, rfl⟩

theorem bump_bind {f : Token → Parser.Method β}
    (h : ∀ p', Reads p' (f p.lookahead) fun b toks => T b (p.lookahead :: toks)) :
    Reads p (TpLexer.Parser.bump >>= f) T := by
  refine bump.bind ?_
  rintro tok toks p' ⟨rfl, rfl⟩
  exact h p'

end Reads

/-- The first token of a pattern, behind an operator that takes one. -/
def Site (op first : Token) : Prop :=
  (op.kind = .tilde ∨
    (op.kind = .eqEq ∨ op.kind = .notEq) ∧ startsNumericLiteral first.kind = false) ∧
      ∃ s, PatternKind first.kind s

/-- What a pattern stands for, and the tokens that it is. -/
def Pattern (first : Token) (pat : Str) (toks : List Token) : Prop :=
  ∃ (s : Str) (chunks : List Token) (words : List Str), toks = first :: chunks ∧
    PatternKind first.kind s ∧ chunks.map Token.kind = words.map .bareword ∧
      pat = s ++ words.flatten

namespace Reads
variable {p : Parser}

theorem expect_rParen :
    Reads p (expect .rParen) fun tok toks => toks = [tok] ∧ tok.kind = .rParen := by
  apply peek_bind
  split
  · rename_i hkind
    apply bump.mono
    intro tok toks h
    obtain ⟨rfl, rfl⟩ := h
    refine ⟨rfl, ?_⟩
    cases hlook : p.lookahead.kind <;> rw [hlook] at hkind <;> cases hkind
  · exact failHere _

theorem mergeBarewords (n : Nat) (s : Str) :
    Reads p (mergeBarewords n s) fun s' toks => ∃ words : List Str,
      toks.map Token.kind = words.map .bareword ∧ s' = s ++ words.flatten := by
  induction n generalizing p s with
  | zero => exact stuck
  | succ n ih =>
    rw [TpLexer.Parser.mergeBarewords]
    apply peek_bind
    split
    · rename_i st hkind
      apply bump_bind
      intro p'
      apply (ih (s ++ st)).mono
      intro s' toks h
      obtain ⟨words, hwords, rfl⟩ := h
      refine ⟨st :: words, ?_, by simp⟩
      rw [List.map_cons, List.map_cons, hkind, hwords]
    · exact pure ⟨[], rfl, by simp⟩

theorem parsePatternLiteral (n : Nat) :
    Reads p (parsePatternLiteral n) (Pattern p.lookahead) := by
  have merged : ∀ {s : Str}, PatternKind p.lookahead.kind s →
      Reads p (TpLexer.Parser.bump >>= fun _ => TpLexer.Parser.mergeBarewords n s)
        (Pattern p.lookahead) := by
    intro s hs
    apply bump_bind
    intro p'
    apply (mergeBarewords n s).mono
    intro pat toks h
    obtain ⟨words, hwords, rfl⟩ := h
    exact ⟨s, toks, words, rfl, hs, hwords, rfl⟩
  apply peek_bind
  split
  · rename_i st hkind
    exact merged (.inl hkind)
  · rename_i st hkind
    exact merged (.inr (.inl hkind))
  · rename_i st hkind
    exact merged (.inr (.inr hkind))
  · exact failHere _

end Reads

/-- The tokens that a parser consumes are those that its lexer returns. -/
theorem Takes.run {p p' : Parser} {toks : List Token} (h : Takes p toks p')
    (htoks : ∀ tok ∈ toks, tok.kind ≠ .eof) (heof : p'.lookahead.kind = .eof) {l : Lexer}
    (hnext : Lexer.nextToken.exec l = some (.ok p.lookahead, p.lexer)) :
    Spans.Run l toks .eof := by
  induction h generalizing l with
  | refl p =>
    have hlook : p.lookahead = ⟨.eof, p.lookahead.span⟩ := by rw [← heof]
    rw [hlook] at hnext
    exact .eof hnext
  | @step p p' p'' toks hbump hrest ih =>
    obtain ⟨hfirst, hothers⟩ := List.forall_mem_cons.mp htoks
    apply Spans.Run.token hnext hfirst
    apply ih hothers heof
    unfold TpLexer.Parser.bump lexToken at hbump
    simp only [exec_bind, exec_self, exec_update, exec_focus, exec_pure, Option.bind_some] at hbump
    rcases hlex : Lexer.nextToken.exec p.lexer with _ | ⟨_ | t, l'⟩
    · rw [hlex] at hbump
      cases hbump
    · rw [hlex] at hbump
      cases hbump
    · rw [hlex] at hbump
      cases hbump
      rfl

end ExtKtrace.TpLexer.Derived
