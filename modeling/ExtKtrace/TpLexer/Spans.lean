import ExtKtrace.TpLexer.Spelling

/-!
# The spans of a text

Token after token the lexer gets through every text, and leaves out nothing but white space.
-/

namespace ExtKtrace.TpLexer.Spans
set_option autoImplicit false

open Lexer Utf8

inductive Finish where
  | eof
  | error (e : ParseError)

/-- One call of `next_token` after the other, up to the end of the input or an error. -/
inductive Run : Lexer → List Token → Finish → Prop
  | eof {l l' : Lexer} {span : Span} (h : nextToken.exec l = some (.ok ⟨.eof, span⟩, l')) :
      Run l [] .eof
  | error {l l' : Lexer} {e : ParseError} (h : nextToken.exec l = some (.error e, l')) :
      Run l [] (.error e)
  | token {l l' : Lexer} {tok : Token} {toks : List Token} {finish : Finish}
      (h : nextToken.exec l = some (.ok tok, l')) (hk : tok.kind ≠ .eof)
      (hrest : Run l' toks finish) : Run l (tok :: toks) finish

/-- From `start` on, the tokens stand in the input one behind the other, and every byte that is in
none of them is white space; behind an error, only the bytes in front of the last one count. -/
structure Lossless (input : Str) (start : Nat) (toks : List Token) (finish : Finish) : Prop where
  behind : ∀ tok ∈ toks, start ≤ tok.span.start
  nonempty : ∀ tok ∈ toks, tok.span.start < tok.span.stop
  inside : ∀ tok ∈ toks, tok.span.stop ≤ input.length
  ordered : toks.Pairwise fun tok tok' => tok.span.stop ≤ tok'.span.start
  covered : ∀ i b, start ≤ i → input[i]? = some b →
    (∃ tok ∈ toks, tok.span.start ≤ i ∧ i < tok.span.stop) ∨ isAsciiWhitespace b = true ∨
      finish ≠ .eof ∧ ∀ tok ∈ toks, tok.span.stop ≤ i

theorem mem_of_between {front mid rest : Str} {i : Nat} {b : UInt8} (hi : front.length ≤ i)
    (hi' : i < (front ++ mid).length) (hb : (front ++ (mid ++ rest))[i]? = some b) : b ∈ mid := by
  rw [List.length_append] at hi'
  rw [List.getElem?_append_right hi, List.getElem?_append_left (by omega)] at hb
  exact List.mem_of_getElem? hb

theorem Lossless.eof {pre s : Str} (hs : ∀ b ∈ s, isAsciiWhitespace b = true) :
    Lossless (pre ++ s) pre.length [] .eof where
  behind := by simp
  nonempty := by simp
  inside := by simp
  ordered := .nil
  covered := by
    intro i b hi hb
    rw [List.getElem?_append_right hi] at hb
    exact .inr (.inl (hs b (List.mem_of_getElem? hb)))

theorem Lossless.error (input : Str) (start : Nat) (e : ParseError) :
    Lossless input start [] (.error e) where
  behind := by simp
  nonempty := by simp
  inside := by simp
  ordered := .nil
  covered := fun _ _ _ _ => .inr (.inr ⟨Finish.noConfusion, by simp⟩)

theorem Lossless.token {pre gap w t : Str} {tok : Token} {toks : List Token} {finish : Finish}
    (hgap : ∀ b ∈ gap, isAsciiWhitespace b = true) (hw : 0 < w.length)
    (hspan : tok.span = ⟨(pre ++ gap).length, (pre ++ gap ++ w).length⟩)
    (h : Lossless (pre ++ gap ++ w ++ t) (pre ++ gap ++ w).length toks finish) :
    Lossless (pre ++ (gap ++ (w ++ t))) pre.length (tok :: toks) finish := by
  have hinput : pre ++ (gap ++ (w ++ t)) = pre ++ gap ++ w ++ t := by simp
  have hstart : tok.span.start = (pre ++ gap).length := congrArg Span.start hspan
  have hstop : tok.span.stop = (pre ++ gap ++ w).length := congrArg Span.stop hspan
  have hlater : ∀ tok' ∈ toks, tok.span.stop ≤ tok'.span.start := by
    rw [hstop]
    exact h.behind
  have hlen : pre.length ≤ (pre ++ gap).length ∧
      (pre ++ gap ++ w).length = (pre ++ gap).length + w.length :=
    ⟨by simp, List.length_append⟩
  constructor
  · rw [List.forall_mem_cons]
    refine ⟨by omega, ?_⟩
    intro tok' htok'
    have := hlater tok' htok'
    omega
  · rw [List.forall_mem_cons]
    exact ⟨by omega, h.nonempty⟩
  · rw [List.forall_mem_cons, hinput]
    refine ⟨?_, h.inside⟩
    have hlen' : (pre ++ gap ++ w ++ t).length = (pre ++ gap ++ w).length + t.length :=
      List.length_append
    omega
  · exact List.pairwise_cons.mpr ⟨hlater, h.ordered⟩
  · intro i b hi hb
    rcases Nat.lt_or_ge i (pre ++ gap).length with hbefore | hbefore
    · exact .inr (.inl (hgap b (mem_of_between hi hbefore hb)))
    rcases Nat.lt_or_ge i (pre ++ gap ++ w).length with hin | hbehind
    · exact .inl ⟨tok, List.mem_cons_self, by omega, by omega⟩
    · rw [hinput] at hb
      rcases h.covered i b hbehind hb with ⟨tok', htok', hi'⟩ | hws | ⟨hfinish, hall⟩
      · exact .inl ⟨tok', List.mem_cons_of_mem _ htok', hi'⟩
      · exact .inr (.inl hws)
      · refine .inr (.inr ⟨hfinish, ?_⟩)
        rw [List.forall_mem_cons]
        exact ⟨by omega, hall⟩

/-- The first token of a run, behind white space, and the run behind it. -/
theorem Run.uncons {pre s : Str} (htext : IsText s) {tok : Token} {toks : List Token}
    {finish : Finish} (h : Run (after pre s) (tok :: toks) finish) :
    ∃ gap w t, s = gap ++ (w ++ t) ∧ (∀ b ∈ gap, isAsciiWhitespace b = true) ∧
      Spells tok.kind w t ∧ IsText t ∧
      tok.span = ⟨(pre ++ gap).length, (pre ++ gap ++ w).length⟩ ∧
      Run (after (pre ++ gap ++ w) t) toks finish := by
  cases h with
  | token h hk hrest =>
    obtain ⟨r, l', hexec, hr⟩ := nextToken_next htext _ rfl
    rw [h] at hexec
    cases hexec
    rcases hr _ rfl with ⟨rfl, -⟩ | ⟨gap, w, t, hs, hgap, hspells, htext', hspan, rfl⟩
    · exact absurd rfl hk
    · exact ⟨gap, w, t, hs, hgap, hspells, htext', hspan, hrest⟩

theorem Run.blank {pre s : Str} (htext : IsText s) (h : Run (after pre s) [] .eof) :
    ∀ b ∈ s, isAsciiWhitespace b = true := by
  cases h with
  | eof h =>
    obtain ⟨r, l', hexec, hr⟩ := nextToken_next htext _ rfl
    rw [h] at hexec
    cases hexec
    rcases hr _ rfl with ⟨-, hws, -⟩ | ⟨gap, w, t, -, -, hspells, -⟩
    · exact hws
    · exact absurd rfl hspells.ne_eof

theorem lossless_of_run {pre s : Str} (htext : IsText s) {toks : List Token} {finish : Finish}
    (h : Run (after pre s) toks finish) : Lossless (pre ++ s) pre.length toks finish := by
  induction toks generalizing pre s with
  | nil =>
    rcases finish with _ | e
    · exact .eof (h.blank htext)
    · exact .error _ _ _
  | cons tok toks ih =>
    obtain ⟨gap, w, t, rfl, hgap, hspells, htext', hspan, hrest⟩ := h.uncons htext
    exact .token hgap hspells.length_pos hspan (ih htext' hrest)

/-- Every token takes a byte of what is ahead. -/
theorem exists_run (n : Nat) {pre s : Str} (hn : s.length < n) (htext : IsText s) :
    ∃ toks finish, Run (after pre s) toks finish := by
  induction n generalizing pre s with
  | zero => exact absurd hn (Nat.not_lt_zero _)
  | succ n ih =>
    obtain ⟨r, l', hexec, hr⟩ := @nextToken_next pre _ htext _ rfl
    rcases r with e | tok
    · exact ⟨[], .error e, .error hexec⟩
    rcases hr tok rfl with ⟨rfl, -⟩ | ⟨gap, w, t, rfl, -, hspells, htext', -, rfl⟩
    · exact ⟨[], .eof, .eof hexec⟩
    · have hw := hspells.length_pos
      simp only [List.length_append] at hn
      obtain ⟨toks, finish, hrun⟩ := ih (by omega) htext'
      exact ⟨tok :: toks, finish, .token hexec hspells.ne_eof hrun⟩

/-- On every text the calls of `next_token` come to the end or to an error, none of them panics, and
the spans of the tokens before it lose nothing but white space. -/
theorem lexer_lossless (text : Utf8.Str) :
    (∃ toks finish, Run (Lexer.new (encode text)) toks finish) ∧
      ∀ toks finish, Run (Lexer.new (encode text)) toks finish →
        Lossless (encode text) 0 toks finish :=
  ⟨@exists_run _ [] _ (Nat.lt_succ_self _) ⟨text, rfl⟩,
    fun _ _ h => @lossless_of_run [] _ ⟨text, rfl⟩ _ _ h⟩

end ExtKtrace.TpLexer.Spans
