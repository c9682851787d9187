import ExtKtrace.TpLexer.Grammar
import ExtKtrace.TpLexer.QuotedText
import Mathlib.Data.List.Infix

/-!
# The operand of a string comparison

The tokens of a pattern are joined without a look at what stands between them, so the operand of a
comparison may be one word of the text or several.
-/

namespace ExtKtrace.TpLexer.Operands
set_option autoImplicit false

open Lexer Utf8 RoundTrip RoundTrip.Parser Derived Grammar Spans QuotedText

/-- In front of the text given last: a quoted literal, or as many bytes as there are that are
neither white space nor operator characters. -/
inductive Operand : Str → Str → Str → Prop
  | quoted {pat w t : Str} (h : Spells (.string pat) w t) : Operand pat w t
  | run {c : UInt8} {w t : Str} (hc : isQuote c = false)
      (hw : ∀ b ∈ c :: w, isWordByte b = true) (ht : ∀ b ∈ t.head?, isWordByte b = false) :
      Operand (c :: w) (c :: w) t

/-- Behind white space, the text ends or goes on with `)`, `&&` or `||`. -/
def Ends (t : Str) : Prop :=
  t.dropWhile isAsciiWhitespace = [] ∨
    ∃ w ∈ [ascii ")", ascii "&&", ascii "||"], w <+: t.dropWhile isAsciiWhitespace

/-- Behind the field name at the span: the operator, and one operand that is the whole right side
of the comparison and stands for the pattern. -/
def OneOperand (input : Str) (span : Span) (op : StrOp) (pat : Str) : Prop :=
  ∃ gap gap' w t, input.drop span.stop = gap ++ (strOpText op ++ (gap' ++ (w ++ t))) ∧
    (∀ b ∈ gap, isAsciiWhitespace b = true) ∧ (∀ b ∈ gap', isAsciiWhitespace b = true) ∧
      Operand pat w t ∧ Ends t

/-- A text has only one longest run of bytes of a class in front. -/
theorem run_unique {p : UInt8 → Bool} {w t w' t' : Str} (hw : ∀ b ∈ w, p b = true)
    (ht : ∀ b ∈ t.head?, p b = false) (hw' : ∀ b ∈ w', p b = true)
    (ht' : ∀ b ∈ t'.head?, p b = false) (h : w ++ t = w' ++ t') : w = w' ∧ t = t' := by
  have hstop : ∀ {t : Str}, (∀ b ∈ t.head?, p b = false) → t.takeWhile p = [] := by
    intro t ht
    rcases t with _ | ⟨b, t⟩
    · rfl
    · exact List.takeWhile_cons_of_neg (by simp [ht b rfl])
  have htake := congrArg (List.takeWhile p) h
  rw [List.takeWhile_append_of_pos hw, List.takeWhile_append_of_pos hw', hstop ht, hstop ht',
    List.append_nil, List.append_nil] at htake
  subst htake
  exact ⟨rfl, List.append_cancel_left h⟩

theorem isWordByte_not_ws {b : UInt8} (h : isWordByte b = true) : isAsciiWhitespace b = false := by
  rw [isWordByte, Bool.not_eq_true', Bool.or_eq_false_iff] at h
  exact h.1

theorem isQuote_not_ws {b : UInt8} (h : isQuote b = true) : isAsciiWhitespace b = false := by
  rcases (Bool.or_eq_true _ _).mp h with h | h
  · rw [of_decide_eq_true h]
    rfl
  · rw [of_decide_eq_true h]
    rfl

theorem Operand.head {pat w t : Str} (h : Operand pat w t) :
    ∀ b ∈ (w ++ t).head?, isAsciiWhitespace b = false := by
  intro b hb
  cases h with
  | quoted h =>
    cases h with
    | fixed h => cases h
    | string hq _ =>
      cases hb
      exact isQuote_not_ws hq
  | run _ hw _ =>
    cases hb
    exact isWordByte_not_ws (hw b List.mem_cons_self)

/-- What stands in front of a text as an operand stands for one pattern. -/
theorem Operand.unique {pat w t pat' w' t' : Str} (h : Operand pat w t)
    (h' : Operand pat' w' t') (heq : w ++ t = w' ++ t') : pat = pat' ∧ t = t' := by
  cases h with
  | quoted h =>
    cases h with
    | fixed h => cases h
    | @string q body _ _ hq hscan =>
      cases h' with
      | quoted h' =>
        cases h' with
        | fixed h' => cases h'
        | @string q' body' _ _ hq' hscan' =>
          simp only [List.cons_append, List.append_assoc, List.nil_append] at heq
          obtain ⟨rfl, hbody⟩ := List.cons.inj heq
          have hsame := (hscan 0).symm.trans (hbody ▸ hscan' 0)
          simp only [Prod.mk.injEq, StringEnd.closed.injEq] at hsame
          have hlen : body.length = body'.length := by omega
          obtain ⟨-, htail⟩ := List.append_inj hbody hlen
          exact ⟨hsame.1, (List.cons.inj htail).2⟩
      | run hc _ _ =>
        obtain ⟨rfl, -⟩ := List.cons.inj heq
        rw [hc] at hq
        cases hq
  | run hc hw ht =>
    cases h' with
    | quoted h' =>
      cases h' with
      | fixed h' => cases h'
      | string hq' _ =>
        obtain ⟨rfl, -⟩ := List.cons.inj heq
        rw [hc] at hq'
        cases hq'
    | run _ hw' ht' => exact run_unique hw ht hw' ht' heq

/-- Where an operand stands behind the operator, the comparison has one operand if and only if its
pattern is that one and nothing comes behind. -/
theorem Operand.oneOperand_iff {input gap gap' w t pat pat' : Str} {span : Span} {op : StrOp}
    (h : Operand pat w t)
    (hinput : input.drop span.stop = gap ++ (strOpText op ++ (gap' ++ (w ++ t))))
    (hgap : ∀ b ∈ gap, isAsciiWhitespace b = true)
    (hgap' : ∀ b ∈ gap', isAsciiWhitespace b = true) :
    OneOperand input span op pat' ↔ pat' = pat ∧ Ends t := by
  have hop : ∀ (s : Str), ∀ b ∈ (strOpText op ++ s).head?, isAsciiWhitespace b = false := by
    intro s b hb
    cases op <;> cases hb <;> rfl
  constructor
  · intro hone
    obtain ⟨gap₁, gap₂, w', t', hinput', hgap₁, hgap₂, h', hends⟩ := hone
    rw [hinput] at hinput'
    have hrest := (run_unique hgap (hop _) hgap₁ (hop _) hinput').2
    have hoperand := (run_unique hgap' h.head hgap₂ h'.head (List.append_cancel_left hrest)).2
    obtain ⟨rfl, rfl⟩ := h.unique h' hoperand
    exact ⟨rfl, hends⟩
  · intro hone
    obtain ⟨rfl, hends⟩ := hone
    exact ⟨gap, gap', w, t, hinput, hgap, hgap', h, hends⟩

def NoBareword (behind : List Token) : Prop :=
  ∀ tok ∈ behind.head?, ∀ st, tok.kind ≠ .bareword st

/-- Nothing is joined to the first token of a pattern but one bareword that stands directly behind
an identifier. -/
def Alone (first : Token) (behind : List Token) : Prop :=
  NoBareword behind ∨ ∃ s b more, first.kind = .ident s ∧ behind = b :: more ∧
    b.span.start = first.span.stop ∧ NoBareword more

/-- So it is at every operator that takes a pattern. -/
def EachAlone : List Token → Prop
  | op :: first :: behind => (Site op first → Alone first behind) ∧ EachAlone (first :: behind)
  | _ => True

theorem eachAlone_pass {op first : Token} {behind : List Token} (h : ¬ Site op first) :
    EachAlone (op :: first :: behind) ↔ EachAlone (first :: behind) := by
  rw [EachAlone]
  exact and_iff_right fun hsite => absurd hsite h

/-- The tokens that are no operator of a string comparison. -/
def isPlain : TokenKind → Bool
  | .tilde | .eqEq | .notEq => false
  | _ => true

theorem not_site_of_plain {op first : Token} (h : isPlain op.kind = true) : ¬ Site op first := by
  intro hsite
  rcases hsite.1 with hop | ⟨hop | hop, -⟩
  all_goals
    rw [hop] at h
    cases h

theorem eachAlone_plain {tok : Token} (h : isPlain tok.kind = true) (toks : List Token) :
    EachAlone (tok :: toks) ↔ EachAlone toks := by
  rcases toks with _ | ⟨first, behind⟩
  · exact Iff.rfl
  · exact eachAlone_pass (not_site_of_plain h)

theorem eachAlone_append {toks : List Token} (h : ∀ tok ∈ toks, isPlain tok.kind = true)
    (rest : List Token) : EachAlone (toks ++ rest) ↔ EachAlone rest := by
  induction toks with
  | nil => exact Iff.rfl
  | cons tok toks ih =>
    obtain ⟨htok, hrest⟩ := List.forall_mem_cons.mp h
    rw [List.cons_append, eachAlone_plain htok]
    exact ih hrest

theorem Ends.head {t : Str} (h : Ends t) : ∀ b ∈ t.head?, isWordByte b = false := by
  intro b hb
  rcases t with _ | ⟨c, t⟩
  · cases hb
  · cases hb
    by_cases hws : isAsciiWhitespace b = true
    · rw [isWordByte, hws]
      rfl
    · rw [Ends, List.dropWhile_cons_of_neg hws] at h
      rcases h with h | ⟨w, hw, rest, hrest⟩
      · cases h
      · simp only [List.mem_cons, List.not_mem_nil, or_false] at hw
        rcases hw with rfl | rfl | rfl
        all_goals
          cases hrest
          rfl

/-- What follows a comparison is written in one way only. -/
theorem ends_of_run {pre t : Str} (htext : IsText t) {rest : List Token}
    (hrest : Follow (rest.map Token.kind)) (hrun : Run (after pre t) rest .eof) : Ends t := by
  rcases rest with _ | ⟨tok, rest⟩
  · exact .inl (List.dropWhile_eq_nil_iff.mpr (hrun.blank htext))
  · obtain ⟨gap, w, t', rfl, hgap, hspells, -⟩ := hrun.uncons htext
    refine .inr ⟨w, ?_, ?_⟩
    · rcases hrest tok.kind rfl with h | h | h
      all_goals
        rw [h] at hspells
        cases hspells with
        | fixed h =>
          cases h
          simp
    · rw [List.dropWhile_append_of_pos hgap]
      rcases hrest tok.kind rfl with h | h | h
      all_goals
        rw [h] at hspells
        cases hspells with
        | fixed h =>
          cases h
          exact ⟨t', rfl⟩

/-- A bareword is never empty. -/
theorem Run.bareword_ne_nil {pre s : Str} (htext : IsText s) {toks : List Token}
    {finish : Finish} (h : Run (after pre s) toks finish) :
    ∀ tok ∈ toks, tok.kind ≠ .bareword [] := by
  induction toks generalizing pre s with
  | nil => simp
  | cons tok toks ih =>
    obtain ⟨gap, w, t, -, -, hspells, htext', -, hrest⟩ := h.uncons htext
    refine List.forall_mem_cons.mpr ⟨?_, ih htext' hrest⟩
    intro hkind
    rw [hkind] at hspells
    cases hspells with
    | fixed h => cases h

theorem Follow.noBareword {rest : List Token} (h : Follow (rest.map Token.kind)) :
    NoBareword rest := by
  intro tok htok st hkind
  rcases rest with _ | ⟨tok', rest⟩
  · cases htok
  · cases htok
    rcases h _ rfl with h | h | h
    all_goals
      rw [hkind] at h
      cases h

/-- Nothing is joined exactly when the comparison ends with what has been read. -/
theorem joins_nothing_iff {pre t : Str} (htext : IsText t) {chunks rest : List Token}
    {words : List Str} (hwords : chunks.map Token.kind = words.map .bareword)
    (hrest : Follow (rest.map Token.kind)) (hrun : Run (after pre t) (chunks ++ rest) .eof) :
    words.flatten = [] ∧ Ends t ↔ NoBareword (chunks ++ rest) := by
  rcases words with _ | ⟨st, words⟩
  · obtain rfl : chunks = [] := List.map_eq_nil_iff.mp hwords
    exact iff_of_true ⟨rfl, ends_of_run htext hrest hrun⟩ (Follow.noBareword hrest)
  · rcases chunks with _ | ⟨b, chunks⟩
    · cases hwords
    · have hb : b.kind = .bareword st := (List.cons.inj hwords).1
      refine iff_of_false ?_ ?_
      · intro h
        obtain ⟨hst, -⟩ := List.append_eq_nil_iff.mp h.1
        exact Run.bareword_ne_nil htext hrun b List.mem_cons_self (hst ▸ hb)
      · intro h
        exact h b rfl st hb

theorem Run.drop {pre s : Str} (htext : IsText s) {toks toks' : List Token} {finish : Finish}
    (h : Run (after pre s) (toks ++ toks') finish) :
    ∃ pre' s', pre ++ s = pre' ++ s' ∧ IsText s' ∧ Run (after pre' s') toks' finish := by
  induction toks generalizing pre s with
  | nil => exact ⟨pre, s, rfl, htext, h⟩
  | cons tok toks ih =>
    obtain ⟨gap, w, t, rfl, -, -, htext', -, hrest⟩ := h.uncons htext
    obtain ⟨pre', s', heq, htext'', hrun⟩ := ih htext' hrest
    refine ⟨pre', s', ?_, htext'', hrun⟩
    rw [← heq]
    simp

theorem isWordByte_ident {b : UInt8} (h : isIdentByte b = true) : isWordByte b = true := by
  have hws : isAsciiWhitespace b = false := by
    apply Bool.eq_false_iff.mpr
    intro hws
    simp only [isAsciiWhitespace, Bool.or_eq_true, decide_eq_true_eq] at hws
    rcases hws with (((rfl | rfl) | rfl) | rfl) | rfl <;> cases h
  rw [isWordByte, hws, isOpChar_eq_false rfl h]
  rfl

theorem isQuote_eq_false {p : UInt8 → Bool} (hp : p doubleQuote = false ∧ p singleQuote = false)
    {b : UInt8} (hb : p b = true) : isQuote b = false := by
  simp [isQuote, class_ne hb hp.1, class_ne hb hp.2]

/-- What an identifier and a bareword are written with. -/
theorem word_of_spells {k : TokenKind} {w t : Str} (h : Spells k w t)
    (hk : k = .ident w ∨ k = .bareword w) :
    ∃ c w', w = c :: w' ∧ isQuote c = false ∧ ∀ b ∈ w, isWordByte b = true := by
  cases h with
  | fixed h => rcases hk with rfl | rfl <;> cases h
  | int => rcases hk with hk | hk <;> cases hk
  | string => rcases hk with hk | hk <;> cases hk
  | ident hw =>
    rcases w with _ | ⟨c, w⟩
    · cases hw
    · rw [isIdentifier, Bool.and_eq_true, List.all_eq_true] at hw
      have hc : isIdentByte c = true := by
        rw [isIdentByte, Bool.or_right_comm, Bool.or_eq_true]
        exact .inl hw.1
      refine ⟨c, w, rfl, isQuote_eq_false (by decide) hw.1, ?_⟩
      exact List.forall_mem_cons.mpr
        ⟨isWordByte_ident hc, fun b hb => isWordByte_ident (hw.2 b hb)⟩
  | @bareword c w _ hc hw =>
    refine ⟨c, w, rfl, isQuote_eq_false (by decide) hc, ?_⟩
    rw [startsBareword, Bool.and_assoc, Bool.and_assoc, Bool.and_eq_true] at hc
    exact List.forall_mem_cons.mpr ⟨hc.1, hw⟩

theorem Operand.of_spells {k : TokenKind} {w t : Str} (h : Spells k w t)
    (hk : k = .ident w ∨ k = .bareword w) (ht : ∀ b ∈ t.head?, isWordByte b = false) :
    Operand w w t := by
  obtain ⟨c, w, rfl, hquote, hw⟩ := word_of_spells h hk
  exact .run hquote hw ht

theorem bareword_spelled {st w t : Str} (h : Spells (.bareword st) w t) :
    st = w ∧ ∀ b ∈ t.head?, isWordByte b = false := by
  cases h with
  | fixed h => cases h
  | bareword _ _ ht => exact ⟨rfl, ht⟩

section
variable {input gap gap' w t : Str} {span : Span} {op : StrOp} {P : Str}
  {chunks rest : List Token} {words : List Str}

/-- Where an operand has been read, every bareword behind it is too much. -/
theorem Operand.joined_iff {s : Str} (h : Operand s w t)
    (hinput : input.drop span.stop = gap ++ (strOpText op ++ (gap' ++ (w ++ t))))
    (hgap : ∀ b ∈ gap, isAsciiWhitespace b = true)
    (hgap' : ∀ b ∈ gap', isAsciiWhitespace b = true) (htext : IsText t)
    (hwords : chunks.map Token.kind = words.map .bareword) (hrest : Follow (rest.map Token.kind))
    (hrun : Run (after P t) (chunks ++ rest) .eof) :
    OneOperand input span op (s ++ words.flatten) ↔ NoBareword (chunks ++ rest) := by
  rw [h.oneOperand_iff hinput hgap hgap', ← joins_nothing_iff htext hwords hrest hrun,
    List.append_right_eq_self]

/-- The white space, if any, between an identifier and a bareword decides. -/
theorem ident_iff
    (hinput : input.drop span.stop = gap ++ (strOpText op ++ (gap' ++ (w ++ t))))
    (hgap : ∀ b ∈ gap, isAsciiWhitespace b = true)
    (hgap' : ∀ b ∈ gap', isAsciiWhitespace b = true) (htext : IsText t)
    (hwords : chunks.map Token.kind = words.map .bareword) (hrest : Follow (rest.map Token.kind))
    (hrun : Run (after P t) (chunks ++ rest) .eof) {first : Token} (hkind : first.kind = .ident w)
    (hspells : Spells first.kind w t) (hspan : first.span.stop = P.length) :
    OneOperand input span op (w ++ words.flatten) ↔ Alone first (chunks ++ rest) := by
  rcases words with _ | ⟨st, words⟩
  · obtain rfl : chunks = [] := List.map_eq_nil_iff.mp hwords
    have hends := ends_of_run htext hrest hrun
    have hword := Operand.of_spells hspells (.inl hkind) hends.head
    have hnone := Follow.noBareword hrest
    exact iff_of_true ((hword.joined_iff hinput hgap hgap' htext hwords hrest hrun).mpr hnone)
      (.inl hnone)
  rcases chunks with _ | ⟨b, chunks⟩
  · cases hwords
  obtain ⟨hb, hwords'⟩ := List.cons.inj hwords
  obtain ⟨between, w', t', rfl, hbetween, hspells', htext', hspan', hrun'⟩ := hrun.uncons htext
  have hnot : ¬ NoBareword (b :: (chunks ++ rest)) := fun h => h b rfl _ hb
  rw [hb] at hspells'
  obtain ⟨rfl, ht'⟩ := bareword_spelled hspells'
  obtain ⟨c, tail, rfl, hquote, hbytes⟩ := word_of_spells hspells (.inl hkind)
  obtain ⟨d, tail', rfl, -, hbytes'⟩ := word_of_spells hspells' (.inr rfl)
  rcases between with _ | ⟨x, between⟩
  · -- the identifier and the bareword are one run
    have hword : Operand (c :: tail ++ d :: tail') (c :: tail ++ d :: tail') t' :=
      .run hquote (List.forall_mem_append.mpr ⟨hbytes, hbytes'⟩) ht'
    have hinput' : input.drop span.stop =
        gap ++ (strOpText op ++ (gap' ++ ((c :: tail ++ d :: tail') ++ t'))) := by
      rw [hinput, List.append_assoc (c :: tail)]
      rfl
    have hjoined := hword.joined_iff hinput' hgap hgap' htext' hwords' hrest hrun'
    rw [List.append_assoc, ← List.flatten_cons] at hjoined
    rw [hjoined, List.cons_append, Alone, or_iff_right hnot]
    constructor
    · intro hnone
      exact ⟨_, b, _, hkind, rfl, by rw [hspan', hspan, List.append_nil], hnone⟩
    · rintro ⟨s, b', more, -, hcons, -, hnone⟩
      cases hcons
      exact hnone
  · have ht : ∀ y ∈ (x :: between ++ (d :: tail' ++ t')).head?, isWordByte y = false := by
      intro y hy
      cases hy
      rw [isWordByte, hbetween x List.mem_cons_self]
      rfl
    have hword := Operand.of_spells hspells (.inl hkind) ht
    rw [hword.joined_iff hinput hgap hgap' htext hwords hrest hrun, Alone]
    refine (or_iff_left ?_).symm
    rintro ⟨s, b', more, -, hcons, hstart, -⟩
    cases hcons
    rw [hspan', hspan, List.length_append, List.length_cons] at hstart
    dsimp only at hstart
    omega

/-- Nothing may be joined to a quoted literal or to a bareword. -/
theorem alone_iff_noBareword {first : Token} (h : ∀ s, first.kind ≠ .ident s)
    (behind : List Token) : Alone first behind ↔ NoBareword behind := by
  rw [Alone, or_iff_left]
  rintro ⟨s, b, more, hkind, -⟩
  exact h s hkind

theorem pattern_iff {s : Str}
    (hinput : input.drop span.stop = gap ++ (strOpText op ++ (gap' ++ (w ++ t))))
    (hgap : ∀ b ∈ gap, isAsciiWhitespace b = true)
    (hgap' : ∀ b ∈ gap', isAsciiWhitespace b = true) (htext : IsText t)
    (hwords : chunks.map Token.kind = words.map .bareword) (hrest : Follow (rest.map Token.kind))
    (hrun : Run (after P t) (chunks ++ rest) .eof) {first : Token}
    (hfirst : PatternKind first.kind s) (hspells : Spells first.kind w t)
    (hspan : first.span.stop = P.length) :
    OneOperand input span op (s ++ words.flatten) ↔ Alone first (chunks ++ rest) := by
  rcases hfirst with hkind | hkind | hkind
  · rw [alone_iff_noBareword (by simp [hkind])]
    rw [hkind] at hspells
    exact (Operand.quoted hspells).joined_iff hinput hgap hgap' htext hwords hrest hrun
  · rw [alone_iff_noBareword (by simp [hkind])]
    rw [hkind] at hspells
    obtain ⟨rfl, ht⟩ := bareword_spelled hspells
    have hword := Operand.of_spells hspells (.inr rfl) ht
    exact hword.joined_iff hinput hgap hgap' htext hwords hrest hrun
  · obtain rfl : s = w := by
      rw [hkind] at hspells
      cases hspells with
      | fixed h => cases h
      | ident => rfl
    exact ident_iff hinput hgap hgap' htext hwords hrest hrun hkind hspells hspan

end

theorem strOp_spelled {op : StrOp} {w t : Str} (h : Spells (strOpKind op) w t) :
    w = strOpText op := by
  cases op with
  | eq | ne | glob =>
    cases h with
    | fixed h =>
      cases h
      rfl

/-- The tokens of a string comparison stand in the text as the comparison says. -/
theorem str_iff {pre text s : Str} (htext : IsText text) {op : StrOp}
    {name o first : Token} {chunks rest : List Token} {words : List Str}
    (ho : o.kind = strOpKind op) (hfirst : PatternKind first.kind s)
    (hwords : chunks.map Token.kind = words.map .bareword) (hrest : Follow (rest.map Token.kind))
    (hrun : Run (after pre text) (name :: o :: first :: (chunks ++ rest)) .eof) :
    OneOperand (pre ++ text) name.span op (s ++ words.flatten) ↔ Alone first (chunks ++ rest) := by
  obtain ⟨gap₁, w₁, t₁, rfl, -, -, htext₁, hspan₁, hrun₁⟩ := hrun.uncons htext
  obtain ⟨gap₂, w₂, t₂, rfl, hgap₂, hspells₂, htext₂, -, hrun₂⟩ := hrun₁.uncons htext₁
  obtain ⟨gap₃, w₃, t₃, rfl, hgap₃, hspells₃, htext₃, hspan₃, hrun₃⟩ := hrun₂.uncons htext₂
  rw [ho] at hspells₂
  obtain rfl := strOp_spelled hspells₂
  have hsplit : ∀ rest : Str, pre ++ (gap₁ ++ (w₁ ++ rest)) = pre ++ gap₁ ++ w₁ ++ rest := by simp
  apply pattern_iff _ hgap₂ hgap₃ htext₃ hwords hrest hrun₃ hfirst hspells₃
    (congrArg Span.stop hspan₃)
  rw [hspan₁, hsplit, List.drop_left]

/-- Every string comparison of the tree has one operand. -/
def OneOperandEach (input : Str) (e : Expr) : Prop :=
  ∀ field span op pat, .strCmp field span op pat ∈ TriState.leaves e → OneOperand input span op pat

theorem oneOperandEach_append {input : Str} {e l r : Expr}
    (h : TriState.leaves e = TriState.leaves l ++ TriState.leaves r) :
    OneOperandEach input e ↔ OneOperandEach input l ∧ OneOperandEach input r := by
  constructor
  · intro he
    exact ⟨fun field span op pat hl => he field span op pat (h ▸ List.mem_append_left _ hl),
      fun field span op pat hr => he field span op pat (h ▸ List.mem_append_right _ hr)⟩
  · rintro ⟨hl, hr⟩ field span op pat hmem
    rcases List.mem_append.mp (h ▸ hmem) with hmem | hmem
    · exact hl field span op pat hmem
    · exact hr field span op pat hmem

theorem oneOperandEach_str {input field pat : Str} {span : Span} {op : StrOp} :
    OneOperandEach input (.strCmp field span op pat) ↔ OneOperand input span op pat := by
  constructor
  · exact fun h => h field span op pat List.mem_cons_self
  · intro h field' span' op' pat' hmem
    cases List.mem_singleton.mp hmem
    exact h

theorem isPlain_of_number {v : Int64} {toks : List Token} (h : Number v toks) :
    ∀ tok ∈ toks, isPlain tok.kind = true := by
  induction h with
  | int ht | word ht _ _ _ =>
    rw [List.forall_mem_singleton, ht]
    rfl
  | minus ht _ _ ih | plus ht _ ih =>
    rw [List.forall_mem_cons, ht]
    exact ⟨rfl, ih⟩
  | paren ho _ hc ih =>
    rw [List.forall_mem_cons, List.forall_mem_append, List.forall_mem_singleton, ho, hc]
    exact ⟨rfl, ih, rfl⟩

/-- In front of tokens that may follow it, the tokens of the tree meet the condition exactly where
its comparisons have one operand each. -/
def Decides (e : Expr) (toks : List Token) : Prop :=
  ∀ {pre text : Str} {rest : List Token}, IsText text → Follow (rest.map Token.kind) →
    Run (after pre text) (toks ++ rest) .eof →
      (EachAlone (toks ++ rest) ↔ OneOperandEach (pre ++ text) e ∧ EachAlone rest)

theorem Decides.binary {e l r : Expr} {toks toks' : List Token} {o : Token} (hl : Decides l toks)
    (hr : Decides r toks') (ho : o.kind = .andAnd ∨ o.kind = .orOr)
    (hleaves : TriState.leaves e = TriState.leaves l ++ TriState.leaves r) :
    Decides e (toks ++ o :: toks') := by
  intro pre text rest htext hrest hrun
  rw [List.append_assoc, List.cons_append] at hrun ⊢
  have hplain : isPlain o.kind = true := by
    rcases ho with ho | ho <;> rw [ho] <;> rfl
  have hfollow : Follow ((o :: (toks' ++ rest)).map Token.kind) := by
    intro k hk
    cases hk
    exact ho.imp_right .inl
  obtain ⟨pre', s', heq, htext', hrun'⟩ := Run.drop htext hrun
  obtain ⟨gap, w, t, rfl, -, -, htext'', -, hrun''⟩ := hrun'.uncons htext'
  have hinput : pre' ++ gap ++ w ++ t = pre ++ text := by
    rw [heq]
    simp
  rw [hl htext hfollow hrun, eachAlone_plain hplain, hr htext'' hrest hrun'', hinput,
    oneOperandEach_append hleaves, and_assoc]

theorem Decides.group {e : Expr} {toks : List Token} {o c : Token} (he : Decides e toks)
    (ho : o.kind = .lParen) (hc : c.kind = .rParen) :
    Decides (.group e) (o :: (toks ++ [c])) := by
  intro pre text rest htext hrest hrun
  rw [List.cons_append, List.append_assoc, List.singleton_append] at hrun ⊢
  have hfollow : Follow ((c :: rest).map Token.kind) := by
    intro k hk
    cases hk
    exact .inr (.inr hc)
  obtain ⟨gap, w, t, rfl, -, -, htext', -, hrun'⟩ := hrun.uncons htext
  have hinput : pre ++ gap ++ w ++ t = pre ++ (gap ++ (w ++ t)) := by simp
  rw [eachAlone_plain (by rw [ho]; rfl), he htext' hfollow hrun', hinput,
    eachAlone_plain (by rw [hc]; rfl)]
  exact Iff.rfl

theorem isPlain_of_bareword {chunks : List Token} {words : List Str}
    (h : chunks.map Token.kind = words.map .bareword) :
    ∀ tok ∈ chunks, isPlain tok.kind = true := by
  intro tok htok
  have hmem : tok.kind ∈ chunks.map Token.kind := List.mem_map_of_mem htok
  rw [h] at hmem
  obtain ⟨st, -, hst⟩ := List.mem_map.mp hmem
  rw [← hst]
  rfl

/-- A comparison with a number, behind the field and its mask. -/
theorem Decides.numCmp {field : Str} {span : Span} {mask : Option Int64} {op : NumOp} {rhs : Int64}
    {o : Token} {masked toks : List Token} (hmasked : ∀ tok ∈ masked, isPlain tok.kind = true)
    (ho : TpLexer.Parser.numOp o.kind = some op) (hrhs : Number rhs toks) :
    Decides (.numCmp field span mask op rhs) (masked ++ o :: toks) := by
  intro pre text rest htext hrest hrun
  have hnone : OneOperandEach (pre ++ text) (.numCmp field span mask op rhs) := by
    intro field' span' op' pat' hmem
    cases List.mem_singleton.mp hmem
  have hdigits := eachAlone_append (isPlain_of_number hrhs) rest
  obtain ⟨first, digits, rfl⟩ := List.exists_cons_of_length_pos hrhs.pos
  have hsite : ¬ Site o first := by
    rintro ⟨hop | ⟨-, hop⟩, -⟩
    · rw [hop] at ho
      cases ho
    · rw [hrhs.starts] at hop
      cases hop
  rw [List.append_assoc, eachAlone_append hmasked, List.cons_append, List.cons_append,
    eachAlone_pass hsite, ← List.cons_append, hdigits]
  exact (and_iff_right hnone).symm

theorem site_of_pattern {op : StrOp} {o first : Token} {s : Str} (ho : o.kind = strOpKind op)
    (hop : op = .glob ∨ TpLexer.Parser.startsNumericLiteral first.kind = false)
    (hfirst : PatternKind first.kind s) : Site o first := by
  refine ⟨?_, s, hfirst⟩
  cases op with
  | glob => exact .inl ho
  | eq => exact .inr ⟨.inl ho, hop.resolve_left (by simp)⟩
  | ne => exact .inr ⟨.inr ho, hop.resolve_left (by simp)⟩

theorem decides_of_derives {level : Level} {e : Expr} {toks : List Token}
    (h : Derives level e toks) : Decides e toks := by
  induction h with
  | or _ ho _ ihl ihr => exact ihl.binary ihr (.inr ho) rfl
  | and _ ho _ ihl ihr => exact ihl.binary ihr (.inl ho) rfl
  | oneAnd _ ih | oneCmp _ ih => exact ih
  | group ho _ hc ih => exact ih.group ho hc
  | @masked field m rhs op name amp o toks toks' hname hamp hm ho hrhs =>
    have hmasked : ∀ tok ∈ name :: amp :: toks, isPlain tok.kind = true := by
      rw [List.forall_mem_cons, List.forall_mem_cons, hname, hamp]
      exact ⟨rfl, rfl, isPlain_of_number hm⟩
    exact @Decides.numCmp field name.span (some m) op rhs o _ toks' hmasked ho hrhs
  | @plain field rhs op name o toks hname ho hrhs =>
    have hmasked : ∀ tok ∈ [name], isPlain tok.kind = true := by
      rw [List.forall_mem_singleton, hname]
      rfl
    exact @Decides.numCmp field name.span none op rhs o _ toks hmasked ho hrhs
  | @pattern field pat op name o first toks hname ho hop hpat =>
    obtain ⟨s, chunks, words, rfl, hfirst, hwords, rfl⟩ := hpat
    intro pre text rest htext hrest hrun
    have hplain : isPlain first.kind = true := by
      rcases hfirst with h | h | h <;> rw [h] <;> rfl
    have hsite := site_of_pattern ho hop hfirst
    rw [List.cons_append, List.cons_append, List.cons_append] at hrun ⊢
    rw [eachAlone_plain (by rw [hname]; rfl), EachAlone, eachAlone_plain hplain,
      eachAlone_append (isPlain_of_bareword hwords), oneOperandEach_str,
      str_iff htext ho hfirst hwords hrest hrun]
    exact and_congr_left' (imp_iff_right hsite)

/-- In an accepted text, the pattern of every string comparison is one operand, a quoted literal or
a maximal run, if and only if its first token is followed by no bareword, or is an identifier with
one bareword directly behind it. -/
theorem string_operands_iff (text : Utf8.Str) (e : Expr)
    (h : parseFilter (encode text) = some (.ok e)) :
    ∃ toks, Run (Lexer.new (encode text)) toks .eof ∧
      ((∀ field span op pat, .strCmp field span op pat ∈ TriState.leaves e →
        OneOperand (encode text) span op pat) ↔ EachAlone toks) := by
  obtain ⟨toks, hrun, hderives⟩ := derives_of_parseFilter h
  refine ⟨toks, hrun, ?_⟩
  have hdecides := @decides_of_derives .or e toks hderives [] (encode text) [] ⟨text, rfl⟩
    (by intro k hk; cases hk)
  rw [List.append_nil] at hdecides
  have hiff := hdecides hrun
  exact (hiff.trans (and_iff_left trivial)).symm

/-- The identifier of `bash*` is joined to the bareword behind it, and `"a b"` is quoted. -/
theorem string_operands_joined :
    parseFilter (encode "comm==bash*&&x~\"a b\"".toList) =
      some (.ok (.and (.strCmp (ascii "comm") ⟨0, 4⟩ .eq (ascii "bash*"))
        (.strCmp (ascii "x") ⟨13, 14⟩ .glob (ascii "a b")))) ∧
    ∃ toks, Run (Lexer.new (encode "comm==bash*&&x~\"a b\"".toList)) toks .eof ∧
      ((∀ field span op pat, .strCmp field span op pat ∈
          TriState.leaves (.and (.strCmp (ascii "comm") ⟨0, 4⟩ .eq (ascii "bash*"))
            (.strCmp (ascii "x") ⟨13, 14⟩ .glob (ascii "a b"))) →
        OneOperand (encode "comm==bash*&&x~\"a b\"".toList) span op pat) ↔ EachAlone toks) := by
  have h : parseFilter (encode "comm==bash*&&x~\"a b\"".toList) =
      some (.ok (.and (.strCmp (ascii "comm") ⟨0, 4⟩ .eq (ascii "bash*"))
        (.strCmp (ascii "x") ⟨13, 14⟩ .glob (ascii "a b")))) := by
    apply eq_of_toOption
    decide +kernel
  exact ⟨h, string_operands_iff _ _ h⟩

/-- In `comm == bash -x` two words become the pattern `bash-x`, which stands nowhere in the text. -/
theorem string_operands_two_words :
    ¬ ∀ (text : Utf8.Str) (e : Expr), parseFilter (encode text) = some (.ok e) →
      ∀ field span op pat, .strCmp field span op pat ∈ TriState.leaves e →
        OneOperand (encode text) span op pat := by
  intro h
  have htext : encode "comm == bash -x".toList =
      comparison (ascii "comm") (ascii " ") (ascii " ") (ascii "bash -x") := rfl
  have hspace : ∀ b ∈ ascii " ", isAsciiWhitespace b = true := by
    intro b hb
    rw [List.mem_singleton.mp hb]
    rfl
  have hdash : Lexes (ascii "-x") (.bareword (ascii "-x")) [] := by
    refine lexes_bareword rfl (.inl (by decide)) ?_ (by simp)
    intro b hb
    rw [List.mem_singleton.mp hb]
    rfl
  have hbash : Lexes (ascii "bash") (.ident (ascii "bash")) (ascii " " ++ (ascii "-x" ++ [])) :=
    lexes_ident_of rfl (by intro b hb; cases hb; rfl) (by intro b hb; cases hb; decide)
  have htokens := hbash.cons ((hdash.cons tokensOf_nil).gap hspace)
  obtain ⟨span, hparse⟩ := @parseFilter_comparison (ascii "comm") (ascii " ") (ascii " ")
    (ascii "bash -x") _ _ [ascii "-x"] rfl hspace hspace (.inr (.inr rfl)) rfl
    (Nat.le_refl _) htokens
  rw [← htext] at hparse
  obtain ⟨gap, gap', w, t, hinput, -, -, hoperand, -⟩ :=
    h _ _ hparse _ _ _ _ List.mem_cons_self
  have hsuffix : w ++ t <:+ encode "comm == bash -x".toList := by
    apply List.IsSuffix.trans _ (List.drop_suffix span.stop _)
    refine ⟨gap ++ (strOpText .eq ++ gap'), ?_⟩
    rw [hinput, List.append_assoc, List.append_assoc]
  cases hoperand with
  | quoted hspells =>
    cases hspells with
    | fixed h => cases h
    | string hq =>
      have hnone : (encode "comm == bash -x".toList).any isQuote = false := rfl
      exact List.any_eq_false.mp hnone _ (hsuffix.subset List.mem_cons_self) hq
  | run =>
    have hnone : (encode "comm == bash -x".toList).tails.any (ascii "bash-x").isPrefixOf = false :=
      rfl
    apply List.any_eq_false.mp hnone _ ((List.mem_tails _ _).mpr hsuffix)
    exact List.isPrefixOf_iff_prefix.mpr (List.prefix_append _ _)

end ExtKtrace.TpLexer.Operands
