import ExtKtrace.TpLexer.Spelling
import ExtKtrace.TpLexer.TriState
import ExtKtrace.TpLexer.RoundTrip

/-!
# Strings in quotes

What a quoted string stands for in a filter: every byte of its text is pushed as a character, so
that only a text of ASCII characters is compared as it was written.
-/

namespace ExtKtrace.TpLexer.QuotedText
set_option autoImplicit false

open Call Lexer TpLexer.Parser RoundTrip RoundTrip.Parser

/-- The text `field == operand`, with or without white space around the operator. -/
def comparison (field gap gap' operand : Str) : Str :=
  field ++ (gap ++ (ascii "==" ++ (gap' ++ operand)))

def Compiles (text field : Str) (holds : Compiled → Prop) : Prop :=
  ∀ schema : Schema, schema.getType field = some .bytes →
    ∃ compiled, compileWithSchema text schema = some (.ok compiled) ∧ holds compiled

/-- The filter is true exactly on the values that are these bytes. -/
def Selects (text field bytes : Str) : Prop :=
  Compiles text field fun compiled =>
    ∀ ctx v, (ctx.getStrBytes field).result = .ok (.ok (some v)) →
      compiled.evaluate ctx = .ok (decide (v = bytes))

def SameValues (text text' field : Str) : Prop :=
  Compiles text field fun compiled => Compiles text' field fun compiled' =>
    ∀ ctx v, (ctx.getStrBytes field).result = .ok (.ok (some v)) →
      compiled.evaluate ctx = compiled'.evaluate ctx

theorem Selects.same {text text' field bytes : Str} (h : Selects text field bytes)
    (h' : Selects text' field bytes) : SameValues text text' field := by
  intro schema hschema
  obtain ⟨compiled, hcompile, hvalue⟩ := h schema hschema
  refine ⟨compiled, hcompile, ?_⟩
  intro schema' hschema'
  obtain ⟨compiled', hcompile', hvalue'⟩ := h' schema' hschema'
  exact ⟨compiled', hcompile', fun ctx v hget => (hvalue ctx v hget).trans (hvalue' ctx v hget).symm⟩

theorem validate_bytes {schema : Schema} {field : Str} (h : schema.getType field = some .bytes)
    (span : Span) (op : StrOp) (pat : Str) :
    validate schema (.strCmp field span op pat) = .ok () := by
  unfold Schema.getType at h
  unfold validate
  rcases hget : schema.get field with _ | ⟨_ | _ | _, offset, len⟩
  · rw [hget] at h
    cases h
  · rw [hget] at h
    cases h
  · rfl
  · rw [hget] at h
    cases h

theorem evaluate_eq {schema : Schema} {field : Str} (h : schema.getType field = some .bytes)
    (span : Span) (pat : Str) {ctx : Context} {v : Str}
    (hget : (ctx.getStrBytes field).result = .ok (.ok (some v))) :
    (Compiled.mk (.strCmp field span .eq pat) schema).evaluate ctx = .ok (decide (v = pat)) := by
  have hvalue := TriState.evalExpr_eq_value (validate_bytes h span .eq pat) ⟨_, hget⟩
  rw [TriState.value_strCmp hget] at hvalue
  unfold Compiled.evaluate Compiled.tryEvaluate
  rw [Outcome.result_bind_ok hvalue]
  by_cases heq : v = pat
  · simp [TriState.triOf, Tri.ofBool, StrOp.holds, heq, Except.map, Except.toOption]
  · simp [TriState.triOf, Tri.ofBool, StrOp.holds, heq, Except.map, Except.toOption]

/-- A filter that is parsed as one comparison selects the pattern it was parsed with. -/
theorem selects_iff {text field pat bytes : Str} {span : Span}
    (hparse : parseFilter text = some (.ok (.strCmp field span .eq pat))) :
    Selects text field bytes ↔ pat = bytes := by
  have hcompile : ∀ schema : Schema, schema.getType field = some .bytes →
      compileWithSchema text schema = some (.ok ⟨.strCmp field span .eq pat, schema⟩) := by
    intro schema hschema
    have hvalid := validate_bytes hschema span .eq pat
    unfold compileWithSchema
    rw [hparse, Option.map_some]
    show some (do validate schema (.strCmp field span .eq pat); return _) = _
    rw [hvalid]
    rfl
  constructor
  · intro h
    have hbytes : (Schema.mk [⟨field, .bytes, 0, 0⟩]).getType field = some .bytes := by
      simp [Schema.getType, Schema.get]
    obtain ⟨compiled, hcompiled, hvalue⟩ := h _ hbytes
    rw [hcompile _ hbytes] at hcompiled
    cases hcompiled
    -- On the pattern itself the filter is true.
    have htrue := hvalue ⟨fun _ => pure none, fun _ => pure (some pat)⟩ pat rfl
    rw [evaluate_eq hbytes span pat (v := pat) rfl] at htrue
    exact of_decide_eq_true ((Except.ok.inj htrue).symm.trans (decide_eq_true rfl))
  · rintro rfl schema hschema
    exact ⟨_, hcompile schema hschema, fun ctx v hget => evaluate_eq hschema span pat hget⟩

/-- One operand of a comparison with `==`: a first token and at most one bareword behind it. -/
theorem parseFilter_comparison {field gap gap' operand s : Str} {k : TokenKind} {bs : List Str}
    (hfield : isIdentifier field = true) (hgap : ∀ b ∈ gap, isAsciiWhitespace b = true)
    (hgap' : ∀ b ∈ gap', isAsciiWhitespace b = true) (hk : PatternKind k s)
    (hnum : startsNumericLiteral k = false) (hbs : bs.length ≤ 1)
    (htokens : TokensOf operand (k :: bs.map .bareword)) :
    ∃ span, parseFilter (comparison field gap gap' operand) =
      some (.ok (.strCmp field span .eq (s ++ bs.flatten))) := by
  have hhead : ∀ b ∈ (gap ++ (ascii "==" ++ (gap' ++ operand))).head?,
      isIdentByte b = false ∧ b < 0x80 := by
    intro b hb
    rcases gap with _ | ⟨c, gap⟩
    · cases hb
      exact ⟨rfl, by decide⟩
    · cases hb
      have hws := hgap b List.mem_cons_self
      refine ⟨?_, isAsciiWhitespace_lt hws⟩
      simp only [isAsciiWhitespace, Bool.or_eq_true, decide_eq_true_eq] at hws
      rcases hws with (((rfl | rfl) | rfl) | rfl) | rfl <;> rfl
  have hop := (lexes_strOp .eq _).cons (htokens.gap hgap')
  have hall : Tokens (Lexer.new (comparison field gap gap' operand))
      (.ident field :: strOpKind .eq :: k :: bs.map .bareword) :=
    (lexes_ident_of hfield (fun b hb => (hhead b hb).1)
      (fun b hb => .inl (hhead b hb).2)).cons (hop.gap hgap) []
  obtain ⟨n, hn, hpos⟩ : ∃ n, depthFor (comparison field gap gap' operand) = n + 1 + 2 ∧ 2 < n :=
    ⟨3 * (comparison field gap gap' operand).length + 3, rfl, by omega⟩
  have hparse := @parseFilter_of_or _ _ (fun e => ∃ span, e = .strCmp field span .eq (s ++ bs.flatten))
    hall (List.cons_ne_nil _ _) ?_
  · obtain ⟨e, hparse, span, rfl⟩ := hparse
    exact ⟨span, hparse⟩
  · intro p hahead
    rw [← List.append_nil (bs.map _)] at hahead
    obtain ⟨p', hread, hend⟩ := exec_parseFieldCmp_pattern hk (.inr hnum) (by simp) hahead
      (n := n) (by omega)
    have hcmp := (parseCmp_ident hahead n).trans hread
    have hor := parseOr_of_cmp hcmp hend (Nat.succ_pos n)
    rw [← hn] at hor
    exact ⟨_, p', n + 2, hor, ⟨p.lookahead.span, rfl⟩, hend, by omega⟩

/-- A word that may stand without quotes: nothing in it ends or starts another token, and it is no
number. -/
structure Word (w : Str) : Prop where
  ne_nil : w ≠ []
  bytes : ∀ b ∈ w, isWordByte b = true ∧ isQuote b = false
  no_digit : ∀ b ∈ w.head?, isAsciiDigit b = false
  not_numeric : startsNumericLiteral (.bareword w) = false

theorem tokensOf_word {w : Str} (hw : Word w) (htext : Utf8.IsText w) :
    ∃ (k : TokenKind) (s : Str) (bs : List Str), PatternKind k s ∧
      startsNumericLiteral k = false ∧ s ++ bs.flatten = w ∧
      bs.length ≤ 1 ∧ TokensOf w (k :: bs.map .bareword) := by
  have hnil : ∀ {p : UInt8 → Bool}, ∀ b ∈ ([] : Str).head?, p b = false := by simp
  have hstart : ∀ {b : UInt8}, b ∈ w → isAsciiDigit b = false → isIdentStart b = false →
      startsBareword b = true := by
    intro b hb hdigit hident
    simp [startsBareword, hw.bytes b hb, hdigit, hident]
  obtain ⟨c, rest, rfl⟩ := List.exists_cons_of_ne_nil hw.ne_nil
  by_cases hident : isIdentStart c = true
  · have hsplit : c :: rest.takeWhile isIdentByte ++ rest.dropWhile isIdentByte = c :: rest := by
      rw [List.cons_append, List.takeWhile_append_dropWhile]
    have hrun : isIdentifier (c :: rest.takeWhile isIdentByte) = true := by
      rw [isIdentifier, hident, Bool.true_and, List.all_eq_true]
      exact fun b hb => List.mem_takeWhile_imp hb
    have hrest : Utf8.IsText (rest.dropWhile isIdentByte) := by
      apply isText_dropWhile (fun _ => isIdentByte_lt)
      exact Utf8.IsText.after_ascii (w := [c]) htext (by simp [(identStart_facts c hident).2.2])
    have hlexes := lexes_ident_of hrun (head_dropWhile rest) hrest.head
    rcases hdrop : rest.dropWhile isIdentByte with _ | ⟨d, tail⟩
    · rw [hdrop] at hsplit hlexes
      refine ⟨_, _, [], .inr (.inr rfl), rfl, hsplit, Nat.zero_le _, ?_⟩
      rw [← hsplit]
      exact hlexes.cons tokensOf_nil
    · have hmem : ∀ b ∈ d :: tail, b ∈ c :: rest := by
        intro b hb
        rw [← hsplit, hdrop]
        exact List.mem_append_right _ hb
      have hd : isIdentByte d = false := head_dropWhile rest d (by rw [hdrop]; rfl)
      have hd' : isAsciiDigit d = false ∧ isIdentStart d = false := by
        simp only [isIdentByte, isIdentStart, Bool.or_eq_false_iff] at hd ⊢
        exact ⟨hd.1.2, hd.1.1, hd.2⟩
      rw [hdrop] at hsplit hlexes hrest
      have hbare := lexes_bareword (t := []) (hstart (hmem d List.mem_cons_self) hd'.1 hd'.2)
        (hrest.head d rfl) (fun b hb => (hw.bytes b (hmem b (List.mem_cons_of_mem _ hb))).1) hnil
      have htail := hbare.cons tokensOf_nil
      rw [List.append_nil] at htail
      refine ⟨.ident (c :: rest.takeWhile isIdentByte), c :: rest.takeWhile isIdentByte,
        [d :: tail], .inr (.inr rfl), rfl, ?_, Nat.le_refl _, ?_⟩
      · rw [List.flatten_singleton, hsplit]
      · rw [← hsplit]
        exact hlexes.cons htail
  · have hbare := lexes_bareword (t := [])
      (hstart List.mem_cons_self (hw.no_digit c rfl) (Bool.eq_false_iff.mpr hident))
      (htext.head c rfl) (fun b hb => (hw.bytes b (List.mem_cons_of_mem _ hb)).1) hnil
    have htokens := hbare.cons tokensOf_nil
    rw [List.append_nil] at htokens
    refine ⟨_, _, [], .inr (.inl rfl), hw.not_numeric, ?_, Nat.zero_le _, htokens⟩
    rw [List.flatten_nil, List.append_nil]

theorem le_length_latin1 (bytes : Str) : bytes.length ≤ (latin1 bytes).length := by
  induction bytes with
  | nil => exact Nat.le_refl _
  | cons b bytes ih =>
    have hpush : 1 ≤ (pushByteAsChar [] b).length := by
      unfold pushByteAsChar
      split
      · exact Nat.le_refl _
      · exact Nat.le_succ _
    rw [latin1, List.flatMap_cons, ← latin1, List.length_append, List.length_cons]
    omega

/-- Only of ASCII bytes each one is its own character. -/
theorem latin1_eq_iff {bytes : Str} : latin1 bytes = bytes ↔ IsAscii bytes := by
  constructor
  · intro h
    induction bytes with
    | nil =>
      intro b hb
      cases hb
    | cons b bytes ih =>
      have hle := le_length_latin1 bytes
      have hcons : latin1 (b :: bytes) = pushByteAsChar [] b ++ latin1 bytes := rfl
      rw [hcons, pushByteAsChar] at h
      by_cases hb : b < 0x80
      · rw [if_pos hb] at h
        intro c hc
        rcases List.mem_cons.mp hc with rfl | hc
        · exact hb
        · exact ih (List.cons.inj h).2 c hc
      · rw [if_neg hb] at h
        have hlen := congrArg List.length h
        simp only [List.length_append, List.length_cons, List.length_nil] at hlen
        omega
  · exact latin1_ascii

theorem selects_quoted_iff {field gap gap' : Str} (hfield : isIdentifier field = true)
    (hgap : ∀ b ∈ gap, isAsciiWhitespace b = true) (hgap' : ∀ b ∈ gap', isAsciiWhitespace b = true)
    {q : UInt8} (hq : isQuote q = true) (bytes : Str) :
    Selects (comparison field gap gap' (quoteFor q bytes)) field bytes ↔ IsAscii bytes := by
  have htokens := (lexes_quoteFor hq bytes []).cons tokensOf_nil
  rw [List.append_nil] at htokens
  obtain ⟨span, hparse⟩ := @parseFilter_comparison _ _ _ _ _ _ [] hfield hgap hgap' (.inl rfl)
    rfl (Nat.zero_le _) htokens
  rw [List.flatten_nil, List.append_nil] at hparse
  rw [selects_iff hparse, latin1_eq_iff]

theorem selects_word {field gap gap' w : Str} (hfield : isIdentifier field = true)
    (hgap : ∀ b ∈ gap, isAsciiWhitespace b = true) (hgap' : ∀ b ∈ gap', isAsciiWhitespace b = true)
    (hw : Word w) (htext : Utf8.IsText w) : Selects (comparison field gap gap' w) field w := by
  obtain ⟨k, s, bs, hk, hnum, hpattern, hbs, htokens⟩ := tokensOf_word hw htext
  obtain ⟨span, hparse⟩ := parseFilter_comparison hfield hgap hgap' hk hnum hbs htokens
  exact (selects_iff hparse).mpr hpattern

/-- In quotes of both kinds a text selects exactly its UTF-8 bytes, and the same values as without
quotes, where it can stand without them, if and only if all its characters are ASCII. -/
theorem quoted_selects_iff (field gap gap' : Str) (hfield : isIdentifier field = true)
    (hgap : ∀ b ∈ gap, isAsciiWhitespace b = true) (hgap' : ∀ b ∈ gap', isAsciiWhitespace b = true)
    (s : Utf8.Str) :
    (∀ q, isQuote q = true →
      Selects (comparison field gap gap' (quoteFor q (Utf8.encode s))) field (Utf8.encode s) ∧
        (Word (Utf8.encode s) →
          SameValues (comparison field gap gap' (quoteFor q (Utf8.encode s)))
            (comparison field gap gap' (Utf8.encode s)) field)) ↔ Utf8.Ascii s := by
  rw [Utf8.ascii_iff]
  constructor
  · intro h
    exact (selects_quoted_iff hfield hgap hgap' (q := doubleQuote) rfl _).mp (h doubleQuote rfl).1
  · intro h q hq
    have hquoted := (selects_quoted_iff hfield hgap hgap' hq _).mpr h
    exact ⟨hquoted, fun hw => hquoted.same (selects_word hfield hgap hgap' hw ⟨s, rfl⟩)⟩

theorem quoted_selects_ba : Utf8.Ascii ['b', 'a'] ∧ ∀ q, isQuote q = true →
    Selects (comparison (ascii "comm") (ascii " ") (ascii " ") (quoteFor q (Utf8.encode ['b', 'a'])))
        (ascii "comm") (Utf8.encode ['b', 'a']) ∧
      (Word (Utf8.encode ['b', 'a']) →
        SameValues
          (comparison (ascii "comm") (ascii " ") (ascii " ") (quoteFor q (Utf8.encode ['b', 'a'])))
          (comparison (ascii "comm") (ascii " ") (ascii " ") (Utf8.encode ['b', 'a']))
          (ascii "comm")) := by
  have hspace : ∀ b ∈ ascii " ", isAsciiWhitespace b = true := by
    intro b hb
    rw [List.mem_singleton.mp hb]
    rfl
  have hascii : Utf8.Ascii ['b', 'a'] := by decide
  exact ⟨hascii, (quoted_selects_iff (ascii "comm") (ascii " ") (ascii " ") rfl hspace hspace _).mpr
    hascii⟩

/-- The two bytes of `é` become two characters, and four bytes. -/
theorem quoted_selects_accent :
    ¬ ∀ (field gap gap' : Str), isIdentifier field = true →
      (∀ b ∈ gap, isAsciiWhitespace b = true) → (∀ b ∈ gap', isAsciiWhitespace b = true) →
        ∀ (s : Utf8.Str) (q : UInt8), isQuote q = true →
          Selects (comparison field gap gap' (quoteFor q (Utf8.encode s))) field (Utf8.encode s) := by
  intro h
  have hselects := h (ascii "comm") [] [] rfl (by simp) (by simp) ['é'] doubleQuote rfl
  have hascii := (@selects_quoted_iff (ascii "comm") [] [] rfl (by simp) (by simp) doubleQuote rfl
    (Utf8.encode ['é'])).mp hselects
  exact absurd (hascii 0xC3 (by decide)) (by decide)

end ExtKtrace.TpLexer.QuotedText
