import ExtKtrace.Ddebug.Query
import Mathlib.Data.List.Basic

/-!
# Command lines

What the tokenizer has read when it stands between two command lines, and how the lines of texts
that are written one behind the other add up.
-/

namespace ExtKtrace.Ddebug
set_option autoImplicit false

/-- Behind other lines, the text is read as these lines; the end of the last one may be missing. -/
def Reads (text : Str) (lines : List (List Str)) : Prop :=
  ∀ commands, ∃ t, text.foldl Tokenizer.step ⟨commands, [], [], none, false⟩ = t ∧
    t.quote = none ∧ t.escape = false ∧
    t.finishToken.finishCommand = ⟨commands ++ lines, [], [], none, false⟩

/-- The last character is a backslash that stands outside quotes and is not escaped. -/
def EndsInBackslash (text : Str) : Prop :=
  ∃ front, text = front ++ [backslash] ∧
    (front.foldl Tokenizer.step Tokenizer.start).quote = none ∧
    (front.foldl Tokenizer.step Tokenizer.start).escape = false

theorem Reads.tokenize {text : Str} {lines : List (List Str)} (h : Reads text lines) :
    Ddebug.tokenize text = .ok lines := by
  obtain ⟨t, hfold, hquote, hescape, hfinish⟩ := h []
  have hstart : Tokenizer.start = ⟨[], [], [], none, false⟩ := rfl
  unfold Ddebug.tokenize
  rw [hstart, hfold]
  dsimp only
  rw [hquote, hescape, if_neg (by exact Bool.false_ne_true), if_neg Bool.false_ne_true, hfinish]
  rfl

/-- A separator ends the token and the line before it. -/
theorem step_separator {t : Tokenizer} (hquote : t.quote = none) (hescape : t.escape = false)
    {sep : Char} (hsep : sep = ';' ∨ sep = newline) :
    t.step sep = t.finishToken.finishCommand := by
  have hne : sep ≠ backslash ∧ ¬(sep = doubleQuote ∨ sep = singleQuote) := by
    rcases hsep with rfl | rfl <;> decide
  unfold Tokenizer.step
  rw [hescape, hquote, if_neg Bool.false_ne_true]
  dsimp only
  rw [if_neg hne.1, if_neg hne.2, if_pos hsep]

/-- Nothing of one text leaks over a separator into the next one. -/
theorem Reads.join {text text' : Str} {lines lines' : List (List Str)} {sep : Char}
    (hsep : sep = ';' ∨ sep = newline) (h : Reads text lines) (h' : Reads text' lines') :
    Reads (text ++ sep :: text') (lines ++ lines') := by
  intro commands
  obtain ⟨t, hfold, hquote, hescape, hfinish⟩ := h commands
  obtain ⟨t', hfold', hquote', hescape', hfinish'⟩ := h' (commands ++ lines)
  refine ⟨t', ?_, hquote', hescape', ?_⟩
  · rw [List.foldl_append, List.foldl_cons, hfold, step_separator hquote hescape hsep, hfinish,
      hfold']
  · rw [hfinish', List.append_assoc]

namespace Tokenizer

/-- The same with more commands before it. -/
def behind (commands : List (List Str)) (t : Tokenizer) : Tokenizer :=
  { t with commands := commands ++ t.commands }

theorem behind_finishToken (commands : List (List Str)) (t : Tokenizer) :
    (t.behind commands).finishToken = t.finishToken.behind commands := by
  unfold finishToken behind
  dsimp only
  split <;> rfl

theorem behind_finishCommand (commands : List (List Str)) (t : Tokenizer) :
    (t.behind commands).finishCommand = t.finishCommand.behind commands := by
  unfold finishCommand behind
  dsimp only
  split
  · rfl
  · rw [List.append_assoc]

/-- The tokenizer does not look at the commands it has. -/
theorem behind_step (commands : List (List Str)) (t : Tokenizer) (chr : Char) :
    (t.behind commands).step chr = (t.step chr).behind commands := by
  have hfields : (t.behind commands).escape = t.escape ∧ (t.behind commands).quote = t.quote :=
    ⟨rfl, rfl⟩
  unfold step
  rw [hfields.1, hfields.2, behind_finishToken, behind_finishCommand]
  split
  · rfl
  split
  · split
    · rfl
    split <;> rfl
  · split
    · rfl
    split
    · rfl
    split
    · rfl
    split <;> rfl

theorem behind_foldl (commands : List (List Str)) (text : Str) (t : Tokenizer) :
    text.foldl step (t.behind commands) = (text.foldl step t).behind commands := by
  induction text generalizing t with
  | nil => rfl
  | cons chr rest ih => rw [List.foldl_cons, List.foldl_cons, behind_step, ih]

theorem escape_finishToken (t : Tokenizer) : t.finishToken.escape = t.escape := by
  unfold finishToken
  split <;> rfl

theorem escape_finishCommand (t : Tokenizer) : t.finishCommand.escape = t.escape := by
  unfold finishCommand
  split <;> rfl

theorem escape_step_of_ne {t : Tokenizer} {chr : Char} (hescape : t.escape = false)
    (hchr : chr ≠ backslash) : (t.step chr).escape = false := by
  unfold step
  rw [if_neg (by rw [hescape]; exact Bool.false_ne_true)]
  split
  · rw [if_neg hchr]
    split
    · exact hescape
    · exact hescape
  · rw [if_neg hchr]
    split
    · exact hescape
    split
    · rw [escape_finishCommand, escape_finishToken, hescape]
    split
    · rw [escape_finishToken, hescape]
    · exact hescape

/-- Only a backslash that is not escaped itself escapes the next character. -/
theorem escape_of_step {t : Tokenizer} {chr : Char} (h : (t.step chr).escape = true) :
    t.escape = false ∧ chr = backslash ∧ (t.step chr).quote = t.quote := by
  obtain ⟨commands, current, token, quote, escape⟩ := t
  cases escape with
  | true => cases h
  | false =>
    by_cases hchr : chr = backslash
    · refine ⟨rfl, hchr, ?_⟩
      subst hchr
      cases quote <;> rfl
    · rw [escape_step_of_ne rfl hchr] at h
      cases h

end Tokenizer

theorem endsInBackslash_of_escape {text : Str}
    (hescape : (text.foldl Tokenizer.step Tokenizer.start).escape = true)
    (hquote : (text.foldl Tokenizer.step Tokenizer.start).quote = none) : EndsInBackslash text := by
  rcases List.eq_nil_or_concat' text with rfl | ⟨front, chr, rfl⟩
  · cases hescape
  · rw [List.foldl_append, List.foldl_cons, List.foldl_nil] at hescape hquote
    obtain ⟨hfree, rfl, hsame⟩ := Tokenizer.escape_of_step hescape
    exact ⟨front, rfl, hsame.symm.trans hquote, hfree⟩

theorem Tokenizer.finished {t : Tokenizer} (hquote : t.quote = none) (hescape : t.escape = false) :
    t.finishToken.finishCommand =
      ⟨t.finishToken.finishCommand.commands, [], [], none, false⟩ := by
  obtain ⟨commands, current, token, quote, escape⟩ := t
  cases hquote
  cases hescape
  by_cases htoken : token = []
  · by_cases hcurrent : current = [] <;> simp [finishToken, finishCommand, htoken, hcurrent]
  · simp [finishToken, finishCommand, htoken]

/-- A text that can be cut into lines is read the same way behind other lines. -/
theorem reads_of_tokenize {text : Str} {lines : List (List Str)} (h : tokenize text = .ok lines)
    (hend : ¬ EndsInBackslash text) : Reads text lines := by
  intro commands
  have hfold := Tokenizer.behind_foldl commands text Tokenizer.start
  have hstart : Tokenizer.start.behind commands = ⟨commands, [], [], none, false⟩ := by
    simp [Tokenizer.behind, Tokenizer.start]
  rw [hstart] at hfold
  unfold tokenize at h
  dsimp only at h
  split at h
  · cases h
  · rename_i hopen
    have hquote : (text.foldl Tokenizer.step Tokenizer.start).quote = none := by
      simpa using hopen
    have hescape : (text.foldl Tokenizer.step Tokenizer.start).escape = false := by
      apply Bool.eq_false_iff.mpr
      exact fun htrue => hend (endsInBackslash_of_escape htrue hquote)
    rw [if_neg (by rw [hescape]; exact Bool.false_ne_true)] at h
    refine ⟨_, hfold, hquote, hescape, ?_⟩
    rw [Tokenizer.behind_finishToken, Tokenizer.behind_finishCommand,
      Tokenizer.finished hquote hescape, Except.ok.inj h]
    rfl

/-- What `tokenize` makes of the end of its input. -/
def Tokenizer.result (t : Tokenizer) : Except Error (List (List Str)) :=
  if t.quote.isSome then
    .error ⟨"unterminated quoted string in dynamic debug command".toList⟩
  else
    let t := if t.escape then t.push backslash else t
    .ok t.finishToken.finishCommand.commands

theorem tokenize_eq (text : Str) :
    tokenize text = (text.foldl Tokenizer.step Tokenizer.start).result := rfl

theorem Tokenizer.behind_result (commands : List (List Str)) (t : Tokenizer) :
    (t.behind commands).result = t.result.map (commands ++ ·) := by
  have hfields : (t.behind commands).quote = t.quote ∧ (t.behind commands).escape = t.escape ∧
      (t.behind commands).push backslash = (t.push backslash).behind commands := ⟨rfl, rfl, rfl⟩
  unfold result
  rw [hfields.1, hfields.2.1, hfields.2.2]
  split
  · rfl
  · dsimp only
    split
    · rw [behind_finishToken, behind_finishCommand]
      rfl
    · rw [behind_finishToken, behind_finishCommand]
      rfl

/-- Behind a text and a separator, the next text is cut as it is by itself. -/
theorem Reads.tokenize_join {text : Str} {lines : List (List Str)} {sep : Char}
    (hsep : sep = ';' ∨ sep = newline) (h : Reads text lines) (text' : Str) :
    Ddebug.tokenize (text ++ sep :: text') = (Ddebug.tokenize text').map (lines ++ ·) := by
  obtain ⟨t, hfold, hquote, hescape, hfinish⟩ := h []
  have hbehind : t.step sep = Tokenizer.start.behind lines := by
    rw [step_separator hquote hescape hsep, hfinish]
    simp [Tokenizer.behind, Tokenizer.start]
  have hstart : text.foldl Tokenizer.step Tokenizer.start = t := hfold
  rw [tokenize_eq, tokenize_eq, List.foldl_append, List.foldl_cons, hstart, hbehind,
    Tokenizer.behind_foldl, Tokenizer.behind_result]

end ExtKtrace.Ddebug
