import ExtKtrace.Ddebug.Lines
import Mathlib.Data.Bool.AllAny
import Mathlib.Data.List.Forall2

/-!
# Printed commands

How commands are written so that `parse_commands` reads them back: values in double quotes,
with a backslash before each backslash and each double quote.
-/

namespace ExtKtrace.Ddebug
set_option autoImplicit false

def escapeChar (chr : Char) : Str :=
  if chr = backslash ∨ chr = doubleQuote then [backslash, chr] else [chr]

def inQuotes (value : Str) : Str := doubleQuote :: (value.flatMap escapeChar ++ [doubleQuote])

def LineRange.text (range : LineRange) : Str :=
  Nat.toDigits 10 range.start.toNat ++ '-' :: Nat.toDigits 10 range.stop.toNat

namespace Selector

def keyword : Selector → Str
  | file _ => "file".toList
  | func _ => "func".toList
  | module _ => "module".toList
  | line _ => "line".toList
  | format _ => "format".toList

def value : Selector → Str
  | file pattern => pattern
  | func pattern => pattern
  | module pattern => pattern
  | line range => range.text
  | format pattern => pattern

/-- The two words of a selector as they are written, and the tokens they stand for. -/
def words (s : Selector) : List Str := [s.keyword, inQuotes s.value]

def tokens (s : Selector) : List Str := [s.keyword, s.value]

end Selector

/-- The flags that a mask holds, in the order in which the kernel prints them. -/
def flagChars (mask : UInt8) : Str :=
  "ptmfsl".toList.filter fun chr => (flagMaskFor chr).any fun flag => mask &&& flag ≠ 0

def FlagOp.text (op : FlagOp) : Str :=
  match op.kind with
  | .add => '+' :: flagChars op.mask
  | .remove => '-' :: flagChars op.mask
  | .replace => if op.mask = 0 then "=_".toList else '=' :: flagChars op.mask

/-- A command, and the number of its selectors that are written before the flag operation. -/
structure Printed where
  command : Command
  position : Nat

namespace Printed
variable (p : Printed)

def before : List Selector := p.command.selectors.take p.position

def after : List Selector := p.command.selectors.drop p.position

def words : List Str :=
  p.before.flatMap Selector.words ++ p.command.operation.text :: p.after.flatMap Selector.words

def tokens : List Str :=
  p.before.flatMap Selector.tokens ++ p.command.operation.text :: p.after.flatMap Selector.tokens

end Printed

def joinWords : List Str → Str
  | [] => []
  | [word] => word
  | word :: words => word ++ ' ' :: joinWords words

def printCommand (p : Printed) : Str := joinWords p.words

/-- The commands in a row, each but the first behind its separator. -/
def printCommands (first : Printed) (rest : List (Char × Printed)) : Str :=
  printCommand first ++ rest.flatMap fun e => e.1 :: printCommand e.2

/-- What can be said in the command language: no empty pattern, only the six flags, and some flag
to add or to remove. -/
structure Command.Printable (c : Command) : Prop where
  values : ∀ s ∈ c.selectors, s.value ≠ []
  known : c.operation.mask &&& ~~~63 = 0
  flags : c.operation.mask = 0 → c.operation.kind = .replace

/-- Outside quotes, the text adds the token to what has been read of one. -/
def Spells (text token : Str) : Prop :=
  ∀ commands current read, text.foldl Tokenizer.step ⟨commands, current, read, none, false⟩ =
    ⟨commands, current, read ++ token, none, false⟩

/-- A character with no meaning of its own outside quotes. -/
def Plain (chr : Char) : Prop :=
  chr ≠ backslash ∧ chr ≠ doubleQuote ∧ chr ≠ singleQuote ∧ chr ≠ ';' ∧ chr ≠ newline ∧
    isWhitespace chr = false

instance (chr : Char) : Decidable (Plain chr) :=
  inferInstanceAs (Decidable (_ ∧ _ ∧ _ ∧ _ ∧ _ ∧ _))

theorem spells_plain {text : Str} (h : ∀ chr ∈ text, Plain chr) : Spells text text := by
  intro commands current read
  induction text generalizing read with
  | nil => rw [List.append_nil, List.foldl_nil]
  | cons chr rest ih =>
    obtain ⟨hslash, hdouble, hsingle, hsemi, hnewline, hspace⟩ := h chr List.mem_cons_self
    have hstep : Tokenizer.step ⟨commands, current, read, none, false⟩ chr =
        ⟨commands, current, read ++ [chr], none, false⟩ := by
      simp [Tokenizer.step, hslash, hdouble, hsingle, hsemi, hnewline, hspace, Tokenizer.push]
    rw [List.foldl_cons, hstep, ih (fun c hc => h c (List.mem_cons_of_mem _ hc)),
      List.append_assoc]
    rfl

/-- Inside double quotes every value is spelled by its escaped form. -/
theorem foldl_escaped (value : Str) (commands : List (List Str)) (current : List Str)
    (read : Str) :
    (value.flatMap escapeChar).foldl Tokenizer.step
        ⟨commands, current, read, some doubleQuote, false⟩ =
      ⟨commands, current, read ++ value, some doubleQuote, false⟩ := by
  induction value generalizing read with
  | nil => rw [List.flatMap_nil, List.append_nil, List.foldl_nil]
  | cons chr rest ih =>
    have hchr : (escapeChar chr).foldl Tokenizer.step
        ⟨commands, current, read, some doubleQuote, false⟩ =
          ⟨commands, current, read ++ [chr], some doubleQuote, false⟩ := by
      unfold escapeChar
      split
      · rfl
      · rename_i hplain
        rw [not_or] at hplain
        simp [Tokenizer.step, hplain.1, hplain.2, Tokenizer.push]
    rw [List.flatMap_cons, List.foldl_append, hchr, ih, List.append_assoc]
    rfl

theorem spells_inQuotes (value : Str) : Spells (inQuotes value) value := by
  intro commands current read
  have hopen : Tokenizer.step ⟨commands, current, read, none, false⟩ doubleQuote =
      ⟨commands, current, read, some doubleQuote, false⟩ := rfl
  unfold inQuotes
  rw [List.foldl_cons, hopen, List.foldl_append, foldl_escaped]
  rfl

theorem keyword_mem (s : Selector) : s.keyword ∈
    ["file".toList, "func".toList, "module".toList, "line".toList, "format".toList] := by
  cases s with
  | file => exact .head _
  | func => exact .tail _ (.head _)
  | module => exact .tail _ (.tail _ (.head _))
  | line => exact .tail _ (.tail _ (.tail _ (.head _)))
  | format => exact .tail _ (.tail _ (.tail _ (.tail _ (.head _))))

theorem spells_keyword (s : Selector) : Spells s.keyword s.keyword := by
  have hall : ∀ chr ∈ ["file".toList, "func".toList, "module".toList, "line".toList,
      "format".toList].flatten, Plain chr := List.all_iff_forall_prop.mp (by decide)
  exact spells_plain fun chr hchr => hall chr (List.mem_flatten_of_mem (keyword_mem s) hchr)

theorem spells_operation (op : FlagOp) : Spells op.text op.text := by
  apply spells_plain
  have hletters : ∀ chr ∈ flagChars op.mask, Plain chr := by
    intro chr hchr
    have hall : ∀ c ∈ "ptmfsl".toList, Plain c :=
      List.all_iff_forall_prop.mp (by decide)
    exact hall chr (List.mem_of_mem_filter hchr)
  intro chr hchr
  unfold FlagOp.text at hchr
  split at hchr
  · rcases List.mem_cons.mp hchr with rfl | hchr
    · decide
    · exact hletters chr hchr
  · rcases List.mem_cons.mp hchr with rfl | hchr
    · decide
    · exact hletters chr hchr
  · split at hchr
    · have hall : ∀ c ∈ "=_".toList, Plain c :=
        List.all_iff_forall_prop.mp (by decide)
      exact hall chr hchr
    · rcases List.mem_cons.mp hchr with rfl | hchr
      · decide
      · exact hletters chr hchr

theorem spells_selectors (l : List Selector) :
    List.Forall₂ Spells (l.flatMap Selector.words) (l.flatMap Selector.tokens) := by
  induction l with
  | nil => exact .nil
  | cons s rest ih => exact .cons (spells_keyword s) (.cons (spells_inQuotes s.value) ih)

theorem spells_words (p : Printed) : List.Forall₂ Spells p.words p.tokens :=
  List.rel_append (spells_selectors p.before)
    (.cons (spells_operation p.command.operation) (spells_selectors p.after))

/-- Behind the words of a line all that is missing is the end of its last token; an empty token is
passed over. -/
theorem foldl_words {words tokens : List Str} (h : List.Forall₂ Spells words tokens)
    (commands : List (List Str)) (current : List Str) :
    ∃ t, (joinWords words).foldl Tokenizer.step ⟨commands, current, [], none, false⟩ = t ∧
      t.quote = none ∧ t.escape = false ∧
      t.finishToken = ⟨commands, current ++ tokens.filter (· ≠ []), [], none, false⟩ := by
  have hfinish : ∀ (current : List Str) (token : Str),
      Tokenizer.finishToken ⟨commands, current, token, none, false⟩ =
        ⟨commands, current ++ [token].filter (· ≠ []), [], none, false⟩ := by
    intro current token
    by_cases htoken : token = [] <;> simp [Tokenizer.finishToken, htoken]
  induction h generalizing current with
  | nil => exact ⟨_, rfl, rfl, rfl, by rw [List.filter_nil, List.append_nil]; rfl⟩
  | @cons word token words tokens hword hwords ih =>
    cases hwords with
    | nil => exact ⟨_, hword commands current [], rfl, rfl, hfinish current token⟩
    | @cons word' token' words tokens hword' hwords =>
      have hspace : Tokenizer.step ⟨commands, current, token, none, false⟩ ' ' =
          ⟨commands, current ++ [token].filter (· ≠ []), [], none, false⟩ := hfinish current token
      obtain ⟨t, hfold, hquote, hescape, ht⟩ := ih (current ++ [token].filter (· ≠ []))
      refine ⟨t, ?_, hquote, hescape, ?_⟩
      · show (word ++ ' ' :: joinWords (word' :: words)).foldl _ _ = _
        rw [List.foldl_append, hword, List.foldl_cons, List.nil_append, hspace]
        exact hfold
      · rw [ht, List.append_assoc, ← List.filter_append]
        rfl

theorem tokens_ne_nil (p : Printed) : p.tokens ≠ [] := by
  simp [Printed.tokens]

theorem token_ne_nil {p : Printed} (h : p.command.Printable) : ∀ t ∈ p.tokens, t ≠ [] := by
  have hselectors : ∀ l : List Selector, (∀ s ∈ l, s ∈ p.command.selectors) →
      ∀ t ∈ l.flatMap Selector.tokens, t ≠ [] := by
    intro l hl t ht
    obtain ⟨s, hs, hts⟩ := List.mem_flatMap.mp ht
    rcases List.mem_cons.mp hts with rfl | hts
    · cases s <;> exact List.cons_ne_nil _ _
    · rw [List.mem_singleton.mp hts]
      exact h.values s (hl s hs)
  intro t ht
  rcases List.mem_append.mp ht with ht | ht
  · exact hselectors _ (fun s hs => List.mem_of_mem_take hs) t ht
  rcases List.mem_cons.mp ht with rfl | ht
  · unfold FlagOp.text
    split
    · exact List.cons_ne_nil _ _
    · exact List.cons_ne_nil _ _
    · split <;> exact List.cons_ne_nil _ _
  · exact hselectors _ (fun s hs => List.mem_of_mem_drop hs) t ht

/-- A line is read as its tokens, the empty ones left out; without tokens it is no line. -/
theorem reads_words {words tokens : List Str} (h : List.Forall₂ Spells words tokens) :
    Reads (joinWords words) ([tokens.filter (· ≠ [])].filter (· ≠ [])) := by
  intro commands
  obtain ⟨t, hfold, hquote, hescape, ht⟩ := foldl_words h commands []
  refine ⟨t, hfold, hquote, hescape, ?_⟩
  rw [ht, List.nil_append]
  generalize tokens.filter (· ≠ []) = line
  by_cases hline : line = [] <;> simp [Tokenizer.finishCommand, hline]

theorem reads_command {p : Printed} (h : p.command.Printable) :
    Reads (printCommand p) [p.tokens] := by
  have htokens : p.tokens.filter (· ≠ []) = p.tokens :=
    List.filter_eq_self.mpr fun token hmem => decide_eq_true (token_ne_nil h token hmem)
  have hread := reads_words (spells_words p)
  rw [htokens, List.filter_cons_of_pos (by simpa using tokens_ne_nil p)] at hread
  exact hread

/-- Printed commands go on behind any text that is read. -/
theorem Reads.commands {rest : List (Char × Printed)}
    (hsep : ∀ e ∈ rest, e.1 = ';' ∨ e.1 = newline) (hrest : ∀ e ∈ rest, e.2.command.Printable)
    {text : Str} {lines : List (List Str)} (h : Reads text lines) :
    Reads (text ++ rest.flatMap fun e => e.1 :: printCommand e.2)
      (lines ++ rest.map fun e => e.2.tokens) := by
  induction rest generalizing text lines with
  | nil =>
    rw [List.flatMap_nil, List.map_nil, List.append_nil, List.append_nil]
    exact h
  | cons e rest ih =>
    have hjoin := h.join (hsep e List.mem_cons_self) (reads_command (hrest e List.mem_cons_self))
    have hall := ih (fun x hx => hsep x (List.mem_cons_of_mem _ hx))
      (fun x hx => hrest x (List.mem_cons_of_mem _ hx)) hjoin
    simpa using hall

theorem tokenize_printCommands {first : Printed} {rest : List (Char × Printed)}
    (hfirst : first.command.Printable) (hsep : ∀ e ∈ rest, e.1 = ';' ∨ e.1 = newline)
    (hrest : ∀ e ∈ rest, e.2.command.Printable) :
    tokenize (printCommands first rest) =
      .ok (first.tokens :: rest.map fun e => e.2.tokens) :=
  ((reads_command hfirst).commands hsep hrest).tokenize

theorem ofDigitChars_ge (digits : Str) (n : Nat) : n ≤ Nat.ofDigitChars 10 digits n := by
  rw [Nat.ofDigitChars_eq_ofDigitChars_zero]
  have hpow : 1 ≤ 10 ^ digits.length := Nat.one_le_pow _ _ (by decide)
  calc n = 1 * n := (Nat.one_mul n).symm
    _ ≤ 10 ^ digits.length * n := Nat.mul_le_mul_right n hpow
    _ ≤ _ := Nat.le_add_right _ _

theorem digitsU32_eq {digits : Str} {n : Nat} (hdigits : ∀ c ∈ digits, c.isDigit)
    (hlt : Nat.ofDigitChars 10 digits n < 2 ^ 32) :
    digitsU32 n digits = some (Nat.ofDigitChars 10 digits n) := by
  induction digits generalizing n with
  | nil => rfl
  | cons c rest ih =>
    have hnext : Nat.ofDigitChars 10 (c :: rest) n =
        Nat.ofDigitChars 10 rest (n * 10 + (c.toNat - 48)) := by
      rw [Nat.ofDigitChars_cons, Nat.mul_comm]
      rfl
    rw [hnext] at hlt ⊢
    have hle := ofDigitChars_ge rest (n * 10 + (c.toNat - 48))
    unfold digitsU32
    rw [if_pos (hdigits c List.mem_cons_self)]
    dsimp only
    rw [if_pos (Nat.lt_of_le_of_lt hle hlt)]
    exact ih (fun d hd => hdigits d (List.mem_cons_of_mem _ hd)) hlt

theorem isDigit_of_mem {n : Nat} {c : Char} (hc : c ∈ Nat.toDigits 10 n) : c.isDigit :=
  Nat.isDigit_of_mem_toDigits (by decide) (by decide) hc

theorem parseU32_toDigits (n : UInt32) (what : String) :
    parseU32 (Nat.toDigits 10 n.toNat) what = .ok n := by
  have hread : digitsU32 0 (Nat.toDigits 10 n.toNat) = some n.toNat := by
    rw [digitsU32_eq (fun _ => isDigit_of_mem) (by rw [Nat.ofDigitChars_ten_toDigits]; exact n.toNat_lt),
      Nat.ofDigitChars_ten_toDigits]
  have hparse : parseDigits (Nat.toDigits 10 n.toNat) = some n := by
    unfold parseDigits
    split
    · rename_i hnil
      exact absurd hnil Nat.toDigits_ne_nil
    · rename_i c rest hcons
      have hc : c.isDigit := by
        apply isDigit_of_mem (n := n.toNat)
        rw [hcons]
        exact List.mem_cons_self
      have hplus : c ≠ '+' := by
        rintro rfl
        cases hc
      rw [if_neg hplus, hread]
      exact congrArg some UInt32.ofNat_toNat
  unfold parseU32
  rw [hparse]

theorem splitOnce_eq {sep : Char} {start stop : Str} (h : sep ∉ start) :
    splitOnce sep (start ++ sep :: stop) = some (start, stop) := by
  induction start with
  | nil => exact if_pos rfl
  | cons c rest ih =>
    have hne : c ≠ sep := fun heq => h (heq ▸ List.mem_cons_self)
    show (if c = sep then _ else (splitOnce sep (rest ++ sep :: stop)).map _) = _
    rw [if_neg hne, ih fun hmem => h (List.mem_cons_of_mem _ hmem)]
    rfl

theorem parseLineRange_text (range : LineRange) : parseLineRange range.text = .ok range := by
  have hnot : '-' ∉ Nat.toDigits 10 range.start.toNat := by
    intro hmem
    cases isDigit_of_mem hmem
  unfold parseLineRange LineRange.text
  rw [splitOnce_eq hnot]
  dsimp only
  rw [parseU32_toDigits, parseU32_toDigits]
  show (if h : range.start ≤ range.stop then (pure ⟨range.start, range.stop, h⟩ : Except Error LineRange)
    else _) = _
  rw [dif_pos range.le]
  rfl

theorem selectorFor_keyword (s : Selector) :
    isFlagToken s.keyword = false ∧
      ∃ make, selectorFor s.keyword = some make ∧ make s.value = .ok s := by
  cases s with
  | file pattern => exact ⟨rfl, _, rfl, rfl⟩
  | func pattern => exact ⟨rfl, _, rfl, rfl⟩
  | module pattern => exact ⟨rfl, _, rfl, rfl⟩
  | line range =>
    refine ⟨rfl, _, rfl, ?_⟩
    show (parseLineRange range.text).map Selector.line = _
    rw [parseLineRange_text]
    rfl
  | format pattern => exact ⟨rfl, _, rfl, rfl⟩

theorem parseTokens_selectors (l : List Selector) (selectors : List Selector)
    (operation : Option FlagOp) (rest : List Str) :
    parseTokens selectors operation (l.flatMap Selector.tokens ++ rest) =
      parseTokens (selectors ++ l) operation rest := by
  induction l generalizing selectors with
  | nil => rw [List.append_nil, List.flatMap_nil, List.nil_append]
  | cons s l ih =>
    obtain ⟨hflag, make, hmake, hvalue⟩ := selectorFor_keyword s
    show parseTokens selectors operation
      (s.keyword :: s.value :: (l.flatMap Selector.tokens ++ rest)) = _
    rw [parseTokens.eq_def]
    dsimp only
    rw [if_neg (by rw [hflag]; exact Bool.false_ne_true), hmake]
    dsimp only
    rw [hvalue]
    show parseTokens (selectors ++ [s]) operation (l.flatMap Selector.tokens ++ rest) = _
    rw [ih, List.append_assoc]
    rfl

/-- Reading letters adds up their flags. -/
theorem parseMask_eq (token : Str) {letters : Str} (mask : UInt8)
    (h : ∀ c ∈ letters, c ∈ "ptmfsl".toList) :
    parseMask token mask letters =
      .ok (letters.foldl (fun m c => m ||| (flagMaskFor c).getD 0) mask) := by
  induction letters generalizing mask with
  | nil => rfl
  | cons c rest ih =>
    have hc : c ≠ '_' ∧ (flagMaskFor c).isSome := by
      have hall : ∀ c ∈ "ptmfsl".toList, c ≠ '_' ∧ (flagMaskFor c).isSome :=
        List.all_iff_forall_prop.mp (by decide)
      exact hall c (h c List.mem_cons_self)
    obtain ⟨flag, hflag⟩ := Option.isSome_iff_exists.mp hc.2
    unfold parseMask
    rw [if_neg hc.1, hflag, List.foldl_cons, hflag]
    exact ih (mask ||| flag) fun d hd => h d (List.mem_cons_of_mem _ hd)

theorem known_lt {mask : UInt8} (h : mask &&& ~~~63 = 0) : ∃ n < 64, mask = UInt8.ofNat n := by
  have hall : ∀ n < 256, UInt8.ofNat n &&& ~~~63 = 0 → n < 64 := by decide +kernel
  have hmask : mask = UInt8.ofNat mask.toNat := UInt8.ofNat_toNat.symm
  refine ⟨mask.toNat, ?_, hmask⟩
  apply hall mask.toNat mask.toNat_lt
  rw [← hmask]
  exact h

/-- The letters of a mask add up to it. -/
theorem parseMask_flagChars (token : Str) {mask : UInt8} (h : mask &&& ~~~63 = 0) :
    parseMask token 0 (flagChars mask) = .ok mask := by
  obtain ⟨n, hn, rfl⟩ := known_lt h
  have hletters : ∀ c ∈ flagChars (.ofNat n), c ∈ "ptmfsl".toList := fun c hc =>
    List.mem_of_mem_filter hc
  rw [parseMask_eq token 0 hletters]
  have hall : ∀ n < 64, (flagChars (.ofNat n)).foldl
      (fun m c => m ||| (flagMaskFor c).getD 0) 0 = UInt8.ofNat n := by decide +kernel
  rw [hall n hn]

theorem flagChars_ne_nil {mask : UInt8} (h : mask &&& ~~~63 = 0) (hne : mask ≠ 0) :
    flagChars mask ≠ [] := by
  obtain ⟨n, hn, rfl⟩ := known_lt h
  have hall : ∀ n < 64, UInt8.ofNat n ≠ 0 → flagChars (.ofNat n) ≠ [] := by decide +kernel
  exact hall n hn hne

/-- The operation that a sign makes of the letters behind it. -/
theorem parseFlagOp_letters {kind : FlagOpKind} {head : Char} {mask : UInt8}
    (hmask : mask &&& ~~~63 = 0) (hne : mask ≠ 0)
    (hhead : (kind = .add ∧ head = '+') ∨ (kind = .remove ∧ head = '-') ∨
      (kind = .replace ∧ head = '=')) :
    parseFlagOp (head :: flagChars mask) = pure ⟨kind, mask⟩ := by
  have hletters := flagChars_ne_nil hmask hne
  have hunderscore : flagChars mask ≠ ['_'] := by
    intro heq
    have hmem : '_' ∈ flagChars mask := by
      rw [heq]
      exact List.mem_cons_self
    have hall : '_' ∉ "ptmfsl".toList := by decide +kernel
    exact hall (List.mem_of_mem_filter hmem)
  unfold parseFlagOp
  dsimp only
  rw [if_neg fun h => hunderscore h.2, if_neg hletters, parseMask_flagChars _ hmask]
  rcases hhead with ⟨rfl, rfl⟩ | ⟨rfl, rfl⟩ | ⟨rfl, rfl⟩ <;> rfl

theorem operation_text {op : FlagOp} (hmask : op.mask &&& ~~~63 = 0)
    (hflags : op.mask = 0 → op.kind = .replace) :
    isFlagToken op.text = true ∧ parseFlagOp op.text = pure op := by
  obtain ⟨kind, mask⟩ := op
  by_cases hzero : mask = 0
  · subst hzero
    cases hflags rfl
    exact ⟨rfl, rfl⟩
  · cases kind with
    | add => exact ⟨rfl, parseFlagOp_letters hmask hzero (.inl ⟨rfl, rfl⟩)⟩
    | remove => exact ⟨rfl, parseFlagOp_letters hmask hzero (.inr (.inl ⟨rfl, rfl⟩))⟩
    | replace =>
      have htext : FlagOp.text ⟨.replace, mask⟩ = '=' :: flagChars mask := if_neg hzero
      rw [htext]
      exact ⟨rfl, parseFlagOp_letters hmask hzero (.inr (.inr ⟨rfl, rfl⟩))⟩

theorem parseCommand_tokens {p : Printed} (h : p.command.Printable) :
    parseCommand p.tokens = pure p.command := by
  obtain ⟨hflag, hop⟩ := operation_text h.known h.flags
  unfold parseCommand Printed.tokens
  rw [parseTokens_selectors, List.nil_append, parseTokens.eq_def]
  dsimp only
  rw [if_pos hflag, hop]
  show parseTokens p.before (some p.command.operation) (p.after.flatMap Selector.tokens) = _
  rw [← List.append_nil (p.after.flatMap Selector.tokens), parseTokens_selectors]
  unfold Printed.before Printed.after
  rw [List.take_append_drop]
  rfl

theorem parseLines_tokens (l : List Printed) (h : ∀ p ∈ l, p.command.Printable) :
    parseLines (l.map Printed.tokens) = pure (l.map Printed.command) := by
  induction l with
  | nil => rfl
  | cons p rest ih =>
    rw [List.map_cons, parseLines, parseCommand_tokens (h p List.mem_cons_self),
      ih fun q hq => h q (List.mem_cons_of_mem _ hq)]
    rfl

/-- What is printed is read back, command by command. -/
theorem parseCommands_printCommands (first : Printed) (rest : List (Char × Printed))
    (hfirst : first.command.Printable) (hsep : ∀ e ∈ rest, e.1 = ';' ∨ e.1 = newline)
    (hrest : ∀ e ∈ rest, e.2.command.Printable) :
    (parseCommands (printCommands first rest)).run =
      some (.ok (first.command :: rest.map fun e => e.2.command)) := by
  have hlines : parseLines (first.tokens :: rest.map fun e => e.2.tokens) =
      pure (first.command :: rest.map fun e => e.2.command) := by
    have hall := parseLines_tokens (first :: rest.map Prod.snd) ?_
    · simpa [List.map_map, Function.comp_def] using hall
    · intro p hp
      rcases List.mem_cons.mp hp with rfl | hp
      · exact hfirst
      · obtain ⟨e, he, rfl⟩ := List.mem_map.mp hp
        exact hrest e he
  unfold parseCommands
  rw [tokenize_printCommands hfirst hsep hrest]
  show ((if first.tokens :: rest.map (fun e => e.2.tokens) = [] then
    .fail "empty dynamic debug command".toList
    else parseLines (first.tokens :: rest.map fun e => e.2.tokens) : Parse _)).run = _
  rw [if_neg (List.cons_ne_nil _ _), hlines]
  rfl

/-- A value that looks like a flag operation behind a separator, and a command on the next line. -/
theorem parseCommands_printCommands_quoted :
    (parseCommands (printCommands
        ⟨⟨[.file "+p;\"x".toList, .line ⟨10, 12, by decide⟩], ⟨.add, FLAG_PRINT⟩⟩, 1⟩
        [(newline, ⟨⟨[.module "file".toList], ⟨.replace, 0⟩⟩, 1⟩)])).run =
      some (.ok [⟨[.file "+p;\"x".toList, .line ⟨10, 12, by decide⟩], ⟨.add, FLAG_PRINT⟩⟩,
        ⟨[.module "file".toList], ⟨.replace, 0⟩⟩]) := by
  apply parseCommands_printCommands
  · refine ⟨?_, rfl, fun h => by cases h⟩
    intro s hs
    rcases List.mem_cons.mp hs with rfl | hs
    · exact List.cons_ne_nil _ _
    · rw [List.mem_singleton.mp hs]
      decide
  · intro e he
    rw [List.mem_singleton.mp he]
    exact .inr rfl
  · intro e he
    rw [List.mem_singleton.mp he]
    refine ⟨?_, rfl, fun _ => rfl⟩
    intro s hs
    rw [List.mem_singleton.mp hs]
    exact List.cons_ne_nil _ _

end ExtKtrace.Ddebug
