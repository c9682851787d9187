import ExtKtrace.TpLexer.Eval
import ExtKtrace.TpLexer.RoundTrip
import ExtKtrace.TpLexer.Spelling

/-!
# The trees the parser returns

On every text the parser comes back: no slice panics, and `depthFor` is depth enough. Every token
is well formed, and on an ASCII input the levels of the grammar build canonical trees only.
-/

namespace ExtKtrace.TpLexer.Accepted
set_option autoImplicit false

open Call Utf8

-- What is asked of single bytes is asked under `asc` alone: `False` stands for any text.
variable {asc : Prop}

def ValidKind (asc : Prop) : TokenKind → Prop
  | .ident s => isIdentifier s = true
  | .string s | .bareword s => asc → IsAscii s
  | _ => True

/-- What a token counts for in the bound on what is ahead. -/
def weight : TokenKind → Nat
  | .eof => 0
  | _ => 1

theorem weight_eq_one {kind : TokenKind} (h : kind ≠ .eof) : weight kind = 1 := by
  cases kind <;> first | rfl | exact absurd rfl h

namespace Lexer

open TpLexer.Lexer

/-- A text read up to the start of a character, with at most `k` bytes ahead. -/
def Fits (asc : Prop) (k : Nat) (l : Lexer) : Prop :=
  ∃ pre s, l = after pre s ∧ IsText s ∧ (asc → IsAscii s) ∧ s.length ≤ k

/-- A token as `next_token` returns it, by what was ahead before. -/
def Good (asc : Prop) (k : Nat) (tok : Token) (l : Lexer) : Prop :=
  ValidKind asc tok.kind ∧ Fits asc (k - weight tok.kind) l ∧ weight tok.kind ≤ k

theorem Fits.mono {k k' : Nat} {l : Lexer} (h : Fits asc k l) (hk : k ≤ k') : Fits asc k' l := by
  obtain ⟨pre, s, hl, htext, hascii, hlen⟩ := h
  exact ⟨pre, s, hl, htext, hascii, Nat.le_trans hlen hk⟩

theorem isAscii_append {s t : Str} (hs : IsAscii s) (ht : IsAscii t) : IsAscii (s ++ t) := by
  intro b hb
  rcases List.mem_append.mp hb with h | h
  · exact hs b h
  · exact ht b h

theorem isAscii_push {out : Str} (h : IsAscii out) {b : UInt8} (hb : b < 0x80) :
    IsAscii (out ++ [b]) := by
  refine isAscii_append h fun d hd => ?_
  rwa [List.mem_singleton.mp hd]

theorem isAscii_unescape {out : Str} (h : IsAscii out) {c : UInt8} (hc : c < 0x80) :
    IsAscii (unescape out c) := by
  unfold unescape
  split
  · exact isAscii_push h (by decide)
  split
  · exact isAscii_push h (by decide)
  split
  · exact isAscii_push h (by decide)
  split
  · exact isAscii_push h (by decide)
  split
  · exact isAscii_push h (by decide)
  rw [pushByteAsChar, if_pos hc]
  exact isAscii_push h hc

/-- The scan pushes ASCII bytes only. -/
theorem scanString_ascii {quote : UInt8} {s out res : Str} {pos stop : Nat} (hs : IsAscii s)
    (ho : IsAscii out) (h : scanString quote s pos out = (.closed res, stop)) : IsAscii res := by
  fun_induction scanString quote s pos out with
  | case1 pos out => cases h
  | case2 rest pos out =>
    cases h
    exact ho
  | case3 pos out => cases h
  | case4 pos out c rest hquote ih =>
    have hrest : IsAscii rest := fun b hb => hs b (by simp [hb])
    have hc : c < 0x80 := hs c (by simp)
    exact ih hrest (isAscii_unescape ho hc) h
  | case5 b rest pos out hquote hback ih =>
    have hrest : IsAscii rest := fun c hc => hs c (by simp [hc])
    have hb : b < 0x80 := hs b (by simp)
    have hpush : IsAscii (pushByteAsChar out b) := by
      rw [pushByteAsChar, if_pos hb]
      exact isAscii_push ho hb
    exact ih hrest hpush h

/-- What an ASCII token stands for is ASCII. -/
theorem validKind_of_spells {k : TokenKind} {w t : Str} (h : Spells k w t)
    (hascii : asc → IsAscii (w ++ t)) : ValidKind asc k := by
  cases h with
  | fixed h => cases k <;> first | exact trivial | cases h
  | ident h => exact h
  | int => exact trivial
  | @string q body out t _ h =>
    intro hasc
    have hall := hascii hasc
    rw [List.cons_append, List.append_assoc] at hall
    exact scanString_ascii (fun b hb => hall b (List.mem_cons_of_mem _ hb)) (by intro b hb; cases hb)
      (h 0)
  | bareword => exact fun hasc b hb => hascii hasc b (List.mem_append_left _ hb)

theorem nextToken_good {k : Nat} : Ensures (Fits asc k) nextToken (Good asc k) := by
  rintro l ⟨pre, s, rfl, htext, hascii, hk⟩
  obtain ⟨r, l', hexec, hr⟩ := @nextToken_next pre _ htext _ rfl
  refine ⟨r, l', hexec, ?_⟩
  intro tok htok
  rcases hr tok htok with ⟨rfl, -, rfl⟩ | ⟨gap, w, t, rfl, -, hspells, htext', -, rfl⟩
  · refine ⟨trivial, ⟨_, [], rfl, ⟨[], rfl⟩, ?_, Nat.zero_le _⟩, Nat.zero_le _⟩
    intro _ b hb
    cases hb
  · have hweight := weight_eq_one hspells.ne_eof
    have hw := hspells.length_pos
    simp only [List.length_append] at hk
    have hword : asc → IsAscii (w ++ t) :=
      fun hasc b hb => hascii hasc b (List.mem_append_right _ hb)
    refine ⟨validKind_of_spells hspells hword, ⟨_, t, rfl, htext', ?_, by omega⟩, by omega⟩
    exact fun hasc b hb => hword hasc b (List.mem_append_right _ hb)

end Lexer

namespace Parser

open TpLexer.Parser

/-- A parser on a text whose lookahead and bytes ahead come to at most `k`. -/
def Fits (asc : Prop) (k : Nat) (p : Parser) : Prop := Lexer.Good asc k p.lookahead p.lexer

def Looks (asc : Prop) (kind : TokenKind) (k : Nat) (p : Parser) : Prop :=
  Fits asc k p ∧ p.lookahead.kind = kind

theorem Fits.mono {k k' : Nat} {p : Parser} (h : Fits asc k p) (hk : k ≤ k') : Fits asc k' p := by
  obtain ⟨hkind, hfits, hweight⟩ := h
  exact ⟨hkind, hfits.mono (by omega), by omega⟩

theorem Looks.valid {kind : TokenKind} {k : Nat} {p : Parser} (h : Looks asc kind k p) :
    ValidKind asc kind := h.2 ▸ h.1.1

theorem peekKind_looks {k : Nat} : Ensures (Fits asc k) peekKind fun kind => Looks asc kind k :=
  Ensures.of_exec fun p hp => ⟨_, p, rfl, hp, rfl⟩

/-- Consuming the lookahead takes its weight off the bound. -/
theorem bump_looks {kind : TokenKind} {k : Nat} :
    Ensures (Looks asc kind k) bump fun tok p => tok.kind = kind ∧ Fits asc (k - weight kind) p := by
  intro p hp
  obtain ⟨⟨hvalid, hfits, hweight⟩, hkind⟩ := hp
  obtain ⟨r, l, hnext, hr⟩ := Lexer.nextToken_good p.lexer hfits
  unfold bump lexToken
  simp only [exec_bind, exec_self, exec_update, exec_focus, exec_pure, Option.bind_some, hnext,
    Option.map_some]
  rcases r with e | t
  · refine ⟨_, _, rfl, ?_⟩
    intro tok htok
    cases htok
  · refine ⟨_, _, rfl, ?_⟩
    intro tok htok
    cases htok
    rw [← hkind]
    exact ⟨rfl, hr t rfl⟩

/-- A lookahead that is not the end is consumed at the cost of one. -/
theorem bump_bind {α : Type} {kind : TokenKind} (hkind : kind ≠ .eof) {k : Nat}
    {f : Token → Method α} {Q : α → Parser → Prop}
    (h : ∀ j tok, j + 1 = k → tok.kind = kind → Ensures (Fits asc j) (f tok) Q) :
    Ensures (Looks asc kind k) (bump >>= f) Q := by
  have hweight := weight_eq_one hkind
  rcases k with _ | k
  · refine Ensures.of_false fun p hp => ?_
    have hle := hp.1.2.2
    rw [hp.2, hweight] at hle
    omega
  · refine bump_looks.bind fun tok p hp => ?_
    rw [hweight] at hp
    exact h k tok rfl hp.1 p hp.2

/-- Consuming whatever is ahead, the end included. -/
theorem bump_fits {k : Nat} : Ensures (Fits asc k) bump fun _ => Fits asc k := by
  intro p hp
  exact (bump_looks.mono (fun _ h => h) fun _ _ h => h.2.mono (Nat.sub_le _ _)) p
    (show Looks asc p.lookahead.kind k p from ⟨hp, rfl⟩)

theorem failHere_any {α : Type} {P : Parser → Prop} {Q : α → Parser → Prop} (message : Message) :
    Ensures P (failHere message) Q :=
  Ensures.self_bind fun _ _ => Ensures.throw _

theorem expect_fits {k : Nat} (kind : TokenKind) : Ensures (Fits asc k) (expect kind) fun _ => Fits asc k := by
  refine peekKind_looks.bind fun found => ?_
  split
  · exact bump_fits.mono (fun _ h => h.1) fun _ _ h => h
  · exact failHere_any _

theorem pure_fits {α : Type} (a : α) {j k : Nat} (hjk : j ≤ k) :
    Ensures (Fits asc j) (pure a : Method α) fun _ => Fits asc k :=
  Ensures.pure fun _ hp => hp.mono hjk

theorem parseSignedInt_fits (n : Nat) {k : Nat} (hn : k + 1 ≤ n) :
    Ensures (Fits asc k) (parseSignedInt n) fun _ => Fits asc k := by
  induction n generalizing k with
  | zero => omega
  | succ n ih =>
    have again : ∀ {j : Nat}, j + 1 = k → Ensures (Fits asc j) (parseSignedInt n) fun _ => Fits asc j :=
      fun hj => ih (by omega)
    unfold parseSignedInt
    refine peekKind_looks.bind fun kind => ?_
    split
    · exact bump_bind (by simp) fun j tok hj _ => pure_fits _ (by omega)
    · rename_i st
      refine Ensures.self_bind fun p hp => ?_
      have hstate : ∀ p', p' = p → Looks asc (.bareword st) k p' := by
        rintro p' rfl
        exact hp
      split
      · refine (bump_bind (by simp) fun j tok hj _ => ?_).mono hstate fun _ _ h => h
        refine (again hj).bind fun v => ?_
        split
        · exact pure_fits _ (by omega)
        · exact Ensures.throw _
      split
      · refine (bump_bind (by simp) fun j tok hj _ => ?_).mono hstate fun _ _ h => h
        exact (again hj).mono (fun _ h => h) fun _ _ h => h.mono (by omega)
      split
      · refine (bump_bind (by simp) fun j tok hj _ => ?_).mono hstate fun _ _ h => h
        exact pure_fits _ (by omega)
      · exact Ensures.throw _
    · refine bump_bind (by simp) fun j tok hj _ => ?_
      exact (again hj).bind fun _ => (expect_fits _).bind fun _ => pure_fits _ (by omega)
    · exact failHere_any _

theorem isAscii_ident {s : Str} (h : isIdentifier s = true) : IsAscii s := by
  rcases s with _ | ⟨c, s⟩
  · cases h
  · have hc : isIdentStart c = true ∧ s.all isIdentByte = true := by simpa [isIdentifier] using h
    intro b hb
    rcases List.mem_cons.mp hb with rfl | hb
    · exact (identStart_facts b hc.1).2.2
    · exact TpLexer.Lexer.isIdentByte_lt (List.all_eq_true.mp hc.2 b hb)

theorem mergeBarewords_ascii (n : Nat) {k : Nat} (hn : k + 1 ≤ n) {s : Str}
    (hs : asc → IsAscii s) :
    Ensures (Fits asc k) (mergeBarewords n s) fun r p => Fits asc k p ∧ (asc → IsAscii r) := by
  induction n generalizing k s with
  | zero => omega
  | succ n ih =>
    unfold mergeBarewords
    refine peekKind_looks.bind fun kind => ?_
    split
    · rename_i st
      intro p hp
      have hst : asc → IsAscii st := hp.valid
      refine bump_bind (by simp) (fun j tok hj _ => ?_) p hp
      exact (ih (by omega) fun hasc => Lexer.isAscii_append (hs hasc) (hst hasc)).mono
        (fun _ h => h) fun _ _ h => ⟨h.1.mono (by omega), h.2⟩
    · exact Ensures.pure fun p hp => ⟨hp.1, hs⟩

theorem parsePatternLiteral_ascii (n : Nat) {k : Nat} (hn : k + 1 ≤ n) :
    Ensures (Fits asc k) (parsePatternLiteral n) fun r p => Fits asc k p ∧ (asc → IsAscii r) := by
  have merge : ∀ {kind : TokenKind} {st : Str}, kind ≠ .eof → (asc → IsAscii st) →
      Ensures (Looks asc kind k) (bump >>= fun _ => mergeBarewords n st)
        fun r p => Fits asc k p ∧ (asc → IsAscii r) := by
    intro kind st hkind hst
    refine bump_bind hkind fun j tok hj _ => ?_
    exact (mergeBarewords_ascii n (by omega) hst).mono (fun _ h => h)
      fun _ _ h => ⟨h.1.mono (by omega), h.2⟩
  unfold parsePatternLiteral
  refine peekKind_looks.bind fun kind => ?_
  split
  · exact fun p hp => merge (by simp) (show asc → IsAscii _ from hp.valid) p hp
  · exact fun p hp => merge (by simp) (show asc → IsAscii _ from hp.valid) p hp
  · exact fun p hp => merge (by simp) (fun _ => isAscii_ident hp.valid) p hp
  · exact failHere_any _

/-- What stands on the level of comparisons. -/
def GoodCmp (asc : Prop) (k : Nat) (e : Expr) (p : Parser) : Prop :=
  Fits asc k p ∧ (asc → CanonicalShape e) ∧ isOr e = false ∧ isAnd e = false

def GoodAnd (asc : Prop) (k : Nat) (e : Expr) (p : Parser) : Prop :=
  Fits asc k p ∧ (asc → CanonicalShape e) ∧ isOr e = false

def GoodOr (asc : Prop) (k : Nat) (e : Expr) (p : Parser) : Prop := Fits asc k p ∧ (asc → CanonicalShape e)

theorem numCmp_good {field : Str} (hfield : isIdentifier field = true) (span : Span)
    (mask : Option Int64) (op : NumOp) (rhs : Int64) {j k : Nat} (hjk : j ≤ k) : Ensures (Fits asc j)
      (pure (.numCmp field span mask op rhs) : Method Expr) (GoodCmp asc k) :=
  Ensures.pure fun _ hp => ⟨hp.mono hjk, fun _ => hfield, rfl, rfl⟩

theorem strCmp_good {field pat : Str} (hfield : isIdentifier field = true) (span : Span)
    (op : StrOp) {j k : Nat} (hjk : j ≤ k) : Ensures (fun p => Fits asc j p ∧ (asc → IsAscii pat))
      (pure (.strCmp field span op pat) : Method Expr) (GoodCmp asc k) :=
  Ensures.pure fun _ hp => ⟨hp.1.mono hjk, fun hasc => ⟨hfield, hp.2 hasc⟩, rfl, rfl⟩

/-- The operator matched on before is the one consumed. -/
theorem numOp_some {kind : TokenKind} {op : NumOp} (h : numOp kind = some op) {tok : Token}
    (htok : tok.kind = kind) {P : Parser → Prop} :
    Ensures P (Call.orPanic (numOp tok.kind) : Method NumOp) fun _ => P :=
  Ensures.orPanic fun _ hp => ⟨op, by rw [htok, h], hp⟩

theorem parseFieldCmp_good (n : Nat) {k : Nat} (hn : k ≤ n) {s : Str} :
    Ensures (Looks asc (.ident s) k) (parseFieldCmp n) (GoodCmp asc k) := by
  intro p hp
  have hfield : isIdentifier s = true := hp.valid
  refine (bump_bind (Q := GoodCmp asc k) (by simp) fun i nameTok hi hname => ?_) p hp
  refine (Ensures.orPanic (Q := fun field p => field = s ∧ Fits asc i p) ?_).bind fun field => ?_
  · intro p hp
    exact ⟨s, by rw [hname], rfl, hp⟩
  rintro p' ⟨rfl, hp'⟩
  have ordered : ∀ {kind : TokenKind} {op : NumOp}, kind ≠ .eof → numOp kind = some op →
      Ensures (Looks asc kind i) (do
        let opTok ← bump
        let op ← Call.orPanic (numOp opTok.kind)
        let rhs ← parseSignedInt n
        return .numCmp field nameTok.span none op rhs) (GoodCmp asc k) := by
    intro kind op hkind hop
    refine bump_bind hkind fun j tok hj htok => (numOp_some hop htok).bind fun _ => ?_
    exact (parseSignedInt_fits n (by omega)).bind fun _ => numCmp_good hfield _ _ _ _ (by omega)
  have equality : ∀ {kind : TokenKind} {op : NumOp}, kind ≠ .eof → numOp kind = some op →
      Ensures (Looks asc kind i) (do
        let opTok ← bump
        if startsNumericLiteral (← peekKind) then
          let rhs ← parseSignedInt n
          let op ← Call.orPanic (numOp opTok.kind)
          return .numCmp field nameTok.span none op rhs
        else
          let pat ← parsePatternLiteral n
          let op : StrOp := if opTok.kind == .eqEq then .eq else .ne
          return .strCmp field nameTok.span op pat) (GoodCmp asc k) := by
    intro kind op hkind hop
    refine bump_bind hkind fun j tok hj htok => peekKind_looks.bind fun kind => ?_
    split
    · refine ((parseSignedInt_fits n (k := j) (by omega)).mono (fun _ h => h.1) fun _ _ h => h).bind
        fun _ => (numOp_some hop htok).bind fun _ => numCmp_good hfield _ _ _ _ (by omega)
    · exact ((parsePatternLiteral_ascii n (k := j) (by omega)).mono (fun _ h => h.1)
        fun _ _ h => h).bind fun _ => strCmp_good hfield _ _ (by omega)
  refine (peekKind_looks.bind (T := GoodCmp asc k) fun kind => ?_) p' hp'
  split
  · refine bump_bind (by simp) fun j tok hj _ => (parseSignedInt_fits n (by omega)).bind fun m => ?_
    refine bump_fits.bind fun opTok => ?_
    split
    · exact Ensures.throw _
    · exact (parseSignedInt_fits n (by omega)).bind fun rhs => numCmp_good hfield _ _ _ _ (by omega)
  · exact ordered (by simp) rfl
  · exact ordered (by simp) rfl
  · exact ordered (by simp) rfl
  · exact ordered (by simp) rfl
  · refine bump_bind (by simp) fun j tok hj _ => ?_
    exact (parsePatternLiteral_ascii n (by omega)).bind fun _ => strCmp_good hfield _ _ (by omega)
  · exact equality (by simp) rfl
  · exact equality (by simp) rfl
  · exact failHere_any _

/-- With three levels of recursion for each byte ahead, each function of the descent comes back
with a tree of its level. -/
theorem parse_good (n : Nat) :
    (∀ k, 3 * k + 3 ≤ n → Ensures (Fits asc k) (parseOr n) (GoodOr asc k)) ∧
    (∀ k left, 3 * k + 1 ≤ n → Ensures (GoodOr asc k left) (parseOrLoop n left) (GoodOr asc k)) ∧
    (∀ k, 3 * k + 2 ≤ n → Ensures (Fits asc k) (parseAnd n) (GoodAnd asc k)) ∧
    (∀ k left, 3 * k + 1 ≤ n → Ensures (GoodAnd asc k left) (parseAndLoop n left) (GoodAnd asc k)) ∧
    (∀ k, 3 * k + 1 ≤ n → Ensures (Fits asc k) (parseCmp n) (GoodCmp asc k)) := by
  induction n with
  | zero =>
    refine ⟨?_, ?_, ?_, ?_, ?_⟩ <;> intros <;> omega
  | succ n ih =>
    obtain ⟨ihOr, ihOrLoop, ihAnd, ihAndLoop, ihCmp⟩ := ih
    refine ⟨?_, ?_, ?_, ?_, ?_⟩
    · intro k hk
      rw [parseOr]
      exact (ihAnd k (by omega)).bind fun left =>
        (ihOrLoop k left (by omega)).mono (fun p h => ⟨h.1, h.2.1⟩) fun _ _ h => h
    · intro k left hk p hp
      rw [parseOrLoop]
      refine (peekKind_looks.bind (T := GoodOr asc k) fun kind => ?_) p hp.1
      split
      · refine bump_bind (by simp) fun j tok hj _ => (ihAnd j (by omega)).bind fun right => ?_
        exact (ihOrLoop j _ (by omega)).mono
          (fun p h => ⟨h.1, fun hasc => ⟨hp.2 hasc, h.2.1 hasc, h.2.2⟩⟩)
          fun _ _ h => ⟨h.1.mono (by omega), h.2⟩
      · exact Ensures.pure fun _ h => ⟨h.1, hp.2⟩
    · intro k hk
      rw [parseAnd]
      exact (ihCmp k (by omega)).bind fun left =>
        (ihAndLoop k left (by omega)).mono (fun p h => ⟨h.1, h.2.1, h.2.2.1⟩) fun _ _ h => h
    · intro k left hk p hp
      rw [parseAndLoop]
      refine (peekKind_looks.bind (T := GoodAnd asc k) fun kind => ?_) p hp.1
      split
      · refine bump_bind (by simp) fun j tok hj _ => (ihCmp j (by omega)).bind fun right => ?_
        exact (ihAndLoop j _ (by omega)).mono
          (fun p h => ⟨h.1, fun hasc => ⟨hp.2.1 hasc, h.2.1 hasc, hp.2.2, h.2.2⟩, rfl⟩)
          fun _ _ h => ⟨h.1.mono (by omega), h.2⟩
      · exact Ensures.pure fun _ h => ⟨h.1, hp.2⟩
    · intro k hk
      rw [parseCmp]
      refine peekKind_looks.bind fun kind => ?_
      split
      · refine bump_bind (by simp) fun j tok hj _ => (ihOr j (by omega)).bind fun e => ?_
        intro p hp
        exact ((expect_fits _).bind (T := GoodCmp asc k) fun _ =>
          Ensures.pure (a := Expr.group e) fun _ h => ⟨h.mono (by omega), hp.2, rfl, rfl⟩) p hp.1
      · rename_i s
        exact parseFieldCmp_good n (by omega)
      · exact failHere_any _

end Parser

/-- The parser comes back on every text, and what it accepts of an ASCII one is canonical but for
literals. -/
theorem parseFilter_good {input : Str} (htext : IsText input) (hascii : asc → IsAscii input) :
    ∃ r, parseFilter input = some r ∧ ∀ e, r = .ok e → asc → CanonicalShape e := by
  have hstart : Lexer.Fits asc input.length (TpLexer.Lexer.new input) :=
    ⟨[], input, rfl, htext, hascii, Nat.le_refl _⟩
  obtain ⟨first, l, hnext, hfirst⟩ := Lexer.nextToken_good _ hstart
  rcases first with err | first
  · have hnew : TpLexer.Parser.new input = some (.error err) := by
      rw [TpLexer.Parser.new, hnext]
      rfl
    refine ⟨.error err, by rw [parseFilter, hnew], ?_⟩
    intro e he
    cases he
  · have hnew : TpLexer.Parser.new input = some (.ok ⟨l, first⟩) := by
      rw [TpLexer.Parser.new, hnext]
      rfl
    have hparse : Ensures (Parser.Fits asc input.length)
        (TpLexer.Parser.parse (TpLexer.Parser.depthFor input))
        (Parser.GoodOr asc input.length) := by
      have hdepth : 3 * input.length + 3 ≤ TpLexer.Parser.depthFor input := by
        unfold TpLexer.Parser.depthFor
        omega
      refine ((Parser.parse_good _).1 _ hdepth).bind fun e => ?_
      intro p hp
      refine (Parser.peekKind_looks.bind (T := Parser.GoodOr asc input.length)
        fun kind => ?_) p hp.1
      split
      · exact Ensures.pure fun _ h => ⟨h.1, hp.2⟩
      · exact Parser.failHere_any _
    obtain ⟨r, p, hexec, hr⟩ := hparse ⟨l, first⟩ (hfirst first rfl)
    refine ⟨r, ?_, fun e he => (hr e he).2⟩
    unfold parseFilter
    rw [hnew]
    simp only
    rw [hexec]
    rfl

theorem parseFilter_ascii {input : Str} (hinput : IsAscii input) :
    ∃ r, parseFilter input = some r ∧ ∀ e, r = .ok e → CanonicalShape e := by
  obtain ⟨r, hparse, hr⟩ := @parseFilter_good True _ (.of_ascii hinput) fun _ => hinput
  exact ⟨r, hparse, fun e he => hr e he trivial⟩

/-- On every text compilation comes to a filter or to an error. -/
theorem compileWithSchema_returns {input : Str} (htext : IsText input) (schema : Schema) :
    ∃ r, compileWithSchema input schema = some r := by
  obtain ⟨r, hparse, -⟩ := @parseFilter_good False _ htext False.elim
  exact ⟨_, congrArg (Option.map _) hparse⟩

/-- Parsing undoes printing on canonical trees. On every ASCII input the parser comes back, the
tree it returns is canonical but for literals that are `i64::MIN`, and without such a literal
printing and parsing it again gives the same tree. -/
theorem parse_undoes_print :
    (∀ e, Canonical e →
      ∃ e', parseFilter (print e) = some (.ok e') ∧ eraseSpans e' = eraseSpans e) ∧
    (∀ input, IsAscii input → ∃ r, parseFilter input = some r ∧ ∀ e, r = .ok e →
      CanonicalShape e ∧ (NoMinLiteral e →
        ∃ e', parseFilter (print e) = some (.ok e') ∧ eraseSpans e' = eraseSpans e)) := by
  refine ⟨fun e he => RoundTrip.Parser.parseFilter_print he, fun input hinput => ?_⟩
  obtain ⟨r, hparse, hr⟩ := parseFilter_ascii hinput
  refine ⟨r, hparse, fun e he => ⟨hr e he, fun hmin => ?_⟩⟩
  exact RoundTrip.Parser.parseFilter_print ⟨hr e he, hmin⟩

theorem parse_undoes_print_or :
    ∃ e', parseFilter (print (.or (.numCmp (ascii "a") ⟨0, 0⟩ (some 6) .eq (-5))
        (.group (.strCmp (ascii "b") ⟨0, 0⟩ .glob (ascii "x*"))))) = some (.ok e') ∧
      eraseSpans e' = .or (.numCmp (ascii "a") ⟨0, 0⟩ (some 6) .eq (-5))
        (.group (.strCmp (ascii "b") ⟨0, 0⟩ .glob (ascii "x*"))) := by
  refine parse_undoes_print.1 _ ⟨⟨rfl, ⟨rfl, ?_⟩, rfl⟩, ⟨by decide, by decide⟩, trivial⟩
  show ∀ b ∈ ascii "x*", b < 0x80
  decide +kernel

end ExtKtrace.TpLexer.Accepted
