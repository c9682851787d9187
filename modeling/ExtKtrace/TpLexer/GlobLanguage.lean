import Mathlib.Computability.Language
import ExtKtrace.TpLexer.Glob

/-!
# The language of a glob pattern

A pattern is read as a list of items, each with the texts it stands for; the matcher accepts
their concatenation.
-/

namespace ExtKtrace.TpLexer
set_option autoImplicit false

inductive Member where
  | single (c : UInt8)
  | range (first last : UInt8)
  deriving DecidableEq

inductive Item where
  | any
  | star
  | cls (negated : Bool) (members : List Member)
  | one (c : UInt8)
  deriving DecidableEq

/-- The body of a class from left to right. -/
def readBody : Str → List Member
  | [] => []
  | [c] => [.single c]
  | c :: d :: body =>
    if d = byte '-' then
      match body with
      | [] => [.single c, .single d]
      | last :: body => .range c last :: readBody body
    else .single c :: readBody (d :: body)

/-- A class up to the first `]`, and what follows. -/
def closeClass : Str → Option (Str × Str)
  | [] => none
  | c :: p =>
    if c = byte ']' then some ([], p) else (closeClass p).map fun (body, rest) => (c :: body, rest)

/-- The `!` or `^` of a class. -/
def splitMark : Str → Bool × Str
  | [] => (false, [])
  | c :: p => if c = byte '^' ∨ c = byte '!' then (true, p) else (false, c :: p)

theorem splitMark_length (p : Str) : (splitMark p).2.length ≤ p.length := by
  cases p with
  | nil => exact Nat.le_refl _
  | cons c p =>
    rw [splitMark]
    split
    · exact Nat.le_succ _
    · exact Nat.le_refl _

theorem closeClass_eq_some {p body rest : Str} (h : closeClass p = some (body, rest)) :
    p = body ++ byte ']' :: rest ∧ byte ']' ∉ body := by
  induction p generalizing body with
  | nil => cases h
  | cons c p ih =>
    unfold closeClass at h
    split at h
    · rename_i hc
      cases h
      exact ⟨by rw [hc, List.nil_append], List.not_mem_nil⟩
    · rename_i hc
      obtain ⟨⟨body', rest'⟩, hp, heq⟩ := Option.map_eq_some_iff.mp h
      cases heq
      obtain ⟨hsplit, hnot⟩ := ih hp
      refine ⟨by rw [hsplit, List.cons_append], fun hmem => ?_⟩
      cases List.mem_cons.mp hmem with
      | inl heq => exact hc heq.symm
      | inr hmem => exact hnot hmem

section Read
variable (admits : Str → Bool)

/-- The items of a pattern; `none` when a class is not closed or its body not admitted. -/
def readItems : Str → Option (List Item)
  | [] => some []
  | c :: p =>
    if c = byte '?' then (readItems p).map (.any :: ·)
    else if c = byte '*' then (readItems p).map (.star :: ·)
    else if c = byte '[' then
      match _h : closeClass (splitMark p).2 with
      | none => none
      | some (body, rest) =>
        if admits body then (readItems rest).map (.cls (splitMark p).1 (readBody body) :: ·)
        else none
    else (readItems p).map (.one c :: ·)
termination_by p => p.length
decreasing_by
  · simp
  · simp
  · have hlen := splitMark_length p
    have heq := congrArg List.length (closeClass_eq_some _h).1
    simp only [List.length_append, List.length_cons] at heq ⊢
    omega
  · simp

end Read

/-- The items of a well-formed pattern, which has no `-` directly before the `]` of a class. -/
def readPattern : Str → Option (List Item) :=
  readItems fun body => body.getLast? ≠ some (byte '-')

/-- The items of a pattern whose classes are closed. -/
def readGlob : Str → Option (List Item) := readItems fun _ => true

theorem readItems_class {admits : Str → Bool} {p body rest : Str} {items : List Item}
    (h : readItems admits (byte '[' :: p) = some items)
    (hclose : closeClass (splitMark p).2 = some (body, rest)) :
    admits body = true ∧ ∃ items', readItems admits rest = some items' ∧
      items = .cls (splitMark p).1 (readBody body) :: items' := by
  have hany : byte '[' ≠ byte '?' := by decide
  have hstar : byte '[' ≠ byte '*' := by decide
  rw [readItems, if_neg hany, if_neg hstar, if_pos rfl] at h
  split at h
  · cases h
  · rename_i body' rest' hclose'
    cases hclose.symm.trans hclose'
    split at h
    · rename_i hadmits
      obtain ⟨items', hrest, heq⟩ := Option.map_eq_some_iff.mp h
      exact ⟨hadmits, items', hrest, heq.symm⟩
    · cases h

theorem readItems_open {admits : Str → Bool} {p : Str} (hopen : closeClass (splitMark p).2 = none) :
    readItems admits (byte '[' :: p) = none := by
  have hany : byte '[' ≠ byte '?' := by decide
  have hstar : byte '[' ≠ byte '*' := by decide
  rw [readItems, if_neg hany, if_neg hstar, if_pos rfl]
  split
  · rfl
  · rename_i hclose
    exact absurd (hopen.symm.trans hclose) (by simp)

/-- A `-` at the end of a class, with a byte in front of it that is in no range. -/
def HyphenBehindSingle (members : List Member) : Prop :=
  ∃ c, [.single c, .single (byte '-')] <:+ members

def Item.Plain : Item → Prop
  | .cls _ members => ¬ HyphenBehindSingle members
  | _ => True

theorem readBody_range (first last : UInt8) (body : Str) :
    readBody (first :: byte '-' :: last :: body) = .range first last :: readBody body := by
  rw [readBody, if_pos rfl]

theorem readBody_single {d : UInt8} (hd : d ≠ byte '-') (c : UInt8) (body : Str) :
    readBody (c :: d :: body) = .single c :: readBody (d :: body) := by
  rw [readBody.eq_def]
  exact if_neg hd

theorem head_of_readBody {c d : UInt8} {body : Str} (h : readBody (c :: body) = [.single d]) :
    c = d := by
  match body with
  | [] =>
    cases h
    rfl
  | d' :: body =>
    by_cases hd : d' = byte '-'
    · subst hd
      cases body <;> cases h
    · rw [readBody_single hd] at h
      exact Member.single.inj (List.cons.inj h).1

theorem HyphenBehindSingle.cons {members : List Member} (h : HyphenBehindSingle members)
    (m : Member) : HyphenBehindSingle (m :: members) := by
  obtain ⟨c, hsuffix⟩ := h
  exact ⟨c, hsuffix.trans (List.suffix_cons m members)⟩

theorem HyphenBehindSingle.of_cons {m : Member} {members : List Member}
    (h : HyphenBehindSingle (m :: members)) :
    HyphenBehindSingle members ∨ ∃ c, m = .single c ∧ members = [.single (byte '-')] := by
  obtain ⟨c, hsuffix⟩ := h
  rcases List.suffix_cons_iff.mp hsuffix with heq | hsuffix
  · obtain ⟨hm, hmembers⟩ := List.cons.inj heq
    exact .inr ⟨c, hm.symm, hmembers.symm⟩
  · exact .inl ⟨c, hsuffix⟩

theorem hyphenBehindSingle_range (first last : UInt8) (body : Str) :
    HyphenBehindSingle (readBody (first :: byte '-' :: last :: body)) ↔
      HyphenBehindSingle (readBody body) := by
  rw [readBody_range]
  constructor
  · intro h
    rcases h.of_cons with h | ⟨c, hm, -⟩
    · exact h
    · cases hm
  · exact fun h => h.cons _

theorem hyphenBehindSingle_single {d : UInt8} (hd : d ≠ byte '-') (c : UInt8) (body : Str) :
    HyphenBehindSingle (readBody (c :: d :: body)) ↔ HyphenBehindSingle (readBody (d :: body)) := by
  rw [readBody_single hd]
  constructor
  · intro h
    rcases h.of_cons with h | ⟨_, -, hmembers⟩
    · exact h
    · exact absurd (head_of_readBody hmembers) hd
  · exact fun h => h.cons _

def Member.last : Member → UInt8
  | .single c => c
  | .range _ last => last

/-- The members end where the body does. -/
theorem readBody_last (body : Str) : (readBody body).getLast?.map Member.last = body.getLast? := by
  induction body using readBody.induct with
  | case1 => rfl
  | case2 c => rfl
  | case3 c => rfl
  | case4 c last body ih =>
    rw [readBody_range, List.getLast?_cons, Option.map_some, ← Option.getD_map Member.last, ih]
    simp [List.getLast?_cons, Member.last]
  | case5 c d body hd ih =>
    rw [readBody_single hd, List.getLast?_cons, Option.map_some, ← Option.getD_map Member.last, ih]
    simp [List.getLast?_cons, Member.last]

theorem not_hyphenBehindSingle {body : Str} (hlast : body.getLast? ≠ some (byte '-')) :
    ¬ HyphenBehindSingle (readBody body) := by
  rintro ⟨c, front, hfront⟩
  refine hlast ?_
  rw [← readBody_last, ← hfront]
  simp [Member.last]

/-- The classes of a well-formed pattern end in no hyphen. -/
theorem plain_of_readPattern {p : Str} {items : List Item} (h : readPattern p = some items) :
    ∀ item ∈ items, item.Plain := by
  unfold readPattern at h
  induction p using readItems.induct (fun body => body.getLast? ≠ some (byte '-'))
    generalizing items with
  | case1 =>
    rw [readItems] at h
    cases h
    exact fun _ hmem => absurd hmem List.not_mem_nil
  | case2 p ih =>
    rw [readItems, if_pos rfl] at h
    obtain ⟨items, hp, rfl⟩ := Option.map_eq_some_iff.mp h
    exact List.forall_mem_cons.mpr ⟨trivial, ih hp⟩
  | case3 p hany ih =>
    rw [readItems, if_neg hany, if_pos rfl] at h
    obtain ⟨items, hp, rfl⟩ := Option.map_eq_some_iff.mp h
    exact List.forall_mem_cons.mpr ⟨trivial, ih hp⟩
  | case4 p hopen hany hstar =>
    rw [readItems_open hopen] at h
    cases h
  | case5 p body rest hclose hadmits hany hstar ih =>
    obtain ⟨_, items, hrest, rfl⟩ := readItems_class h hclose
    exact List.forall_mem_cons.mpr
      ⟨not_hyphenBehindSingle (of_decide_eq_true hadmits), ih hrest⟩
  | case6 p body rest hclose hadmits hany hstar =>
    exact absurd (readItems_class h hclose).1 hadmits
  | case7 c p hany hstar hclass ih =>
    rw [readItems, if_neg hany, if_neg hstar, if_neg hclass] at h
    obtain ⟨items, hp, rfl⟩ := Option.map_eq_some_iff.mp h
    exact List.forall_mem_cons.mpr ⟨trivial, ih hp⟩

section Language
-- Which bytes a range stands for.
variable (range : UInt8 → UInt8 → Set UInt8)

def Member.bytes : Member → Set UInt8
  | .single c => {c}
  | .range first last => range first last

def classBytes (members : List Member) : Set UInt8 := {ch | ∃ m ∈ members, ch ∈ m.bytes range}

def clsBytes (negated : Bool) (members : List Member) : Set UInt8 :=
  if negated then (classBytes range members)ᶜ else classBytes range members

def oneByte (bytes : Set UInt8) : Language UInt8 := {t | ∃ ch ∈ bytes, t = [ch]}

def Item.language : Item → Language UInt8
  | .any => oneByte Set.univ
  | .star => Set.univ
  | .cls negated members => oneByte (clsBytes range negated members)
  | .one c => oneByte {c}

def language (items : List Item) : Language UInt8 := (items.map (Item.language range)).prod

end Language

/-- The bytes from the first to the last. -/
def between (first last : UInt8) : Set UInt8 := {ch | first ≤ ch ∧ ch ≤ last}

/-- The same, and the first in any case. -/
def firstAndBetween (first last : UInt8) : Set UInt8 := insert first (between first last)

section Class
variable {ch : UInt8}

@[simp] theorem mem_classBytes_nil {range : UInt8 → UInt8 → Set UInt8} :
    ch ∈ classBytes range [] ↔ False := by
  simp [classBytes]

@[simp] theorem mem_classBytes_cons {range : UInt8 → UInt8 → Set UInt8} {m : Member}
    {members : List Member} :
    ch ∈ classBytes range (m :: members) ↔ ch ∈ m.bytes range ∨ ch ∈ classBytes range members := by
  simp [classBytes]

/-- What is left to read when `prev` is the byte before. -/
def readAfter (prev : Option UInt8) (body : Str) : List Member :=
  match prev, body with
  | some first, d :: last :: body =>
    if d = byte '-' then .range first last :: readBody body else readBody (d :: last :: body)
  | _, body => readBody body

theorem readAfter_of_not_range {prev : Option UInt8} {c : UInt8} {body : Str}
    (h : ¬ (c = byte '-' ∧ ∃ first, prev = some first)) :
    readAfter prev (c :: body) = readBody (c :: body) := by
  cases prev with
  | none => rfl
  | some first =>
    cases body with
    | nil => rfl
    | cons last body => exact if_neg fun hdash => h ⟨hdash, first, rfl⟩

theorem mem_readBody_cons {c : UInt8} {body : Str} :
    ch ∈ classBytes firstAndBetween (readBody (c :: body)) ↔
      ch = c ∨ ch ∈ classBytes firstAndBetween (readAfter (some c) body) := by
  match body with
  | [] => simp [readBody, readAfter, Member.bytes]
  | [d] =>
    unfold readAfter readBody
    split <;> simp [readBody, Member.bytes]
  | d :: last :: body =>
    unfold readAfter
    rw [readBody]
    by_cases hd : d = byte '-'
    · -- the range holds its first byte itself
      simp only [if_pos hd, mem_classBytes_cons, Member.bytes, firstAndBetween, Set.mem_insert_iff,
        or_assoc, or_self_left]
    · simp only [if_neg hd, mem_classBytes_cons, Member.bytes, Set.mem_singleton_iff]

theorem scanClass_range (first last : UInt8) (p : Str) (matched : Bool) :
    scanClass ch (byte '-' :: last :: p) matched (some first) =
      scanClass ch p (matched || (first ≤ ch && ch ≤ last)) none := rfl

/-- A byte that no range takes, with the members left to read. -/
theorem scanClass_single {prev : Option UInt8} {c : UInt8} (hc : c ≠ byte ']')
    (hrange : ¬ (c = byte '-' ∧ ∃ first, prev = some first)) (p : Str) (matched : Bool) :
    scanClass ch (c :: p) matched prev = scanClass ch p (matched || ch = c) (some c) := by
  have hnone : (if c = byte '-' then prev else none) = none := by
    split
    · rename_i hdash
      exact Option.eq_none_iff_forall_ne_some.mpr fun first hp => hrange ⟨hdash, first, hp⟩
    · rfl
  rw [scanClass, if_neg hc, hnone]

theorem hyphenBehindSingle_prev {prev : Option UInt8} {c : UInt8}
    (hrange : ¬ (c = byte '-' ∧ ∃ first, prev = some first)) (body : Str) :
    HyphenBehindSingle (readBody (prev.toList ++ c :: body)) ↔
      HyphenBehindSingle (readBody (c :: body)) := by
  cases prev with
  | none => exact Iff.rfl
  | some first =>
    exact hyphenBehindSingle_single (fun hdash => hrange ⟨hdash, first, rfl⟩) first body

theorem scanClass_body {rest : Str} (body : Str) (hclose : byte ']' ∉ body)
    (matched : Bool) (prev : Option UInt8)
    (hplain : ¬ HyphenBehindSingle (readBody (prev.toList ++ body)))
    (hprev : ∀ first, prev = some first → ch = first → matched = true) :
    ∃ res, scanClass ch (body ++ byte ']' :: rest) matched prev = some (res, rest) ∧
      (res = true ↔
        matched = true ∨ ch ∈ classBytes firstAndBetween (readAfter prev body)) := by
  match body with
  | [] =>
    refine ⟨matched, by simp [scanClass], ?_⟩
    cases prev <;> simp [readAfter, readBody]
  | c :: body =>
    have hc : c ≠ byte ']' := fun heq => hclose (heq ▸ List.mem_cons_self)
    have hclose' : byte ']' ∉ body := fun hmem => hclose (List.mem_cons_of_mem _ hmem)
    by_cases hrange : c = byte '-' ∧ ∃ first, prev = some first
    · obtain ⟨rfl, first, rfl⟩ := hrange
      cases body with
      | nil => exact absurd ⟨first, List.suffix_refl _⟩ hplain
      | cons last body =>
        have hplain' := mt (hyphenBehindSingle_range first last body).mpr hplain
        obtain ⟨res, hscan, hres⟩ := scanClass_body body
          (fun hmem => hclose' (List.mem_cons_of_mem _ hmem))
          (matched || (first ≤ ch && ch ≤ last)) none hplain' (fun _ h => nomatch h)
        refine ⟨res, (scanClass_range first last _ matched).trans hscan, ?_⟩
        have hfirst := hprev first rfl
        have hread : readAfter (some first) (byte '-' :: last :: body) =
            .range first last :: readBody body := rfl
        have hafter : readAfter none body = readBody body := rfl
        rw [hres, hread, hafter, mem_classBytes_cons, Bool.or_eq_true, Bool.and_eq_true,
          decide_eq_true_eq, decide_eq_true_eq, or_assoc]
        show _ ↔ matched = true ∨ (ch = first ∨ first ≤ ch ∧ ch ≤ last) ∨ _
        -- the first byte of the range was counted when it was read
        have hcounted : (matched = true ∨ ch = first) ↔ matched = true :=
          or_iff_left_of_imp hfirst
        rw [@or_assoc (ch = first), ← @or_assoc (matched = true) (ch = first), hcounted]
    · have hplain' := mt (hyphenBehindSingle_prev hrange body).mpr hplain
      have hread := @readAfter_of_not_range prev c body hrange
      obtain ⟨res, hscan, hres⟩ := scanClass_body body hclose' (matched || ch = c) (some c) hplain'
        (by simp +contextual)
      refine ⟨res, (scanClass_single hc hrange _ matched).trans hscan, ?_⟩
      rw [hres, hread, mem_readBody_cons, Bool.or_eq_true, decide_eq_true_eq, or_assoc]
termination_by body.length

theorem matchClass_splitMark (p : Str) (ch : UInt8) :
    matchClass p ch =
      match scanClass ch (splitMark p).2 false none with
      | none => (false, [])
      | some (matched, p') => (if (splitMark p).1 then !matched else matched, p') := by
  cases p with
  | nil => rfl
  | cons c p => rfl

theorem matchClass_eq {p body rest : Str} (h : closeClass (splitMark p).2 = some (body, rest))
    (hplain : ¬ HyphenBehindSingle (readBody body)) :
    (matchClass p ch).2 = rest ∧
      ((matchClass p ch).1 = true ↔
        ch ∈ clsBytes firstAndBetween (splitMark p).1 (readBody body)) := by
  obtain ⟨hsplit, hclose⟩ := closeClass_eq_some h
  obtain ⟨res, hscan, hres⟩ := @scanClass_body ch rest body hclose false none hplain
    (fun _ h => nomatch h)
  have hread : readAfter none body = readBody body := rfl
  rw [hread, Bool.false_eq_true, false_or] at hres
  rw [matchClass_splitMark, hsplit, hscan]
  refine ⟨rfl, ?_⟩
  unfold clsBytes
  cases (splitMark p).1 with
  | false => exact hres
  | true =>
    show (!res) = true ↔ ¬ ch ∈ classBytes firstAndBetween (readBody body)
    rw [← hres, Bool.not_eq_true, Bool.not_eq_true']

end Class

theorem anySuffix_iff {f : Str → Bool} {t : Str} :
    anySuffix f t = true ↔ ∃ s, s <:+ t ∧ f s = true := by
  induction t with
  | nil => simp [anySuffix]
  | cons c t ih =>
    rw [anySuffix, Bool.or_eq_true, ih]
    constructor
    · rintro (h | ⟨s, hs, h⟩)
      · exact ⟨c :: t, List.suffix_refl _, h⟩
      · exact ⟨s, hs.trans (List.suffix_cons c t), h⟩
    · rintro ⟨s, hs, h⟩
      rcases List.suffix_cons_iff.mp hs with rfl | hs
      · exact .inl h
      · exact .inr ⟨s, hs, h⟩

/-- A star leaves any part of the text to what follows it, another star too. -/
theorem globMatch_star (p t : Str) :
    globMatch (byte '*' :: p) t = true ↔ ∃ s, s <:+ t ∧ globMatch p s = true := by
  have hstar : ∀ q u, globMatch (byte '*' :: q) u =
      if q.dropWhile (· = byte '*') = [] then true
      else anySuffix (fun u => globMatch (q.dropWhile (· = byte '*')) u) u := by
    intro q u
    rw [globMatch.eq_def]
    rfl
  induction p generalizing t with
  | nil =>
    rw [hstar]
    refine iff_of_true rfl ⟨[], List.nil_suffix, ?_⟩
    rw [globMatch]
    rfl
  | cons c p ih =>
    by_cases hc : c = byte '*'
    · have hsame : globMatch (byte '*' :: c :: p) t = globMatch (c :: p) t := by
        rw [hc, hstar, hstar, List.dropWhile_cons_of_pos (by simp)]
      rw [hsame]
      subst hc
      constructor
      · intro h
        exact ⟨t, List.suffix_refl t, h⟩
      · rintro ⟨s, hs, h⟩
        obtain ⟨s', hs', h'⟩ := (ih s).mp h
        exact (ih t).mpr ⟨s', hs'.trans hs, h'⟩
    · rw [hstar, List.dropWhile_cons_of_neg (by simpa using hc), if_neg (List.cons_ne_nil c p)]
      exact anySuffix_iff

theorem globMatch_any (p t : Str) :
    globMatch (byte '?' :: p) t = true ↔ ∃ ch b, t = ch :: b ∧ globMatch p b = true := by
  rw [globMatch.eq_def]
  cases t <;> simp

theorem globMatch_class (p t : Str) :
    globMatch (byte '[' :: p) t = true ↔
      ∃ ch b, t = ch :: b ∧ (matchClass p ch).1 = true ∧
        globMatch (matchClass p ch).2 b = true := by
  have hany : byte '[' ≠ byte '?' := by decide
  have hstar : byte '[' ≠ byte '*' := by decide
  rw [globMatch.eq_def]
  simp only [if_neg hany, if_neg hstar]
  cases t <;> simp

theorem globMatch_one {c : UInt8} (p t : Str) (hany : c ≠ byte '?') (hstar : c ≠ byte '*')
    (hclass : c ≠ byte '[') :
    globMatch (c :: p) t = true ↔ ∃ b, t = c :: b ∧ globMatch p b = true := by
  rw [globMatch.eq_def]
  simp only [if_neg hany, if_neg hstar, if_neg hclass]
  cases t <;> simp [and_assoc]

section
variable {range : UInt8 → UInt8 → Set UInt8} {items : List Item}

theorem mem_language_nil {t : Str} : t ∈ language range [] ↔ t = [] := Iff.rfl

theorem mem_language_cons {item : Item} {t : Str} :
    t ∈ language range (item :: items) ↔
      ∃ a ∈ item.language range, ∃ b ∈ language range items, a ++ b = t := by
  rw [language, List.map_cons, List.prod_cons, Language.mem_mul]
  rfl

theorem mem_language_byte {item : Item} {bytes : Set UInt8}
    (h : item.language range = oneByte bytes) {t : Str} :
    t ∈ language range (item :: items) ↔
      ∃ ch ∈ bytes, ∃ b ∈ language range items, t = ch :: b := by
  rw [mem_language_cons, h]
  constructor
  · rintro ⟨_, ⟨ch, hch, rfl⟩, b, hb, rfl⟩
    exact ⟨ch, hch, b, hb, rfl⟩
  · rintro ⟨ch, hch, b, hb, rfl⟩
    exact ⟨[ch], ⟨ch, hch, rfl⟩, b, hb, rfl⟩

theorem mem_language_star {t : Str} :
    t ∈ language range (.star :: items) ↔ ∃ s, s <:+ t ∧ s ∈ language range items := by
  rw [mem_language_cons]
  constructor
  · rintro ⟨a, -, b, hb, rfl⟩
    exact ⟨b, List.suffix_append a b, hb⟩
  · rintro ⟨s, ⟨a, rfl⟩, hs⟩
    exact ⟨a, trivial, s, hs, rfl⟩

end

theorem globMatch_iff {admits : Str → Bool} {p : Str} {items : List Item}
    (h : readItems admits p = some items)
    (hplain : ∀ item ∈ items, item.Plain) (t : Str) :
    globMatch p t = true ↔ t ∈ language firstAndBetween items := by
  induction p using readItems.induct admits generalizing items t with
  | case1 =>
    rw [readItems] at h
    cases h
    rw [globMatch, decide_eq_true_eq]
    exact mem_language_nil.symm
  | case2 p ih =>
    rw [readItems, if_pos rfl] at h
    obtain ⟨items, hp, rfl⟩ := Option.map_eq_some_iff.mp h
    have hmatch := ih hp (List.forall_mem_cons.mp hplain).2
    rw [globMatch_any, mem_language_byte rfl]
    constructor
    · rintro ⟨ch, b, ht, hb⟩
      exact ⟨ch, trivial, b, (hmatch b).mp hb, ht⟩
    · rintro ⟨ch, -, b, hb, ht⟩
      exact ⟨ch, b, ht, (hmatch b).mpr hb⟩
  | case3 p hany ih =>
    rw [readItems, if_neg hany, if_pos rfl] at h
    obtain ⟨items, hp, rfl⟩ := Option.map_eq_some_iff.mp h
    have hmatch := ih hp (List.forall_mem_cons.mp hplain).2
    rw [globMatch_star, mem_language_star]
    exact exists_congr fun s => and_congr_right fun _ => hmatch s
  | case4 p hopen hany hstar =>
    rw [readItems_open hopen] at h
    cases h
  | case5 p body rest hclose hadmits hany hstar ih =>
    obtain ⟨_, items, hp, rfl⟩ := readItems_class h hclose
    obtain ⟨hclass, hplain'⟩ := List.forall_mem_cons.mp hplain
    have hmatch := ih hp hplain'
    rw [globMatch_class, mem_language_byte rfl]
    refine exists_congr fun ch => ?_
    obtain ⟨hrest, hin⟩ := @matchClass_eq ch p body rest hclose hclass
    rw [hrest, hin]
    constructor
    · rintro ⟨b, ht, hch, hb⟩
      exact ⟨hch, b, (hmatch b).mp hb, ht⟩
    · rintro ⟨hch, b, hb, ht⟩
      exact ⟨b, ht, hch, (hmatch b).mpr hb⟩
  | case6 p body rest hclose hadmits hany hstar =>
    exact absurd (readItems_class h hclose).1 hadmits
  | case7 c p hany hstar hclass ih =>
    rw [readItems, if_neg hany, if_neg hstar, if_neg hclass] at h
    obtain ⟨items, hp, rfl⟩ := Option.map_eq_some_iff.mp h
    have hmatch := ih hp (List.forall_mem_cons.mp hplain).2
    rw [globMatch_one p t hany hstar hclass, mem_language_byte rfl]
    constructor
    · rintro ⟨b, ht, hb⟩
      exact ⟨c, rfl, b, (hmatch b).mp hb, ht⟩
    · rintro ⟨_, rfl, b, hb, ht⟩
      exact ⟨b, ht, (hmatch b).mpr hb⟩

/-- The matcher accepts the language of a well-formed pattern. -/
theorem globMatchBytes_iff {p : Str} {items : List Item} (h : readPattern p = some items)
    (t : Str) : globMatchBytes p t = true ↔ t ∈ language firstAndBetween items :=
  globMatch_iff h (plain_of_readPattern h) t

theorem globMatchBytes_bash :
    globMatchBytes (ascii "b[!a-c]s*") (ascii "bosh") = true ↔
      ascii "bosh" ∈ language firstAndBetween
        [.one (byte 'b'), .cls true [.range (byte 'a') (byte 'c')], .one (byte 's'), .star] :=
  globMatchBytes_iff (by decide +kernel) _

/-- The first byte of a range that runs backwards matches. -/
theorem globMatchBytes_backwards :
    ∃ items, readPattern (ascii "[z-a]") = some items ∧
      globMatchBytes (ascii "[z-a]") (ascii "z") = true ∧ ascii "z" ∉ language between items := by
  refine ⟨[.cls false [.range (byte 'z') (byte 'a')]], by decide +kernel, by decide +kernel, ?_⟩
  rw [mem_language_byte rfl]
  rintro ⟨ch, hch, b, -, ht⟩
  have hz : ch = byte 'z' := (List.cons.inj ht).1.symm
  simp only [clsBytes, Bool.false_eq_true, if_false, mem_classBytes_cons, mem_classBytes_nil,
    or_false, Member.bytes, between, Set.mem_ofPred_eq, hz] at hch
  exact absurd hch.2 (by decide)

def Member.Forwards : Member → Prop
  | .single _ => True
  | .range first last => first ≤ last

def Item.Forwards : Item → Prop
  | .cls _ members => ∀ m ∈ members, m.Forwards
  | _ => True

theorem Member.Forwards.bytes_eq {m : Member} (h : m.Forwards) :
    m.bytes firstAndBetween = m.bytes between := by
  cases m with
  | single c => rfl
  | range first last => exact Set.insert_eq_of_mem ⟨UInt8.le_refl _, h⟩

theorem Item.Forwards.language_eq {item : Item} (h : item.Forwards) :
    item.language firstAndBetween = item.language between := by
  cases item with
  | any => rfl
  | star => rfl
  | one c => rfl
  | cls negated members =>
    have hbytes : classBytes firstAndBetween members = classBytes between members := by
      ext ch
      exact exists_congr fun m => and_congr_right fun hm => by rw [(h m hm).bytes_eq]
    simp only [Item.language, clsBytes, hbytes]

/-- A pattern whose ranges all run forwards stands for what ranges usually stand for. -/
theorem globMatchBytes_forwards {p : Str} {items : List Item} (h : readPattern p = some items)
    (hforwards : ∀ item ∈ items, item.Forwards) (t : Str) :
    globMatchBytes p t = true ↔ t ∈ language between items := by
  have hsame : language firstAndBetween items = language between items := by
    unfold language
    rw [List.map_congr_left fun item hitem => (hforwards item hitem).language_eq]
  rw [← hsame]
  exact globMatch_iff h (plain_of_readPattern h) t

end ExtKtrace.TpLexer
