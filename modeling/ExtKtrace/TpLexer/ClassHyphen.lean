import ExtKtrace.TpLexer.GlobLanguage

/-!
# A hyphen at the end of a class

The scan takes a `-` behind a byte for a range without a look at the byte after it, which is the
`]` of the class when the `-` is the last byte of the body.
-/

namespace ExtKtrace.TpLexer
set_option autoImplicit false

/-- Such a hyphen takes the `]` for the end of a range, and the scan goes on behind the class. -/
theorem scanClass_swallow {ch : UInt8} {rest : Str} (body : Str) (hclose : byte ']' ∉ body)
    (matched : Bool) (prev : Option UInt8)
    (hbehind : HyphenBehindSingle (readBody (prev.toList ++ body))) :
    ∃ matched', scanClass ch (body ++ byte ']' :: rest) matched prev =
      scanClass ch rest matched' none := by
  match body with
  | [] =>
    obtain ⟨c, hsuffix⟩ := hbehind
    have hlen := hsuffix.length_le
    cases prev <;> simp [readBody] at hlen
  | c :: body =>
    have hc : c ≠ byte ']' := fun heq => hclose (heq ▸ List.mem_cons_self)
    have hclose' : byte ']' ∉ body := fun hmem => hclose (List.mem_cons_of_mem _ hmem)
    by_cases hrange : c = byte '-' ∧ ∃ first, prev = some first
    · obtain ⟨rfl, first, rfl⟩ := hrange
      cases body with
      | nil => exact ⟨_, scanClass_range first (byte ']') rest matched⟩
      | cons last body =>
        obtain ⟨matched', hscan⟩ := @scanClass_swallow ch rest body
          (fun hmem => hclose' (List.mem_cons_of_mem _ hmem))
          (matched || (first ≤ ch && ch ≤ last)) none
          ((hyphenBehindSingle_range first last body).mp hbehind)
        exact ⟨matched', (scanClass_range first last _ matched).trans hscan⟩
    · obtain ⟨matched', hscan⟩ := @scanClass_swallow ch rest body hclose' (matched || ch = c)
        (some c) ((hyphenBehindSingle_prev hrange body).mp hbehind)
      exact ⟨matched', (scanClass_single hc hrange _ matched).trans hscan⟩
termination_by body.length

/-- The `-` is the end of a range that runs backwards, and no other member holds it. -/
def HyphenEndsBackwards (members : List Member) : Prop :=
  ∃ front first, members = front ++ [.range first (byte '-')] ∧ byte '-' < first ∧
    byte '-' ∉ classBytes firstAndBetween front

theorem mem_classBytes_concat {range : UInt8 → UInt8 → Set UInt8} {ch : UInt8}
    {front : List Member} {m : Member} :
    ch ∈ classBytes range (front ++ [m]) ↔ ch ∈ classBytes range front ∨ ch ∈ m.bytes range := by
  simp [classBytes, or_and_right, exists_or]

theorem hyphen_mem_iff {members : List Member}
    (hlast : members.getLast?.map Member.last = some (byte '-')) :
    byte '-' ∈ classBytes firstAndBetween members ↔ ¬ HyphenEndsBackwards members := by
  obtain ⟨m, hm, hend⟩ := Option.map_eq_some_iff.mp hlast
  obtain ⟨front, rfl⟩ := List.getLast?_eq_some_iff.mp hm
  rw [mem_classBytes_concat]
  cases m with
  | single c =>
    refine iff_of_true (.inr hend.symm) ?_
    rintro ⟨front', first, heq, -⟩
    cases (List.append_inj' heq rfl).2
  | range first last =>
    obtain rfl : last = byte '-' := hend
    constructor
    · rintro hmem ⟨front', first', heq, hback, hfront⟩
      obtain ⟨rfl, hrange⟩ := List.append_inj' heq rfl
      cases hrange
      rcases hmem with hmem | heq | ⟨hle, -⟩
      · exact hfront hmem
      · rw [← heq] at hback
        exact UInt8.lt_irrefl _ hback
      · exact UInt8.not_lt.mpr hle hback
    · intro hforwards
      by_cases hfront : byte '-' ∈ classBytes firstAndBetween front
      · exact .inl hfront
      · refine .inr (.inr ⟨UInt8.not_lt.mp fun hback => ?_, UInt8.le_refl _⟩)
        exact hforwards ⟨front, first, rfl, hback, hfront⟩

/-- The bytes of a class whose body ends in a hyphen: the hyphen is in the set, whatever the bytes
before it make of it. -/
def hyphenBytes (negated : Bool) (members : List Member) : Set UInt8 :=
  clsBytes firstAndBetween negated (.single (byte '-') :: members)

/-- The answer for a class whose body ends in a hyphen: the hyphen is a member, and the pattern goes
on behind its `]`. -/
def ReadsClass (p body rest : Str) (ch : UInt8) : Prop :=
  (matchClass p ch).2 = rest ∧
    ((matchClass p ch).1 = true ↔ ch ∈ hyphenBytes (splitMark p).1 (readBody body))

theorem mem_hyphenBytes_iff {negated : Bool} {members : List Member} {ch : UInt8} :
    (ch ∈ clsBytes firstAndBetween negated members ↔ ch ∈ hyphenBytes negated members) ↔
      (ch = byte '-' → byte '-' ∈ classBytes firstAndBetween members) := by
  have hset : (ch ∈ classBytes firstAndBetween members ↔
      ch ∈ classBytes firstAndBetween (.single (byte '-') :: members)) ↔
      (ch = byte '-' → byte '-' ∈ classBytes firstAndBetween members) := by
    rw [mem_classBytes_cons]
    constructor
    · rintro h rfl
      exact h.mpr (.inl rfl)
    · intro h
      refine ⟨.inr, fun hor => hor.elim (fun heq => ?_) id⟩
      exact heq ▸ h heq
  cases negated with
  | false => exact hset
  | true => exact not_iff_not.trans hset

theorem hyphenBytes_of_mem {negated : Bool} {members : List Member}
    (h : byte '-' ∈ classBytes firstAndBetween members) :
    hyphenBytes negated members = clsBytes firstAndBetween negated members :=
  Set.ext fun _ => (mem_hyphenBytes_iff.mpr fun _ => h).symm

theorem readsClass_of_swallow {p body rest : Str} {ch : UInt8}
    (h : closeClass (splitMark p).2 = some (body, rest))
    (hbehind : HyphenBehindSingle (readBody body)) :
    ReadsClass p body rest ch ↔ rest = [] ∧ ch ∉ hyphenBytes (splitMark p).1 (readBody body) := by
  obtain ⟨hsplit, hclose⟩ := closeClass_eq_some h
  obtain ⟨matched, hscan⟩ := @scanClass_swallow ch rest body hclose false none hbehind
  unfold ReadsClass
  rw [matchClass_splitMark, hsplit, hscan]
  cases hrest : scanClass ch rest matched none with
  | none => simp [eq_comm]
  | some found =>
    obtain ⟨res, q⟩ := found
    have hlen := scanClass_length hrest
    constructor
    · rintro ⟨hq, -⟩
      exact absurd (congrArg List.length hq) (Nat.ne_of_lt hlen)
    · rintro ⟨hnil, -⟩
      rw [hnil] at hlen
      exact absurd hlen (Nat.not_lt_zero _)

/-- A class that the scan closes at its `]` has every byte but the hyphen right. -/
theorem readsClass_of_plain {p body rest : Str} {ch : UInt8}
    (h : closeClass (splitMark p).2 = some (body, rest))
    (hlast : body.getLast? = some (byte '-'))
    (hbehind : ¬ HyphenBehindSingle (readBody body)) :
    ReadsClass p body rest ch ↔ (ch = byte '-' → ¬ HyphenEndsBackwards (readBody body)) := by
  obtain ⟨hrest, hset⟩ := @matchClass_eq ch p body rest h hbehind
  unfold ReadsClass
  rw [hset, mem_hyphenBytes_iff, hyphen_mem_iff ((readBody_last body).trans hlast)]
  exact and_iff_right hrest

/-- The item with the hyphen of its class as a member. -/
def Item.meant : Item → Item
  | .cls negated members =>
    if members.getLast?.map Member.last = some (byte '-') then
      .cls negated (.single (byte '-') :: members)
    else .cls negated members
  | item => item

/-- No class that makes anything else of a hyphen at its end. -/
def Item.Hyphenated : Item → Prop
  | .cls _ members => ¬ HyphenBehindSingle members ∧ ¬ HyphenEndsBackwards members
  | _ => True

theorem Item.Hyphenated.plain {item : Item} (h : item.Hyphenated) : item.Plain := by
  cases item with
  | cls negated members => exact h.1
  | any => trivial
  | star => trivial
  | one c => trivial

theorem Item.Hyphenated.language_meant {item : Item} (h : item.Hyphenated) :
    item.meant.language firstAndBetween = item.language firstAndBetween := by
  cases item with
  | cls negated members =>
    by_cases hlast : members.getLast?.map Member.last = some (byte '-')
    · rw [Item.meant, if_pos hlast]
      exact congrArg oneByte (hyphenBytes_of_mem ((hyphen_mem_iff hlast).mpr h.2))
    · rw [Item.meant, if_neg hlast]
  | any => rfl
  | star => rfl
  | one c => rfl

theorem language_meant {items : List Item} (h : ∀ item ∈ items, item.Hyphenated) :
    language firstAndBetween (items.map Item.meant) = language firstAndBetween items := by
  unfold language
  rw [List.map_map]
  exact congrArg List.prod (List.map_congr_left fun item hitem => (h item hitem).language_meant)

/-- When a class whose body ends in a hyphen has the hyphen as a member and ends at its `]`; and a
pattern whose classes all do matches the texts it is meant for. -/
theorem matchClass_hyphen_iff (p : Str) :
    (∀ body rest, closeClass (splitMark p).2 = some (body, rest) →
      body.getLast? = some (byte '-') → ∀ ch, (ReadsClass p body rest ch ↔
        (¬ HyphenBehindSingle (readBody body) ∧
          (ch = byte '-' → ¬ HyphenEndsBackwards (readBody body))) ∨
        (HyphenBehindSingle (readBody body) ∧ rest = [] ∧
          ch ∉ hyphenBytes (splitMark p).1 (readBody body)))) ∧
    ∀ items, readGlob p = some items → (∀ item ∈ items, item.Hyphenated) →
      ∀ t, globMatchBytes p t = true ↔ t ∈ language firstAndBetween (items.map Item.meant) := by
  constructor
  · intro body rest h hlast ch
    by_cases hbehind : HyphenBehindSingle (readBody body)
    · rw [readsClass_of_swallow h hbehind]
      exact ⟨fun hright => .inr ⟨hbehind, hright⟩,
        fun hor => hor.elim (fun hleft => absurd hbehind hleft.1) And.right⟩
    · rw [readsClass_of_plain h hlast hbehind]
      exact ⟨fun hright => .inl ⟨hbehind, hright⟩,
        fun hor => hor.elim And.right fun hright => absurd hright.1 hbehind⟩
  · intro items h hitems t
    rw [language_meant hitems]
    exact globMatch_iff h (fun item hitem => (hitems item hitem).plain) t

theorem matchClass_hyphen_behind_range :
    (ReadsClass (ascii "+--a-c-]x") (ascii "+--a-c-") (ascii "x") (byte '-') ↔
      (¬ HyphenBehindSingle (readBody (ascii "+--a-c-")) ∧
        (byte '-' = byte '-' → ¬ HyphenEndsBackwards (readBody (ascii "+--a-c-")))) ∨
      (HyphenBehindSingle (readBody (ascii "+--a-c-")) ∧ ascii "x" = [] ∧
        byte '-' ∉ hyphenBytes (splitMark (ascii "+--a-c-]x")).1
          (readBody (ascii "+--a-c-")))) ∧
    (globMatchBytes (ascii "[a-c-]x") (ascii "-x") = true ↔
      ascii "-x" ∈ language firstAndBetween
        [.cls false [.single (byte '-'), .range (byte 'a') (byte 'c'), .single (byte '-')],
          .one (byte 'x')]) := by
  have hclose : closeClass (splitMark (ascii "+--a-c-]x")).2 =
      some (ascii "+--a-c-", ascii "x") := by
    decide +kernel
  refine ⟨(matchClass_hyphen_iff _).1 _ _ hclose (by decide +kernel) (byte '-'), ?_⟩
  refine (matchClass_hyphen_iff _).2
    [.cls false [.range (byte 'a') (byte 'c'), .single (byte '-')], .one (byte 'x')]
    (by decide +kernel) ?_ _
  have hplain : ¬ HyphenBehindSingle [.range (byte 'a') (byte 'c'), .single (byte '-')] := by
    rintro ⟨c, hsuffix⟩
    cases hsuffix.eq_of_length rfl
  have hends : ¬ HyphenEndsBackwards [.range (byte 'a') (byte 'c'), .single (byte '-')] :=
    (hyphen_mem_iff rfl).mp ⟨.single (byte '-'), by decide, rfl⟩
  simpa [Item.Hyphenated] using ⟨hplain, hends⟩

/-- The hyphen of `[a-]` makes a range with the `]`, and nothing closes the class. The one of
`[a--]` ends a range that runs backwards, and the class does not hold it. -/
theorem matchClass_hyphen_open :
    (closeClass (splitMark (ascii "a-]")).2 = some (ascii "a-", []) ∧
      (ascii "a-").getLast? = some (byte '-') ∧
      ¬ ReadsClass (ascii "a-]") (ascii "a-") [] (byte '-')) ∧
    (closeClass (splitMark (ascii "a--]")).2 = some (ascii "a--", []) ∧
      (ascii "a--").getLast? = some (byte '-') ∧
      ¬ ReadsClass (ascii "a--]") (ascii "a--") [] (byte '-')) ∧
    ∃ items, readGlob (ascii "[a-]") = some items ∧
      ascii "-" ∈ language firstAndBetween (items.map Item.meant) ∧
      globMatchBytes (ascii "[a-]") (ascii "-") = false := by
  have hin (members : List Member) : byte '-' ∈ hyphenBytes false members :=
    ⟨.single (byte '-'), List.mem_cons_self, rfl⟩
  refine ⟨⟨by decide +kernel, by decide +kernel, fun ⟨_, hset⟩ => ?_⟩,
    ⟨by decide +kernel, by decide +kernel, fun ⟨_, hset⟩ => ?_⟩,
    [.cls false [.single (byte 'a'), .single (byte '-')]], by decide +kernel, ?_, by decide +kernel⟩
  · have hmatch : (matchClass (ascii "a-]") (byte '-')).1 = false := by decide +kernel
    exact Bool.false_ne_true (hmatch.symm.trans (hset.mpr (hin _)))
  · have hmatch : (matchClass (ascii "a--]") (byte '-')).1 = false := by decide +kernel
    exact Bool.false_ne_true (hmatch.symm.trans (hset.mpr (hin _)))
  · exact (mem_language_byte rfl).mpr ⟨byte '-', hin _, [], mem_language_nil.mpr rfl, rfl⟩

end ExtKtrace.TpLexer
