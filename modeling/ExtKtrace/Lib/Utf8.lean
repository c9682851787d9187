import Mathlib.Algebra.GroupWithZero.Nat
import Mathlib.Data.List.DropRight

/-!
# Text as UTF-8

A text is the list of its characters; `encode` gives its bytes and `decode` reads bytes back,
as far as they are the bytes of a text.
-/

namespace ExtKtrace.Utf8
set_option autoImplicit false

abbrev Str := List Char

def encode (s : Str) : List UInt8 := s.flatMap String.utf8EncodeChar

def decode (bytes : List UInt8) : Option Str := bytes.toByteArray.utf8Decode?.map Array.toList

/-- The characters with the Unicode property `White_Space`. -/
def isWhitespace (c : Char) : Bool :=
  let n := c.toNat
  (9 ≤ n && n ≤ 13) || n = 0x20 || n = 0x85 || n = 0xA0 || n = 0x1680 ||
    (0x2000 ≤ n && n ≤ 0x200A) || n = 0x2028 || n = 0x2029 || n = 0x202F || n = 0x205F ||
    n = 0x3000

def trim (s : Str) : Str := (s.dropWhile isWhitespace).rdropWhile isWhitespace

def splitWhitespace (s : Str) : List Str := (s.splitOnP isWhitespace).filter (· ≠ [])

/-- Texts whose characters take one byte each. -/
def Ascii (s : Str) : Prop := ∀ c ∈ s, c.toNat < 128

instance (s : Str) : Decidable (Ascii s) := List.decidableBAll _ s

@[simp] theorem encode_nil : encode [] = [] := rfl

theorem encode_cons (c : Char) (s : Str) :
    encode (c :: s) = String.utf8EncodeChar c ++ encode s := List.flatMap_cons

theorem encode_append (s t : Str) : encode (s ++ t) = encode s ++ encode t :=
  List.flatMap_append

theorem toByteArray_encode (s : Str) : (encode s).toByteArray = s.utf8Encode := rfl

theorem decode_encode_append (s : Str) (bytes : List UInt8) :
    decode (encode s ++ bytes) = (decode bytes).map (s ++ ·) := by
  induction s with
  | nil =>
    rw [encode_nil, List.nil_append]
    cases decode bytes <;> rfl
  | cons c s ih =>
    unfold decode at ih ⊢
    rw [encode_cons, List.append_assoc, List.toByteArray_append]
    have hchar : (String.utf8EncodeChar c).toByteArray = [c].utf8Encode := by
      rw [← toByteArray_encode, encode_cons, encode_nil, List.append_nil]
    rw [hchar, ByteArray.utf8Decode?_utf8Encode_singleton_append, Option.map_map]
    have hrest := congrArg (Option.map (c :: ·)) ih
    simpa [Option.map_map, Function.comp_def] using hrest

@[simp] theorem decode_nil : decode [] = some [] := by
  have h := List.utf8Decode?_utf8Encode (l := [])
  rw [← toByteArray_encode, encode_nil] at h
  unfold decode
  rw [h]
  rfl

@[simp] theorem decode_encode (s : Str) : decode (encode s) = some s := by
  have h := decode_encode_append s []
  rwa [List.append_nil, decode_nil, Option.map_some, List.append_nil] at h

theorem decode_eq_some {bytes : List UInt8} {s : Str} :
    decode bytes = some s ↔ encode s = bytes := by
  constructor
  · intro h
    obtain ⟨chars, hchars, rfl⟩ := Option.map_eq_some_iff.mp h
    have hsome : bytes.toByteArray.utf8Decode?.isSome := by rw [hchars]; rfl
    have henc := ByteArray.utf8Encode_get_utf8Decode? (h := hsome)
    simp only [hchars, Option.get_some] at henc
    rw [← toByteArray_encode] at henc
    exact List.toByteArray_inj.mp henc
  · rintro rfl
    exact decode_encode s

theorem encode_injective : Function.Injective encode := by
  intro s t h
  have hs := decode_encode s
  rw [h, decode_encode] at hs
  exact (Option.some.inj hs).symm

theorem encode_ne_nil {s : Str} (h : s ≠ []) : encode s ≠ [] := fun h0 =>
  h (encode_injective h0)

/-- `0xFF` is no byte of UTF-8. -/
theorem ne_of_mem_utf8EncodeChar {c : Char} {b : UInt8} (h : b ∈ String.utf8EncodeChar c) :
    b ≠ 0xFF := by
  have hmax : c.val.toNat < 0x110000 := by
    have hvalid := c.valid
    simp only [UInt32.isValidChar, Nat.isValidChar] at hvalid
    omega
  have hall : ∀ b ∈ String.utf8EncodeChar c, b.toNat < 255 := by
    unfold String.utf8EncodeChar
    simp only
    repeat' split
    all_goals
      simp only [List.forall_mem_cons, List.not_mem_nil, false_implies, implies_true, and_true,
        UInt8.toNat_ofNat']
      omega
  intro hb
  have hlt := hall b h
  rw [hb] at hlt
  exact absurd hlt (by decide)

theorem ne_of_mem_encode {s : Str} {b : UInt8} (h : b ∈ encode s) : b ≠ 0xFF := by
  obtain ⟨c, _, hc⟩ := List.mem_flatMap.mp h
  exact ne_of_mem_utf8EncodeChar hc

/-- No text has the byte `0xFF` in it. -/
theorem decode_eq_none {bytes : List UInt8} (h : 0xFF ∈ bytes) : decode bytes = none := by
  cases hdec : decode bytes with
  | none => rfl
  | some s =>
    rw [← decode_eq_some.mp hdec] at h
    exact absurd rfl (ne_of_mem_encode h)

theorem encode_cons_ascii {c : Char} (h : c.toNat < 128) (s : Str) :
    encode (c :: s) = UInt8.ofNat c.toNat :: encode s := by
  have hc : c.toNat = c.val.toNat := rfl
  rw [encode_cons]
  unfold String.utf8EncodeChar
  simp only
  rw [if_pos (by omega)]
  rfl

theorem encode_ascii {s : Str} (h : Ascii s) : encode s = s.map fun c => UInt8.ofNat c.toNat := by
  induction s with
  | nil => rfl
  | cons c s ih =>
    rw [encode_cons_ascii (h c List.mem_cons_self),
      ih fun d hd => h d (List.mem_cons_of_mem _ hd), List.map_cons]

/-- A text of one byte a character can be cut anywhere. -/
theorem decode_take_ascii {s : Str} (h : Ascii s) (l : Nat) :
    decode ((encode s).take l) = some (s.take l) := by
  rw [decode_eq_some, encode_ascii h, encode_ascii fun c hc => h c (List.mem_of_mem_take hc),
    List.map_take]

def IsText (bytes : List UInt8) : Prop := ∃ s, encode s = bytes

/-- A character is one ASCII byte, or it starts with a byte that continues none and has no ASCII
byte in it. -/
theorem utf8EncodeChar_cons (c : Char) : ∃ b rest, String.utf8EncodeChar c = b :: rest ∧
    (b < 0x80 ∧ rest = [] ∨ 0xC0 ≤ b ∧ ∀ d ∈ rest, 0x80 ≤ d) := by
  unfold String.utf8EncodeChar
  simp only
  repeat' split
  · rename_i h
    refine ⟨_, _, rfl, .inl ⟨?_, rfl⟩⟩
    rw [UInt8.lt_iff_toNat_lt, UInt8.toNat_ofNat']
    exact Nat.lt_of_le_of_lt (Nat.mod_le _ _) (Nat.lt_of_le_of_lt h (by decide))
  all_goals
    refine ⟨_, _, rfl, .inr ?_⟩
    simp only [List.forall_mem_cons, List.not_mem_nil, false_implies, implies_true, and_true,
      UInt8.le_iff_toNat_le, UInt8.toNat_ofNat', UInt8.reduceToNat]
    omega

theorem IsText.head {bytes : List UInt8} (h : IsText bytes) :
    ∀ b ∈ bytes.head?, b < 0x80 ∨ 0xC0 ≤ b := by
  obtain ⟨s, rfl⟩ := h
  intro b hhead
  rcases s with _ | ⟨c, s⟩
  · cases hhead
  · obtain ⟨first, rest, hc, hfirst⟩ := utf8EncodeChar_cons c
    rw [encode_cons, hc] at hhead
    cases hhead
    rcases hfirst with ⟨hb, -⟩ | ⟨hb, -⟩
    · exact .inl hb
    · exact .inr hb

/-- An ASCII byte is a character of its own, wherever it stands. -/
theorem IsText.cut {w bytes : List UInt8} {b : UInt8} (h : IsText (w ++ b :: bytes))
    (hb : b < 0x80) : IsText w ∧ IsText (b :: bytes) ∧ IsText bytes := by
  obtain ⟨s, hs⟩ := h
  induction s generalizing w with
  | nil =>
    rw [encode_nil, List.nil_eq, List.append_eq_nil_iff] at hs
    cases hs.2
  | cons c s ih =>
    rw [encode_cons, List.append_eq_append_iff] at hs
    rcases hs with ⟨rest, rfl, hs⟩ | ⟨rest, hc, hs⟩
    · obtain ⟨⟨s', rfl⟩, hright⟩ := ih hs
      exact ⟨⟨c :: s', encode_cons c s'⟩, hright⟩
    rcases rest with _ | ⟨b', rest⟩
    · rw [List.append_nil] at hc
      obtain ⟨-, hright⟩ := ih (w := []) hs.symm
      exact ⟨⟨[c], by rw [encode_cons, hc, encode_nil, List.append_nil]⟩, hright⟩
    · obtain ⟨rfl, hs⟩ := List.cons.inj hs
      obtain ⟨first, tail, hchar, htail⟩ := utf8EncodeChar_cons c
      have hmem : b ∈ first :: tail := by
        rw [← hchar, hc]
        exact List.mem_append_right _ List.mem_cons_self
      -- A character of more bytes has no ASCII byte.
      rcases htail with ⟨-, rfl⟩ | ⟨hfirst, htail⟩
      · rw [hchar, eq_comm, List.append_eq_singleton_iff] at hc
        rcases hc with ⟨rfl, hc⟩ | ⟨-, hc⟩
        · cases hc
          exact ⟨⟨[], rfl⟩, ⟨c :: s, by rw [encode_cons, hchar, hs]⟩,
            ⟨s, (List.cons.inj hs).2.symm⟩⟩
        · cases hc
      · have hhigh : 0x80 ≤ b := by
          rcases List.mem_cons.mp hmem with rfl | hmem
          · exact UInt8.le_trans (by decide) hfirst
          · exact htail b hmem
        exact absurd hb (UInt8.not_lt.mpr hhigh)

theorem ascii_iff {s : Str} : Ascii s ↔ ∀ b ∈ encode s, b < 0x80 := by
  constructor
  · intro h b hb
    rw [encode_ascii h] at hb
    obtain ⟨c, hc, rfl⟩ := List.mem_map.mp hb
    rw [UInt8.lt_iff_toNat_lt, UInt8.toNat_ofNat']
    exact Nat.lt_of_le_of_lt (Nat.mod_le _ _) (h c hc)
  · intro h c hc
    obtain ⟨b, rest, hchar, hb⟩ := utf8EncodeChar_cons c
    have hmem : b ∈ encode s := List.mem_flatMap.mpr ⟨c, hc, by rw [hchar]; exact List.mem_cons_self⟩
    rcases hb with ⟨-, rfl⟩ | ⟨hb, -⟩
    · have hsize := String.length_utf8EncodeChar c
      rw [hchar, List.length_singleton, eq_comm, Char.utf8Size_eq_one_iff] at hsize
      exact Nat.lt_succ_of_le (UInt32.le_iff_toNat_le.mp hsize)
    · exact absurd (h b hmem) (UInt8.not_lt.mpr (UInt8.le_trans (by decide) hb))

theorem IsText.of_ascii {bytes : List UInt8} (h : ∀ b ∈ bytes, b < 0x80) : IsText bytes := by
  induction bytes with
  | nil => exact ⟨[], rfl⟩
  | cons b bytes ih =>
    obtain ⟨s, rfl⟩ := ih fun c hc => h c (List.mem_cons_of_mem _ hc)
    have hb : b.toNat < 128 := UInt8.lt_iff_toNat_lt.mp (h b List.mem_cons_self)
    have hvalid : b.toUInt32.isValidChar := .inl (by rw [UInt8.toNat_toUInt32]; omega)
    have hchar : (⟨b.toUInt32, hvalid⟩ : Char).toNat = b.toNat := UInt8.toNat_toUInt32 b
    refine ⟨⟨b.toUInt32, hvalid⟩ :: s, ?_⟩
    rw [encode_cons_ascii (by rwa [hchar]), hchar, UInt8.ofNat_toNat]

theorem IsText.after_ascii {w bytes : List UInt8} (h : IsText (w ++ bytes))
    (hw : ∀ b ∈ w, b < 0x80) : IsText bytes := by
  induction w with
  | nil => exact h
  | cons b w ih =>
    have hcut := IsText.cut (w := []) h (hw b List.mem_cons_self)
    exact ih hcut.2.2 fun d hd => hw d (List.mem_cons_of_mem _ hd)

theorem IsText.before_ascii {w bytes : List UInt8} (h : IsText (w ++ bytes))
    (hb : ∀ b ∈ bytes.head?, b < 0x80) : IsText bytes := by
  rcases bytes with _ | ⟨b, bytes⟩
  · exact ⟨[], rfl⟩
  · exact (h.cut (hb b rfl)).2.1

def byteLen (s : Str) : Nat := (encode s).length

/-- The longest front part of at most that many bytes. -/
def fit : Nat → Str → Str
  | _, [] => []
  | limit, c :: s => if c.utf8Size ≤ limit then c :: fit (limit - c.utf8Size) s else []

/-- `str::split_at`; a panic is a position behind the end or inside a character. -/
def splitAt : Nat → Str → Option (Str × Str)
  | 0, s => some ([], s)
  | _ + 1, [] => none
  | mid + 1, c :: s =>
    if c.utf8Size ≤ mid + 1 then
      (splitAt (mid + 1 - c.utf8Size) s).map fun parts => (c :: parts.1, parts.2)
    else none

theorem byteLen_cons (c : Char) (s : Str) : byteLen (c :: s) = c.utf8Size + byteLen s := by
  rw [byteLen, encode_cons, List.length_append, String.length_utf8EncodeChar, byteLen]

/-- A text that fits is not cut. -/
theorem fit_of_le {limit : Nat} {s : Str} (h : byteLen s ≤ limit) : fit limit s = s := by
  induction s generalizing limit with
  | nil => rfl
  | cons c s ih =>
    rw [byteLen_cons] at h
    rw [fit, if_pos (by omega), ih (by omega)]

/-- The only place for a split is behind the part that fits. -/
theorem splitAt_eq (mid : Nat) (s : Str) : splitAt mid s =
    if byteLen (fit mid s) = mid then some (fit mid s, s.drop (fit mid s).length) else none := by
  induction s generalizing mid with
  | nil =>
    rcases mid with _ | mid
    · rfl
    · rfl
  | cons c s ih =>
    have hpos := c.utf8Size_pos
    rcases mid with _ | mid
    · have hnone : fit 0 (c :: s) = [] := if_neg (by omega)
      rw [splitAt, hnone]
      rfl
    · rw [splitAt, fit]
      split
      · rename_i hle
        rw [ih, byteLen_cons]
        by_cases hfit : byteLen (fit (mid + 1 - c.utf8Size) s) = mid + 1 - c.utf8Size
        · rw [if_pos hfit, if_pos (by omega)]
          rfl
        · rw [if_neg hfit, if_neg (by omega)]
          rfl
      · rfl

/-- The bytes of words, each with one byte behind it. -/
def spaced (words : List Str) : Nat := (words.map fun w => (encode w).length + 1).sum

theorem spaced_cons (w : Str) (words : List Str) :
    spaced (w :: words) = (encode w).length + 1 + spaced words := by
  rw [spaced, List.map_cons, List.sum_cons]
  rfl

theorem spaced_splitOnP (p : Char → Bool) (s : Str) :
    spaced (s.splitOnP p) ≤ (encode s).length + 1 := by
  induction s with
  | nil => exact Nat.le_refl _
  | cons c s ih =>
    have hpos := c.utf8Size_pos
    have hlength : (encode (c :: s)).length = c.utf8Size + (encode s).length := by
      rw [encode_cons, List.length_append, String.length_utf8EncodeChar]
    rw [List.splitOnP_cons_eq_if_modifyHead]
    split
    · rw [spaced_cons, encode_nil, List.length_nil]
      omega
    · cases hsplit : s.splitOnP p with
      | nil => exact absurd hsplit (List.splitOnP_ne_nil p s)
      | cons w words =>
        rw [hsplit, spaced_cons] at ih
        rw [List.modifyHead_cons, spaced_cons, encode_cons, List.length_append,
          String.length_utf8EncodeChar]
        omega

theorem spaced_filter_le (p : Str → Bool) (words : List Str) :
    spaced (words.filter p) ≤ spaced words := by
  induction words with
  | nil => exact Nat.le_refl _
  | cons w words ih =>
    rw [List.filter_cons]
    split
    · rw [spaced_cons, spaced_cons]
      omega
    · rw [spaced_cons]
      omega

theorem spaced_splitWhitespace (s : Str) : spaced (splitWhitespace s) ≤ (encode s).length + 1 :=
  Nat.le_trans (spaced_filter_le _ _) (spaced_splitOnP _ s)

/-- Words joined by spaces take no more than they did apart. -/
theorem length_join_le (words : List Str) :
    (encode ([' '].intercalate words)).length ≤ spaced words := by
  induction words with
  | nil => exact Nat.le_refl _
  | cons w words ih =>
    cases words with
    | nil =>
      rw [spaced_cons, List.intercalate_singleton]
      omega
    | cons v words =>
      rw [List.intercalate_cons_cons, encode_append, encode_append, List.length_append,
        List.length_append, spaced_cons]
      have hspace : (encode [' ']).length = 1 := rfl
      omega

end ExtKtrace.Utf8
