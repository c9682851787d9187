import ExtKtrace.Lib.Word
import ExtKtrace.Ksym.GenKsym
import ExtKtrace.Ksym.Mapped

/-!
# Name records

A name is written as a token and the rest of its bytes, or as it is. The reader tells the two
forms of a token id apart by where the second marker is.
-/

namespace ExtKtrace.Ksym
set_option autoImplicit false
open Utf8

namespace KallsymsBlob

/-- The tokens of a blob, in the order of their ids. -/
structure HasTokens (b : KallsymsBlob) (tokens : List Str) : Prop where
  map : b.tokenMap = tokens.zipIdx.map fun entry => (entry.1, UInt16.ofNat entry.2)
  table : b.tokenTable = tokens.flatMap encode
  index : b.tokenIndex = (List.range tokens.length).map fun i =>
    UInt32.ofNat ((tokens.take i).flatMap encode).length

theorem hasTokens_new : new.HasTokens [] := ⟨rfl, rfl, rfl⟩

theorem HasTokens.tokenId_eq_some {b : KallsymsBlob} {tokens : List Str} (h : b.HasTokens tokens)
    {token : Str} {id : UInt16} (hid : tokenId b.tokenMap token = some id) :
    ∃ i, tokens[i]? = some token ∧ id = UInt16.ofNat i := by
  unfold tokenId at hid
  rw [h.map] at hid
  obtain ⟨entry, hfind, rfl⟩ := Option.map_eq_some_iff.mp hid
  have hmem := List.mem_of_find?_eq_some hfind
  have hname := List.find?_some hfind
  obtain ⟨⟨t, i⟩, hti, rfl⟩ := List.mem_map.mp hmem
  obtain rfl := of_decide_eq_true hname
  exact ⟨i, List.mem_zipIdx_iff_getElem?.mp hti, rfl⟩

theorem HasTokens.tokenId_eq_none {b : KallsymsBlob} {tokens : List Str} (h : b.HasTokens tokens)
    {token : Str} (hnew : token ∉ tokens) : tokenId b.tokenMap token = none := by
  unfold tokenId
  rw [Option.map_eq_none_iff, List.find?_eq_none, h.map]
  intro entry hentry hname
  obtain ⟨⟨t, i⟩, hti, rfl⟩ := List.mem_map.mp hentry
  obtain rfl := of_decide_eq_true hname
  exact hnew (List.mem_of_getElem? (List.mem_zipIdx_iff_getElem?.mp hti))

theorem HasTokens.addToken {b : KallsymsBlob} {tokens : List Str} (h : b.HasTokens tokens)
    {token : Str} (hnew : token ∉ tokens) : (b.addToken token).HasTokens (tokens ++ [token]) := by
  have hlen : b.tokenMap.length = tokens.length := by
    rw [h.map, List.length_map, List.length_zipIdx]
  unfold KallsymsBlob.addToken
  rw [h.tokenId_eq_none hnew]
  refine ⟨?_, ?_, ?_⟩
  · simp [h.map, List.zipIdx_append]
  · simp [h.table]
  · simp only [h.index, h.table, List.length_append, List.length_singleton, List.range_succ,
      List.map_append, List.map_cons, List.map_nil, List.take_left]
    congr 1
    apply List.map_congr_left
    intro i hi
    rw [List.take_append_of_le_length (by rw [List.mem_range] at hi; omega)]

theorem HasTokens.foldl_addToken {b : KallsymsBlob} {tokens new : List Str}
    (h : b.HasTokens tokens) (hnodup : (tokens ++ new).Nodup) :
    (new.foldl KallsymsBlob.addToken b).HasTokens (tokens ++ new) := by
  induction new generalizing b tokens with
  | nil => rwa [List.append_nil]
  | cons token new ih =>
    rw [List.append_cons] at hnodup ⊢
    refine ih (h.addToken ?_) hnodup
    have hleft := hnodup.of_append_left
    rw [List.nodup_append] at hleft
    exact fun hmem => hleft.2.2 token hmem token (List.mem_singleton_self token) rfl

theorem hasTokens_foldl {tokens : List Str} (hnodup : tokens.Nodup) :
    (tokens.foldl KallsymsBlob.addToken new).HasTokens tokens :=
  hasTokens_new.foldl_addToken (by rwa [List.nil_append])

/-- No token fills the name buffer. -/
def ShortTokens (tokens : List Str) : Prop :=
  ∀ token ∈ tokens, (encode token).length < KSYM_NAME_LEN

theorem length_flatMap_le {tokens : List Str} (h : ShortTokens tokens) :
    (tokens.flatMap encode).length ≤ tokens.length * 4096 := by
  have hKSYM : KSYM_NAME_LEN = 4096 := rfl
  induction tokens with
  | nil => exact Nat.le_refl _
  | cons token tokens ih =>
    have hfirst := h token List.mem_cons_self
    have hrest := ih fun t ht => h t (List.mem_cons_of_mem _ ht)
    rw [List.flatMap_cons, List.length_append, List.length_cons]
    omega

end KallsymsBlob

/-- A blob as the reader sees it. -/
def KallsymsBlob.mapped (b : KallsymsBlob) (stext etext : UInt64) : KallsymsMapped where
  tokenTable := b.tokenTable
  tokenIndex := b.tokenIndex
  kallsymsNames := b.kallsymsNames
  kallsymsOffsets := b.kallsymsOffsets
  kallsymsSeqsOfNames := b.kallsymsSeqsOfNames
  kallsymsAddresses := b.kallsymsAddresses
  kallsymsNumSyms := b.kallsymsNumSyms
  stext := stext
  etext := etext

open KallsymsBlob

namespace KallsymsMapped

/-- The token table of the reader is the one of a blob. -/
structure Views (m : KallsymsMapped) (b : KallsymsBlob) : Prop where
  tokenTable : m.tokenTable = b.tokenTable
  tokenIndex : m.tokenIndex = b.tokenIndex

theorem views_mapped (b : KallsymsBlob) (stext etext : UInt64) : (b.mapped stext etext).Views b :=
  ⟨rfl, rfl⟩

theorem flatMap_take_succ {tokens : List Str} {i : Nat} {token : Str}
    (h : tokens[i]? = some token) :
    (tokens.take (i + 1)).flatMap encode = (tokens.take i).flatMap encode ++ encode token := by
  rw [List.take_add_one, h, List.flatMap_append]
  simp

/-- A token is read back between its start and the start of the next one. -/
theorem tokenStr_eq {m : KallsymsMapped} {b : KallsymsBlob} {tokens : List Str}
    (hm : m.Views b) (h : b.HasTokens tokens) (hcount : tokens.length ≤ MAX_TOKEN)
    (hshort : ShortTokens tokens) {i : Nat} {token : Str} (hi : tokens[i]? = some token) :
    m.tokenStr i = .ok (encode token) := by
  obtain ⟨hlt, rfl⟩ := List.getElem?_eq_some_iff.mp hi
  have hMAX : MAX_TOKEN = 512 := rfl
  have hsize := length_flatMap_le hshort
  -- Every start is exact in 32 bits.
  have hstart : ∀ j, j < tokens.length → m.tokenIndex[j]?.map UInt32.toNat =
      some ((tokens.take j).flatMap encode).length := by
    intro j hj
    have hle : ((tokens.take j).flatMap encode).length ≤ (tokens.flatMap encode).length := by
      conv_rhs => rw [← List.take_append_drop j tokens, List.flatMap_append]
      rw [List.length_append]
      omega
    rw [hm.tokenIndex, h.index, List.getElem?_map, List.getElem?_range hj, Option.map_some,
      Option.map_some, UInt32.toNat_ofNat', Nat.mod_eq_of_lt (by omega)]
  have hnone : ∀ j, tokens.length ≤ j → m.tokenIndex[j]? = none := by
    intro j hj
    rw [hm.tokenIndex, h.index, List.getElem?_eq_none]
    rw [List.length_map, List.length_range]
    exact hj
  obtain ⟨start, hs, hsn⟩ := Option.map_eq_some_iff.mp (hstart i hlt)
  have hslice : m.tokenStr i =
      slice m.tokenTable start.toNat ((tokens.take (i + 1)).flatMap encode).length := by
    unfold tokenStr
    rw [hs]
    by_cases hnext : i + 1 < tokens.length
    · obtain ⟨next, hn, hnn⟩ := Option.map_eq_some_iff.mp (hstart (i + 1) hnext)
      rw [hn, ← hnn]
    · rw [hnone (i + 1) (by omega), hm.tokenTable, h.table, List.take_of_length_le (by omega)]
  have hwhole : m.tokenTable = (tokens.take i).flatMap encode ++
      (encode tokens[i] ++ (tokens.drop (i + 1)).flatMap encode) := by
    rw [hm.tokenTable, h.table, ← List.append_assoc, ← flatMap_take_succ hi,
      ← List.flatMap_append, List.take_append_drop]
  rw [hslice, hsn, flatMap_take_succ hi, List.length_append, hwhole,
    slice_of_le (Nat.le_add_right _ _) (by simp only [List.length_append]; omega),
    List.take_length_add_append, List.take_left, List.drop_left]

theorem fillNameBuf_eq {token rest : List UInt8} (h : (token ++ rest).length ≤ KSYM_NAME_LEN) :
    fillNameBuf token rest = token ++ rest := by
  rw [List.length_append] at h
  have htoken : token.take KSYM_NAME_LEN = token := List.take_of_length_le (by omega)
  unfold fillNameBuf
  simp only [htoken]
  rw [List.take_of_length_le (by omega)]

theorem expandSymbol_plain {m : KallsymsMapped} {name : Str} (hne : name ≠ [])
    (hlen : (encode name).length ≤ KSYM_NAME_LEN) : m.expandSymbol (encode name) = .ok name := by
  have hpos := List.length_pos_iff.mpr (encode_ne_nil hne)
  have hfirst : (encode name)[0] ≠ TOKEN_MARKER :=
    ne_of_mem_encode (List.getElem_mem hpos)
  have hbuf : fillNameBuf [] (encode name) = encode name := fillNameBuf_eq hlen
  unfold expandSymbol
  rw [index_of_lt hpos, ok_bind, if_neg hfirst, ok_bind, hbuf]
  show Except.ok ((decode (encode name)).getD []) = _
  rw [decode_encode]
  rfl

theorem expandSymbol_token {m : KallsymsMapped} {bytes token : List UInt8} {id i : Nat}
    (hfirst : bytes[0]? = some TOKEN_MARKER) (htoken : tokenAt bytes = some (id, i))
    (hstr : m.tokenStr id = .ok token) :
    m.expandSymbol bytes = .ok ((decode (fillNameBuf token (bytes.drop i))).getD []) := by
  unfold expandSymbol index expandToken
  simp only [hfirst, htoken, hstr]
  rfl

/-- The reader finds the id that was written, but for the last one, whose low byte is a marker. -/
theorem tokenAt_tokenBytes {id : UInt16} (hid : id.toNat < 512) (rest : List UInt8) :
    tokenAt (tokenBytes id ++ rest) =
      if id.toNat = 511 then some (1, 3) else some (id.toNat, (tokenBytes id).length) := by
  have hMARKER : TOKEN_MARKER.toNat = 255 := rfl
  have hlow := Word.uint16_low id
  by_cases hsmall : id < 256
  · have hlt : id.toNat < 256 := hsmall
    have hbyte : id.toUInt8.toNat = id.toNat := by
      rw [UInt16.toNat_toUInt8, Nat.mod_eq_of_lt hlt]
    rw [if_neg (by omega)]
    simp [tokenBytes, tokenAt, hsmall, hbyte]
  · have hge : ¬ id.toNat < 256 := hsmall
    have hhigh := Word.uint16_high id
    have htwo : tokenBytes id = [TOKEN_MARKER, (id >>> 8).toUInt8, (id &&& 0xFF).toUInt8,
        TOKEN_MARKER] := by
      simp [tokenBytes, hsmall]
    rw [htwo]
    by_cases hlast : id.toNat = 511
    · have hff : (id &&& 0xFF).toUInt8 = TOKEN_MARKER := by
        rw [← UInt8.toNat_inj, hlow, hMARKER, hlast]
      have hone : (id >>> 8).toUInt8.toNat = 1 := by omega
      rw [if_pos hlast]
      simp [tokenAt, hff, hone]
    · have hff : (id &&& 0xFF).toUInt8 ≠ TOKEN_MARKER := by
        rw [Ne, ← UInt8.toNat_inj, hlow, hMARKER]
        omega
      rw [if_neg hlast]
      simp only [tokenAt, List.cons_append, List.nil_append, List.getElem?_cons_succ,
        List.getElem?_cons_zero, Option.some.injEq, if_neg hff, if_true, Option.bind_eq_bind,
        Option.bind_some, Word.uint16_bytes]
      rfl

theorem length_tokenBytes (id : UInt16) :
    (tokenBytes id).length = (if id < 256 then 3 else 4 : UInt16).toNat := by
  unfold tokenBytes
  split <;> rfl

/-- The prefix and the id that a name is written with. -/
structure Picks (tokenMap : List (Str × UInt16)) (name : Str) (l : Nat) (id : UInt16) : Prop where
  pos : 0 < l
  le : l ≤ (encode name).length
  token : ∃ candidate, strPrefix name l = .ok candidate ∧
    tokenId tokenMap candidate = some id

theorem strPrefix_eq_ok {name t : Str} {l : Nat} :
    strPrefix name l = .ok t ↔ encode t = (encode name).take l := by
  unfold strPrefix
  rw [← decode_eq_some]
  cases decode ((encode name).take l) <;> simp

theorem readCompressedLenAndType_header (ty : Char) (length : UInt16) (bytes : List UInt8) :
    readCompressedLenAndType (header ty length ++ bytes) =
      (length, Char.ofNat (tyByte ty).toNat) :=
  Prod.ext (Word.uint16_bytes length) rfl

/-- A record has its length in front, and its payload is the name or a token and the rest. -/
theorem record_eq (checks : Bool) (ty : Char) (token : Option (Nat × UInt16)) {name : Str}
    (hlen : (encode name).length ≤ KSYM_NAME_LEN) :
    ∃ payload length, record checks name ty token = .ok (header ty length ++ payload) ∧
      length.toNat = payload.length ∧ payload = match token with
        | some (l, id) => tokenBytes id ++ (encode name).drop l
        | none => encode name := by
  have hKSYM : KSYM_NAME_LEN = 4096 := rfl
  cases token with
  | none =>
    refine ⟨_, _, rfl, ?_, rfl⟩
    rw [UInt16.toNat_ofNat']
    omega
  | some token =>
    obtain ⟨l, id⟩ := token
    have hrest : (UInt16.ofNat ((encode name).length - l)).toNat = (encode name).length - l := by
      rw [UInt16.toNat_ofNat']
      omega
    have hid : (if id < 256 then 3 else 4 : UInt16).toNat ≤ 4 := by
      split <;> decide
    have hadd : u16Add checks (if id < 256 then 3 else 4)
        (UInt16.ofNat ((encode name).length - l)) =
          .ok ((if id < 256 then 3 else 4) + UInt16.ofNat ((encode name).length - l)) :=
      if_pos (by omega)
    refine ⟨tokenBytes id ++ (encode name).drop l,
      (if id < 256 then 3 else 4) + UInt16.ofNat ((encode name).length - l), ?_, ?_, rfl⟩
    · unfold record
      simp only [hadd]
      rw [← List.append_assoc]
      rfl
    · rw [UInt16.toNat_add, List.length_append, length_tokenBytes, List.length_drop, hrest]
      omega

section Codec
variable {m : KallsymsMapped} {b : KallsymsBlob} {tokens : List Str}

/-- A name is read back from its token, unless the token has the last id: then a marker is taken
for a byte of the name and nothing is read. -/
theorem expandSymbol_picked (hm : m.Views b) (h : b.HasTokens tokens)
    (hcount : tokens.length ≤ MAX_TOKEN) (hshort : ShortTokens tokens) {name : Str} {l : Nat}
    {id : UInt16} (hlen : (encode name).length ≤ KSYM_NAME_LEN)
    (hpick : Picks b.tokenMap name l id) :
    m.expandSymbol (tokenBytes id ++ (encode name).drop l) =
      .ok (if id.toNat = 511 then [] else name) := by
  have hMAX : MAX_TOKEN = 512 := rfl
  have hKSYM : KSYM_NAME_LEN = 4096 := rfl
  obtain ⟨candidate, hcandidate, hmap⟩ := hpick.token
  obtain ⟨i, hi, hid⟩ := h.tokenId_eq_some hmap
  have hlt := (List.getElem?_eq_some_iff.mp hi).1
  have hidn : id.toNat = i := by
    rw [hid, UInt16.toNat_ofNat', Nat.mod_eq_of_lt (by omega)]
  have htoken := tokenAt_tokenBytes (show id.toNat < 512 by omega) ((encode name).drop l)
  have hhead : (tokenBytes id ++ (encode name).drop l)[0]? = some TOKEN_MARKER := rfl
  by_cases hlast : id.toNat = 511
  · rw [if_pos hlast] at htoken ⊢
    -- What is read is the token with id 1, then the rest of the record from its last marker on.
    obtain ⟨one, hone⟩ : ∃ one, tokens[1]? = some one :=
      ⟨_, List.getElem?_eq_getElem (show 1 < tokens.length by omega)⟩
    have hstr := tokenStr_eq hm h hcount hshort hone
    have hshortOne := hshort one (List.mem_of_getElem? hone)
    rw [expandSymbol_token hhead htoken hstr]
    have hbig : ¬ id < 256 := by
      intro hsmall
      have hnat : id.toNat < 256 := hsmall
      omega
    have hmarker : (0xFF : UInt8) ∈ fillNameBuf (encode one)
        ((tokenBytes id ++ (encode name).drop l).drop 3) := by
      have hdrop : (tokenBytes id ++ (encode name).drop l).drop 3 =
          TOKEN_MARKER :: (encode name).drop l := by
        simp [tokenBytes, hbig]
      have htake : (encode one).take KSYM_NAME_LEN = encode one :=
        List.take_of_length_le (by omega)
      unfold fillNameBuf
      simp only [hdrop, htake]
      rw [List.take_cons (by omega)]
      exact List.mem_append_right _ List.mem_cons_self
    rw [decode_eq_none hmarker]
    rfl
  · rw [if_neg hlast] at htoken ⊢
    have hstr := tokenStr_eq hm h hcount hshort hi
    rw [hidn] at htoken
    rw [expandSymbol_token hhead htoken hstr, List.drop_left, strPrefix_eq_ok.mp hcandidate,
      fillNameBuf_eq (by rwa [List.take_append_drop]), List.take_append_drop, decode_encode]
    rfl

/-- The record of a name holds the length of its payload, and the payload is read as the name
exactly when the token of the record, if it has one, is not the last of a full table. -/
theorem record_round_trip_iff {tokens : List Str} (hnodup : tokens.Nodup)
    (hcount : tokens.length ≤ MAX_TOKEN) (hshort : ShortTokens tokens)
    (hm : m.Views (tokens.foldl addToken new)) {name : Str} (hne : name ≠ [])
    (hlen : (encode name).length ≤ KSYM_NAME_LEN) {token : Option (Nat × UInt16)}
    (hpick : ∀ l id, token = some (l, id) →
      Picks (tokens.foldl addToken new).tokenMap name l id) (checks : Bool) (ty : Char) :
    (∃ length payload,
      record checks name ty token = .ok (header ty length ++ payload) ∧
        (readCompressedLenAndType (header ty length ++ payload)).1.toNat = payload.length ∧
        m.expandSymbol payload = .ok name) ↔ ∀ l, token ≠ some (l, 511) := by
  have h := hasTokens_foldl hnodup
  obtain ⟨payload, length, hrecord, hlength, hpayload⟩ :=
    record_eq checks ty token hlen
  have hread : (∃ length payload,
      record checks name ty token = .ok (header ty length ++ payload) ∧
        (readCompressedLenAndType (header ty length ++ payload)).1.toNat = payload.length ∧
        m.expandSymbol payload = .ok name) ↔ m.expandSymbol payload = .ok name := by
    constructor
    · rintro ⟨length', payload', hrecord', _, hexpand⟩
      rw [hrecord] at hrecord'
      have hbytes := (List.append_inj (Except.ok.inj hrecord') rfl).2
      rwa [hbytes]
    · intro hexpand
      exact ⟨length, payload, hrecord, by rw [readCompressedLenAndType_header, hlength], hexpand⟩
  rw [hread, hpayload]
  cases token with
  | none => simp [expandSymbol_plain hne hlen]
  | some pick =>
    obtain ⟨l, id⟩ := pick
    have hexpand := expandSymbol_picked hm h hcount hshort hlen (hpick l id rfl)
    have hid : id.toNat = 511 ↔ id = 511 := by
      rw [← UInt16.toNat_inj]
      rfl
    simp only [hexpand, hid, Except.ok.injEq, ne_eq, Option.some.injEq, Prod.mk.injEq, not_and]
    constructor
    · intro hname l' _ hlast
      rw [if_pos hlast] at hname
      exact hne hname.symm
    · intro hother
      rw [if_neg (hother l rfl)]

end Codec

theorem record_round_trip_alloc : ∃ length payload,
    record true "_ZN5alloc_vec".toList 'T' (some (10, 0)) = .ok (header 'T' length ++ payload) ∧
      (readCompressedLenAndType (header 'T' length ++ payload)).1.toNat = payload.length ∧
      ((["_ZN5alloc_".toList].foldl addToken new).mapped 0x1000 0x2000).expandSymbol payload =
        .ok "_ZN5alloc_vec".toList := by
  refine (record_round_trip_iff (by decide) (by decide) ?_ (views_mapped _ _ _) (by decide)
    (by decide +kernel) ?_ true 'T').mpr (by simp)
  · exact fun token h => by rw [List.mem_singleton.mp h]; decide
  · intro l id h
    cases h
    exact ⟨by decide, by decide +kernel, "_ZN5alloc_".toList, strPrefix_eq_ok.mpr (by decide),
      by decide⟩

/-- Tokens of the shortest length, told apart by their first two characters. -/
def fullTableToken (i : Nat) : Str :=
  [Char.ofNat (i / 64 + 48), Char.ofNat (i % 64 + 48)] ++ "_prefix_".toList

def fullTable : List Str := (List.range MAX_TOKEN).map fullTableToken

def fullTableMapped : KallsymsMapped := (fullTable.foldl addToken new).mapped 0x1000 0x2000

theorem nodup_fullTable : fullTable.Nodup := by
  refine List.Nodup.map_on ?_ List.nodup_range
  intro i hi j hj h
  have hchar : ∀ n < 128, (Char.ofNat n).toNat = n := by decide
  rw [List.mem_range] at hi hj
  have hMAX : MAX_TOKEN = 512 := rfl
  injection h with h1 h2
  injection h2 with h2
  have hhigh := congrArg Char.toNat h1
  have hlow := congrArg Char.toNat h2
  rw [hchar _ (by omega), hchar _ (by omega)] at hhigh hlow
  omega

/-- A name that starts with the last token of a full table is read as nothing. -/
theorem last_token_not_read_back :
    fullTable.Nodup ∧ fullTable.length = MAX_TOKEN ∧ (∀ token ∈ fullTable, Ascii token) ∧
      fullTableMapped.Views (fullTable.foldl addToken new) ∧
      Picks (fullTable.foldl addToken new).tokenMap (fullTableToken 511 ++ ['x']) 10 511 ∧
      ¬ ∃ length payload,
        record true (fullTableToken 511 ++ ['x']) 'T' (some (10, 511)) =
          .ok (header 'T' length ++ payload) ∧
        (readCompressedLenAndType (header 'T' length ++ payload)).1.toNat = payload.length ∧
        fullTableMapped.expandSymbol payload = .ok (fullTableToken 511 ++ ['x']) := by
  have hascii : ∀ token ∈ fullTable, Ascii token := by decide +kernel
  have hshort : ShortTokens fullTable := by
    unfold ShortTokens
    decide +kernel
  have hcount : fullTable.length = MAX_TOKEN := by
    rw [fullTable, List.length_map, List.length_range]
  have h := hasTokens_foldl nodup_fullTable
  have hpick : Picks (fullTable.foldl addToken new).tokenMap (fullTableToken 511 ++ ['x']) 10
      511 := by
    refine ⟨by decide, by decide +kernel, fullTableToken 511,
      strPrefix_eq_ok.mpr (by decide +kernel), ?_⟩
    rw [h.map]
    decide +kernel
  refine ⟨nodup_fullTable, hcount, hascii, views_mapped _ _ _, hpick, ?_⟩
  rintro ⟨length, payload, hrecord, _, hexpand⟩
  obtain ⟨payload', length', hrecord', _, hpayload⟩ :=
    record_eq true 'T' (some (10, 511)) (show (encode (fullTableToken 511 ++ ['x'])).length ≤
      KSYM_NAME_LEN by decide +kernel)
  rw [hrecord'] at hrecord
  rw [← (List.append_inj (Except.ok.inj hrecord) rfl).2, hpayload, fullTableMapped,
    expandSymbol_picked (views_mapped _ _ _) h (Nat.le_of_eq hcount) hshort (by decide +kernel)
      hpick] at hexpand
  have hempty := Except.ok.inj hexpand
  cases hempty

end KallsymsMapped

end ExtKtrace.Ksym
