import Mathlib.Data.List.Forall2
import ExtKtrace.Ksym.Compress

/-!
# The sections of a generated table

The records follow each other in address order, each at its offset, and the name order refers to
positions in address order. Below 4 GiB of names every record is read back where it was written.
-/

namespace ExtKtrace.Ksym
set_option autoImplicit false
open Utf8 StableSort

/-- The symbols in address order, those of one address as they are in the list. -/
def byAddress (symbols : List Symbol) : List Symbol := sortByKey (fun s => s.addr) symbols

/-- The symbols in name order, those of one name as they are in the list. -/
def byName (symbols : List Symbol) : List Symbol := sortByKey (fun s => encode s.name) symbols

/-- The generator reads no longer lines. -/
def ShortNames (symbols : List Symbol) : Prop :=
  ∀ s ∈ symbols, (encode s.name).length ≤ KSYM_NAME_LEN

instance (symbols : List Symbol) : Decidable (ShortNames symbols) := List.decidableBAll _ symbols

namespace KallsymsBlob

/-- Records one after another, with their starts. -/
structure Emitted (checks : Bool) (tokens : List Str) (b : KallsymsBlob) (syms : List Symbol)
    (recs : List (List UInt8)) : Prop where
  tokens : b.HasTokens tokens
  names : b.kallsymsNames = recs.flatten
  offsets : b.kallsymsOffsets = (List.range recs.length).map fun i =>
    UInt32.ofNat (recs.take i).flatten.length
  addresses : b.kallsymsAddresses = syms.map fun s => s.addr
  records : List.Forall₂ (Writes checks b.tokenMap) syms recs

theorem addToken_rest (b : KallsymsBlob) (token : Str) :
    (b.addToken token).kallsymsNames = b.kallsymsNames ∧
      (b.addToken token).kallsymsOffsets = b.kallsymsOffsets ∧
      (b.addToken token).kallsymsAddresses = b.kallsymsAddresses ∧
      (b.addToken token).kallsymsSeqsOfNames = b.kallsymsSeqsOfNames := by
  unfold addToken
  cases tokenId b.tokenMap token <;> exact ⟨rfl, rfl, rfl, rfl⟩

theorem foldl_addToken_rest (tokens : List Str) (b : KallsymsBlob) :
    (tokens.foldl addToken b).kallsymsNames = b.kallsymsNames ∧
      (tokens.foldl addToken b).kallsymsOffsets = b.kallsymsOffsets ∧
      (tokens.foldl addToken b).kallsymsAddresses = b.kallsymsAddresses ∧
      (tokens.foldl addToken b).kallsymsSeqsOfNames = b.kallsymsSeqsOfNames := by
  induction tokens generalizing b with
  | nil => exact ⟨rfl, rfl, rfl, rfl⟩
  | cons token tokens ih =>
    obtain ⟨h1, h2, h3, h4⟩ := addToken_rest b token
    obtain ⟨i1, i2, i3, i4⟩ := ih (b.addToken token)
    exact ⟨i1.trans h1, i2.trans h2, i3.trans h3, i4.trans h4⟩

theorem emitted_start (checks : Bool) {tokens : List Str} (hnodup : tokens.Nodup) :
    Emitted checks tokens (tokens.foldl addToken new) [] [] := by
  obtain ⟨h1, h2, h3, _⟩ := foldl_addToken_rest tokens new
  exact ⟨hasTokens_foldl hnodup, h1, h2, h3, .nil⟩

theorem Emitted.emitSymbol {checks : Bool} {tokens : List Str} {b b' : KallsymsBlob}
    {syms : List Symbol} {recs : List (List UInt8)} (h : Emitted checks tokens b syms recs)
    {s : Symbol} (hstep : emitSymbol checks b s = .ok b') :
    ∃ bytes, Emitted checks tokens b' (syms ++ [s]) (recs ++ [bytes]) := by
  unfold KallsymsBlob.emitSymbol at hstep
  cases htoken : findToken b.tokenMap s.name PREFIX_CANDIDATE_LENS.reverse with
  | error p =>
    rw [htoken] at hstep
    cases hstep
  | ok token =>
    rw [htoken, ok_bind] at hstep
    cases hrecord : record checks s.name s.ty token with
    | error p =>
      rw [hrecord] at hstep
      cases hstep
    | ok bytes =>
      rw [hrecord, ok_bind] at hstep
      cases hstep
      refine ⟨bytes, ⟨h.tokens.map, h.tokens.table, h.tokens.index⟩, ?_, ?_, ?_, ?_⟩
      · simp [h.names]
      · simp only [h.offsets, h.names, List.length_append, List.length_singleton,
          List.range_succ, List.map_append, List.map_cons, List.map_nil, List.take_left]
        congr 1
        apply List.map_congr_left
        intro i hi
        rw [List.take_append_of_le_length (by rw [List.mem_range] at hi; omega)]
      · simp [h.addresses]
      · exact List.rel_append h.records (.cons ⟨token, htoken, hrecord⟩ .nil)

theorem Emitted.foldlM {checks : Bool} {tokens : List Str} {b b' : KallsymsBlob}
    {syms : List Symbol} {recs : List (List UInt8)} (h : Emitted checks tokens b syms recs)
    {rest : List Symbol} (hrun : rest.foldlM (KallsymsBlob.emitSymbol checks) b = .ok b') :
    ∃ recs', Emitted checks tokens b' (syms ++ rest) recs' := by
  induction rest generalizing b syms recs with
  | nil =>
    cases hrun
    exact ⟨recs, by rwa [List.append_nil]⟩
  | cons s rest ih =>
    rw [List.foldlM_cons] at hrun
    cases hstep : KallsymsBlob.emitSymbol checks b s with
    | error p =>
      rw [hstep] at hrun
      cases hrun
    | ok b1 =>
      rw [hstep, ok_bind] at hrun
      obtain ⟨bytes, h1⟩ := h.emitSymbol hstep
      obtain ⟨recs', h2⟩ := ih h1 hrun
      exact ⟨recs', by rwa [← List.append_cons] at h2⟩

theorem emitSymbol_ok {checks : Bool} {s : Symbol} (hcut : Cuttable s.name)
    (hlen : (encode s.name).length ≤ KSYM_NAME_LEN) (b : KallsymsBlob) :
    ∃ b', emitSymbol checks b s = .ok b' := by
  obtain ⟨bytes, token, htoken, hrecord⟩ := exists_writes hcut hlen checks b.tokenMap
  unfold emitSymbol
  rw [htoken, ok_bind, hrecord, ok_bind]
  exact ⟨_, rfl⟩

theorem emitSymbol_seqs {checks : Bool} {b b' : KallsymsBlob} {s : Symbol}
    (h : emitSymbol checks b s = .ok b') : b'.kallsymsSeqsOfNames = b.kallsymsSeqsOfNames := by
  unfold emitSymbol at h
  cases htoken : findToken b.tokenMap s.name PREFIX_CANDIDATE_LENS.reverse with
  | error p =>
    rw [htoken] at h
    cases h
  | ok token =>
    rw [htoken, ok_bind] at h
    cases hrecord : record checks s.name s.ty token with
    | error p =>
      rw [hrecord] at h
      cases h
    | ok bytes =>
      rw [hrecord, ok_bind] at h
      cases h
      rfl

/-- A position is written down for each symbol that has come up. -/
theorem foldl_set {n : Nat} {idx : List (Fin n)} (hnodup : idx.Nodup) {i : Fin n} {k : Nat}
    (h : idx[k]? = some i) : (origToAddrIdx n idx)[i.val]? = some k := by
  have hlen : ∀ l : List (Fin n × Nat), ∀ init : List Nat,
      (l.foldl (fun positions entry => positions.set entry.1 entry.2) init).length =
        init.length := by
    intro l
    induction l with
    | nil => exact fun _ => rfl
    | cons entry l ih => exact fun init => by rw [List.foldl_cons, ih, List.length_set]
  unfold origToAddrIdx
  induction idx using List.reverseRecOn generalizing k with
  | nil => cases h
  | append_singleton idx a ih =>
    rw [List.nodup_append] at hnodup
    rw [List.zipIdx_append, List.foldl_append]
    simp only [List.zipIdx_singleton, List.foldl_cons, List.foldl_nil, Nat.zero_add]
    rw [List.getElem?_append] at h
    split at h
    · rename_i hlt
      have hne : a.val ≠ i.val := by
        intro hval
        exact hnodup.2.2 i (List.mem_of_getElem? h) a (List.mem_singleton_self a)
          (Fin.ext hval.symm)
      rw [List.getElem?_set_ne hne]
      exact ih hnodup.1 h
    · rename_i hge
      obtain ⟨hlt, hval⟩ := List.getElem?_eq_some_iff.mp h
      rw [List.length_singleton] at hlt
      have hk : k = idx.length := by omega
      simp only [List.getElem_singleton] at hval
      rw [← hval, List.getElem?_set_self (by rw [hlen, List.length_replicate]; exact a.isLt), hk]

theorem mapM_ok {α β : Type} {f : α → Run β} {g : α → β} {l : List α}
    (h : ∀ a ∈ l, f a = .ok (g a)) : l.mapM f = .ok (l.map g) := by
  induction l with
  | nil => rfl
  | cons a l ih =>
    rw [List.mapM_cons, h a List.mem_cons_self, ok_bind,
      ih fun b hb => h b (List.mem_cons_of_mem _ hb)]
    rfl

theorem map_get_sortByKey {κ : Type} [Ord κ] (symbols : List Symbol) (key : Symbol → κ) :
    (sortByKey (fun i => key (symbols.get i)) (List.finRange symbols.length)).map symbols.get =
      sortByKey key symbols := by
  rw [map_sortByKey, List.map_get_finRange]

theorem foldlM_byAddress {σ : Type} (symbols : List Symbol) (f : σ → Symbol → Run σ) (b : σ) :
    (sortByKey (fun i => (symbols.get i).addr) (List.finRange symbols.length)).foldlM
      (fun b i => f b (symbols.get i)) b = (byAddress symbols).foldlM f b := by
  unfold byAddress
  rw [← map_get_sortByKey symbols fun s => s.addr, List.foldlM_map]

/-- What the generator has made of a list of symbols. -/
structure Generated (checks : Bool) (hash : HashOrder) (symbols : List Symbol)
    (b : KallsymsBlob) : Prop where
  numSyms : b.kallsymsNumSyms = symbols.length
  emitted : ∃ recs, Emitted checks (chosenTokens hash symbols) b (byAddress symbols) recs
  seqs : ∃ positions : List Nat, b.kallsymsSeqsOfNames = positions.map UInt32.ofNat ∧
    List.Forall₂ (fun j s => (byAddress symbols)[j]? = some s) positions (byName symbols)

section Whole
variable {checks : Bool} {hash : HashOrder} {symbols : List Symbol}

/-- The positions in address order of the symbols in name order. -/
def positions (symbols : List Symbol) : List Nat :=
  (sortByKey (fun i => encode (symbols.get i).name) (List.finRange symbols.length)).map
    (sortByKey (fun i => (symbols.get i).addr) (List.finRange symbols.length)).idxOf

theorem positions_spec (symbols : List Symbol) :
    List.Forall₂ (fun j s => (byAddress symbols)[j]? = some s) (positions symbols)
      (byName symbols) := by
  unfold positions byName
  rw [← map_get_sortByKey symbols fun s => encode s.name, List.forall₂_map_left_iff,
    List.forall₂_map_right_iff, List.forall₂_same]
  intro i _
  unfold byAddress
  rw [← map_get_sortByKey symbols fun s => s.addr, List.getElem?_map]
  have hmem : i ∈ sortByKey (fun i => (symbols.get i).addr) (List.finRange symbols.length) :=
    (perm_sortByKey _ _).mem_iff.mpr (List.mem_finRange i)
  rw [List.getElem?_eq_getElem (List.idxOf_lt_length_of_mem hmem), List.getElem_idxOf]
  rfl

theorem seqs_eq (symbols : List Symbol) :
    (sortByKey (fun i => encode (symbols.get i).name) (List.finRange symbols.length)).mapM
      (fun i : Fin symbols.length => do
        return UInt32.ofNat (← index (origToAddrIdx symbols.length
          (sortByKey (fun i => (symbols.get i).addr) (List.finRange symbols.length))) i.val)) =
      (.ok ((positions symbols).map UInt32.ofNat) : Run (List UInt32)) := by
  unfold positions
  rw [List.map_map]
  refine mapM_ok fun i _ => ?_
  have hmem : i ∈ sortByKey (fun i => (symbols.get i).addr) (List.finRange symbols.length) :=
    (perm_sortByKey _ _).mem_iff.mpr (List.mem_finRange i)
  have hnodup : (sortByKey (fun i => (symbols.get i).addr)
      (List.finRange symbols.length)).Nodup :=
    (perm_sortByKey _ _).nodup_iff.mpr (List.nodup_finRange _)
  have hpos := foldl_set hnodup (i := i) (k := List.idxOf i _)
    (by rw [List.getElem?_eq_getElem (List.idxOf_lt_length_of_mem hmem), List.getElem_idxOf])
  unfold index
  rw [hpos]
  rfl

theorem compressSymbols_generated {b : KallsymsBlob}
    (h : new.compressSymbols checks hash symbols = .ok b) : Generated checks hash symbols b := by
  unfold compressSymbols at h
  by_cases hempty : symbols.length = 0
  · rw [if_pos hempty] at h
    cases h
    obtain rfl := List.eq_nil_of_length_eq_zero hempty
    have hnone : chosenTokens hash [] = [] := by
      have hnil : hash.order [] = [] := List.perm_nil.mp (hash.perm [])
      show selectTokens (hash.order []) = []
      rw [hnil]
      rfl
    refine ⟨rfl, ⟨[], ?_⟩, [], rfl, .nil⟩
    rw [hnone]
    exact emitted_start checks List.nodup_nil
  rw [if_neg hempty] at h
  simp only at h
  cases hcounts : symbols.foldlM countPrefixes [] with
  | error p =>
    rw [hcounts] at h
    cases h
  | ok counts =>
    rw [hcounts, ok_bind, ← chosenTokens_eq hcounts, foldlM_byAddress] at h
    cases hemit : (byAddress symbols).foldlM (emitSymbol checks)
        ((chosenTokens hash symbols).foldl addToken new) with
    | error p =>
      rw [hemit] at h
      cases h
    | ok b1 =>
      have hseqs : b1.kallsymsSeqsOfNames = [] := by
        refine foldlM_preserves (P := fun b => b.kallsymsSeqsOfNames = []) ?_ ?_ hemit
        · exact fun _ _ _ _ hs hstep => (emitSymbol_seqs hstep).trans hs
        · exact (foldl_addToken_rest _ _).2.2.2
      obtain ⟨recs, h1⟩ := (emitted_start checks (chosenTokens_nodup hash symbols)).foldlM hemit
      rw [hemit, ok_bind, seqs_eq, ok_bind] at h
      cases h
      refine ⟨rfl, ⟨recs, ?_⟩, positions symbols, ?_, positions_spec symbols⟩
      · exact ⟨⟨h1.tokens.map, h1.tokens.table, h1.tokens.index⟩, h1.names, h1.offsets,
          h1.addresses, h1.records⟩
      · rw [hseqs, List.nil_append]

/-- The generator panics only at a name that it cuts inside a character. -/
theorem compressSymbols_ok_iff (checks : Bool) (hash : HashOrder) {symbols : List Symbol}
    (hshort : ShortNames symbols) :
    (∃ b, new.compressSymbols checks hash symbols = .ok b) ↔
      ∀ s ∈ symbols, Cuttable s.name := by
  unfold compressSymbols
  by_cases hempty : symbols.length = 0
  · obtain rfl := List.eq_nil_of_length_eq_zero hempty
    exact iff_of_true ⟨_, rfl⟩ fun s hs => absurd hs List.not_mem_nil
  rw [if_neg hempty]
  simp only
  rw [← foldlM_ok_iff (fun counts s _ => countPrefixes_ok_iff counts s) []]
  constructor
  · rintro ⟨b, h⟩
    cases hcounts : symbols.foldlM countPrefixes [] with
    | error p =>
      rw [hcounts] at h
      cases h
    | ok counts => exact ⟨counts, rfl⟩
  · rintro ⟨counts, hcounts⟩
    have hcut := (foldlM_ok_iff (fun counts s _ => countPrefixes_ok_iff counts s) []).mp
      ⟨counts, hcounts⟩
    obtain ⟨b, hemit⟩ : ∃ b, (byAddress symbols).foldlM (emitSymbol checks)
        ((selectTokens (hash.order counts)).foldl addToken new) = .ok b := by
      refine (foldlM_ok_iff (P := fun _ => True) (fun b s hs => iff_of_true ?_ trivial) _).mpr
        fun _ _ => trivial
      have hmem := (perm_sortByKey _ _).mem_iff.mp hs
      exact emitSymbol_ok (hcut s hmem) (hshort s hmem) b
    rw [hcounts, ok_bind, foldlM_byAddress, hemit, ok_bind, seqs_eq, ok_bind]
    exact ⟨_, rfl⟩

end Whole

end KallsymsBlob

open KallsymsBlob

/-- The record of a name takes the last token of a full table. -/
def takesLast (tokenMap : List (Str × UInt16)) (name : Str) : Bool :=
  match findToken tokenMap name PREFIX_CANDIDATE_LENS.reverse with
  | .ok (some (_, id)) => id.toNat = 511
  | _ => false

/-- What the reader makes of the record of a symbol. -/
def readBack (tokenMap : List (Str × UInt16)) (s : Symbol) : Str × Char :=
  (if takesLast tokenMap s.name then [] else s.name, Char.ofNat (tyByte s.ty).toNat)

theorem takesLast_eq_false {b : KallsymsBlob} {tokens : List Str} (h : b.HasTokens tokens)
    (hcount : tokens.length < MAX_TOKEN) (name : Str) : takesLast b.tokenMap name = false := by
  have hMAX : MAX_TOKEN = 512 := rfl
  unfold takesLast
  split
  · rename_i l id hfind
    have hpick := findToken_picks (fun l hl => (candidate_le l (List.mem_reverse.mp hl)).1) hfind
    obtain ⟨candidate, _, hmap⟩ := hpick.token
    obtain ⟨i, hi, rfl⟩ := h.tokenId_eq_some hmap
    have hlt := (List.getElem?_eq_some_iff.mp hi).1
    rw [decide_eq_false_iff_not, UInt16.toNat_ofNat', Nat.mod_eq_of_lt (by omega)]
    omega
  · rfl

theorem readBack_eq {b : KallsymsBlob} {tokens : List Str} (h : b.HasTokens tokens)
    (hcount : tokens.length < MAX_TOKEN) {s : Symbol} (hty : s.ty.toNat < 256) :
    readBack b.tokenMap s = (s.name, s.ty) := by
  unfold readBack tyByte
  rw [takesLast_eq_false h hcount, UInt8.toNat_ofNat', Nat.mod_eq_of_lt hty, Char.ofNat_toNat]
  rfl

namespace KallsymsMapped

theorem expandSymbol_nil (m : KallsymsMapped) : m.expandSymbol [] = .error .outOfBounds := rfl

/-- A record of a generated table is read as its symbol. -/
theorem expandSymbol_record {m : KallsymsMapped} {b : KallsymsBlob} {tokens : List Str}
    (hm : m.Views b) (h : b.HasTokens tokens) (hcount : tokens.length ≤ MAX_TOKEN)
    (hshort : ShortTokens tokens) {s : Symbol} (hlen : (encode s.name).length ≤ KSYM_NAME_LEN)
    {checks : Bool} {bytes : List UInt8} (hbytes : Writes checks b.tokenMap s bytes) :
    ∃ length payload, bytes = header s.ty length ++ payload ∧ length.toNat = payload.length ∧
      m.expandSymbol payload = if s.name = [] then .error .outOfBounds
        else .ok (readBack b.tokenMap s).1 := by
  obtain ⟨token, htoken, hrecord⟩ := hbytes
  obtain ⟨payload, length, hrecord', hlength, hpayload⟩ := record_eq checks s.ty token hlen
  rw [hrecord] at hrecord'
  refine ⟨length, payload, Except.ok.inj hrecord', hlength, ?_⟩
  rw [hpayload]
  unfold readBack takesLast
  rw [htoken]
  cases token with
  | none =>
    by_cases hempty : s.name = []
    · rw [if_pos hempty, hempty]
      exact expandSymbol_nil m
    · rw [if_neg hempty]
      exact expandSymbol_plain hempty hlen
  | some pick =>
    obtain ⟨l, id⟩ := pick
    have hpick := findToken_picks (fun l hl => (candidate_le l (List.mem_reverse.mp hl)).1) htoken
    have hne : s.name ≠ [] := by
      intro hempty
      have hpos := hpick.pos
      have hle := hpick.le
      rw [hempty, encode_nil, List.length_nil] at hle
      omega
    rw [if_neg hne]
    refine (expandSymbol_picked hm h hcount hshort hlen hpick).trans ?_
    simp only [decide_eq_true_eq]

/-- The parts of a blob that hold its records. -/
structure ViewsRecords (m : KallsymsMapped) (b : KallsymsBlob) : Prop extends m.Views b where
  names : m.kallsymsNames = b.kallsymsNames
  offsets : m.kallsymsOffsets = b.kallsymsOffsets

/-- A symbol is read from the record that its offset, cut to 32 bits, is the start of. -/
theorem symbolAt_start {m : KallsymsMapped} {b : KallsymsBlob} {checks : Bool}
    {tokens : List Str} {syms : List Symbol} {recs : List (List UInt8)}
    (h : Emitted checks tokens b syms recs) (hcount : tokens.length ≤ MAX_TOKEN)
    (htokens : ShortTokens tokens) (hm : m.ViewsRecords b) (hshort : ShortNames syms)
    {i j : Nat} {s : Symbol} (hi : i < recs.length) (hj : syms[j]? = some s)
    (hstart : (recs.take i).flatten.length % 2 ^ 32 = (recs.take j).flatten.length) :
    m.symbolAt i = if s.name = [] then .error .outOfBounds else .ok (readBack b.tokenMap s) := by
  obtain ⟨hlt, rfl⟩ := List.getElem?_eq_some_iff.mp hj
  obtain ⟨hlen, hrecs⟩ := List.forall₂_iff_get.mp h.records
  have hltr : j < recs.length := hlen ▸ hlt
  obtain ⟨length, payload, hbytes, hlength, hexpand⟩ := expandSymbol_record hm.toViews h.tokens
    hcount htokens (hshort _ (List.getElem_mem hlt)) (hrecs j hlt hltr)
  -- The record lies behind the records before it.
  have hsplit : b.kallsymsNames =
      (recs.take j).flatten ++ (header syms[j].ty length ++
        (payload ++ (recs.drop (j + 1)).flatten)) := by
    have hmid : recs = recs.take j ++ recs[j] :: recs.drop (j + 1) := by
      rw [← List.drop_eq_getElem_cons hltr, List.take_append_drop]
    have hrec : recs[j] = header syms[j].ty length ++ payload := hbytes
    rw [h.names]
    conv_lhs => rw [hmid]
    rw [List.flatten_append, List.flatten_cons, hrec, List.append_assoc]
  have htotal := congrArg List.length hsplit
  simp only [List.length_append] at htotal
  have hheader : (header syms[j].ty length).length = PREFIX_LEN := rfl
  have hoffset : index m.kallsymsOffsets i =
      .ok (UInt32.ofNat (recs.take i).flatten.length) := by
    unfold index
    rw [hm.offsets, h.offsets, List.getElem?_map, List.getElem?_range hi]
    rfl
  have hcut : (UInt32.ofNat (recs.take i).flatten.length).toNat =
      (recs.take j).flatten.length := by
    rw [UInt32.toNat_ofNat', hstart]
  have hread : sliceFrom m.kallsymsNames (recs.take j).flatten.length =
      .ok (header syms[j].ty length ++ (payload ++ (recs.drop (j + 1)).flatten)) := by
    rw [hm.names, sliceFrom_of_le (by omega), hsplit, List.drop_left]
  have hpayload : slice m.kallsymsNames ((recs.take j).flatten.length + PREFIX_LEN)
      ((recs.take j).flatten.length + PREFIX_LEN + length.toNat) = .ok payload := by
    rw [hm.names, slice_of_le (by omega) (by omega), hsplit, ← List.append_assoc,
      ← hheader, ← List.length_append, hlength, List.take_length_add_append, List.take_left,
      List.drop_left]
  unfold symbolAt
  rw [hoffset, ok_bind, hcut]
  simp only [hread, ok_bind, readCompressedLenAndType_header, hpayload, hexpand]
  by_cases hempty : syms[j].name = []
  · rw [if_pos hempty, if_pos hempty, error_bind]
  · rw [if_neg hempty, if_neg hempty, ok_bind]
    rfl

/-- Below 4 GiB of names a symbol is read from its own record. -/
theorem symbolAt_eq {m : KallsymsMapped} {b : KallsymsBlob} {checks : Bool} {tokens : List Str}
    {syms : List Symbol} {recs : List (List UInt8)} (h : Emitted checks tokens b syms recs)
    (hcount : tokens.length ≤ MAX_TOKEN) (htokens : ShortTokens tokens) (hm : m.ViewsRecords b)
    (hfits : b.kallsymsNames.length < 2 ^ 32) (hshort : ShortNames syms) {j : Nat} {s : Symbol}
    (hj : syms[j]? = some s) :
    m.symbolAt j = if s.name = [] then .error .outOfBounds else .ok (readBack b.tokenMap s) := by
  have hlt : j < recs.length :=
    h.records.length_eq ▸ (List.getElem?_eq_some_iff.mp hj).1
  have hle : (recs.take j).flatten.length ≤ b.kallsymsNames.length := by
    rw [h.names]
    conv_rhs => rw [← List.take_append_drop j recs, List.flatten_append, List.length_append]
    exact Nat.le_add_right _ _
  exact symbolAt_start h hcount htokens hm hshort hlt hj (Nat.mod_eq_of_lt (by omega))

end KallsymsMapped

end ExtKtrace.Ksym
