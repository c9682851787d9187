import ExtKtrace.Ksym.AddressLookup
import ExtKtrace.Ksym.NameLookup

/-!
# What can be read of a generated table

Lines of at most 4096 bytes are read as symbols. The generator gets through them when it cuts no
name inside a character, and the reader gets through the table when every record can be read and,
where it checks for overflow, no address of the text section is below all symbols.
-/

namespace ExtKtrace.Ksym
set_option autoImplicit false
open Utf8 StableSort KallsymsBlob

/-- The record of an accepted line, with its header, is no longer than the line. -/
theorem readSymbol_ok {line : Str} (h : (encode line).length ≤ 4096) :
    ∃ entry, readSymbol line = .ok entry ∧
      ∀ s ∈ entry, (encode s.name).length + 3 ≤ (encode line).length := by
  unfold readSymbol
  rw [if_neg (by omega)]
  refine ⟨_, rfl, ?_⟩
  intro s hs
  have hspaced := spaced_splitWhitespace line
  have hwords : ∀ w ∈ splitWhitespace line, 0 < (encode w).length := by
    intro w hw
    have hne : w ≠ [] := by simpa using (List.mem_filter.mp hw).2
    exact List.length_pos_of_ne_nil (encode_ne_nil hne)
  cases hsplit : splitWhitespace line with
  | nil =>
    rw [hsplit] at hs
    cases hs
  | cons addr parts =>
    rw [hsplit] at hs hspaced hwords
    cases parts with
    | nil =>
      simp at hs
    | cons symbolType parts =>
      obtain ⟨vaddr, _, hs⟩ := Option.bind_eq_some_iff.mp hs
      obtain ⟨ty, _, hs⟩ := Option.bind_eq_some_iff.mp hs
      cases hs
      have haddr := hwords addr List.mem_cons_self
      have htype := hwords symbolType (List.mem_cons_of_mem _ List.mem_cons_self)
      have hjoin := length_join_le parts
      rw [spaced_cons, spaced_cons] at hspaced
      show (encode ([' '].intercalate parts)).length + 3 ≤ _
      omega

/-- The bytes of the lines. -/
def textLength (lines : List Str) : Nat := (lines.map fun line => (encode (trim line)).length).sum

/-- The bytes that records take at most. -/
def recordRoom (symbols : List Symbol) : Nat :=
  (symbols.map fun s => (encode s.name).length + 3).sum

theorem readMap_ok {lines : List Str} (h : ∀ line ∈ lines, (encode (trim line)).length ≤ 4096) :
    ∃ symbols, readMap lines = .ok symbols ∧ ShortNames symbols ∧
      recordRoom symbols ≤ textLength lines := by
  induction lines with
  | nil => exact ⟨[], rfl, fun s hs => absurd hs List.not_mem_nil, Nat.le_refl _⟩
  | cons line lines ih =>
    obtain ⟨symbols, hrun, hshort, hroom⟩ := ih fun l hl => h l (List.mem_cons_of_mem _ hl)
    obtain ⟨entry, hentry, hlength⟩ := readSymbol_ok (h line List.mem_cons_self)
    have hline := h line List.mem_cons_self
    have hKSYM : KSYM_NAME_LEN = 4096 := rfl
    refine ⟨entry.toList ++ symbols, ?_, ?_, ?_⟩
    · unfold readMap
      rw [hentry, ok_bind, hrun, ok_bind]
      rfl
    · intro s hs
      rcases List.mem_append.mp hs with hs | hs
      · have hle := hlength s (Option.mem_toList.mp hs)
        omega
      · exact hshort s hs
    · unfold textLength recordRoom at hroom ⊢
      rw [List.map_cons, List.sum_cons, List.map_append, List.sum_append]
      cases entry with
      | none => exact Nat.le_trans (Nat.le_of_eq (Nat.zero_add _)) (Nat.le_add_left_of_le hroom)
      | some s =>
        have hle := hlength s rfl
        have hone : ((some s).toList.map fun s => (encode s.name).length + 3).sum =
            (encode s.name).length + 3 := rfl
        omega

theorem mem_of_findToken {tokenMap : List (Str × UInt16)} {name : Str} {lens : List Nat} {l : Nat}
    {id : UInt16} (h : findToken tokenMap name lens = .ok (some (l, id))) :
    l ∈ lens ∧ l ≤ (encode name).length := by
  induction lens with
  | nil => cases h
  | cons k lens ih =>
    have hrest := fun h => (ih h).imp_left (List.mem_cons_of_mem k)
    unfold findToken at h
    split at h
    · exact hrest h
    rename_i hle
    cases hcandidate : strPrefix name k with
    | error p =>
      rw [hcandidate] at h
      cases h
    | ok candidate =>
      rw [hcandidate, ok_bind] at h
      cases hid : tokenId tokenMap candidate with
      | none =>
        rw [hid] at h
        exact hrest h
      | some id' =>
        rw [hid] at h
        cases h
        exact ⟨List.mem_cons_self, Nat.le_of_not_gt hle⟩

theorem length_writes_le {checks : Bool} {tokenMap : List (Str × UInt16)} {s : Symbol}
    {bytes : List UInt8} (h : Writes checks tokenMap s bytes)
    (hlen : (encode s.name).length ≤ KSYM_NAME_LEN) :
    bytes.length ≤ (encode s.name).length + 3 := by
  obtain ⟨token, htoken, hrecord⟩ := h
  obtain ⟨payload, length, hrecord', _, hpayload⟩ :=
    KallsymsMapped.record_eq checks s.ty token hlen
  have hbytes := Except.ok.inj (hrecord.symm.trans hrecord')
  have hheader : (header s.ty length).length = 3 := rfl
  rw [hbytes, List.length_append, hheader, hpayload]
  cases token with
  | none =>
    show 3 + (encode s.name).length ≤ _
    omega
  | some pick =>
    obtain ⟨l, id⟩ := pick
    obtain ⟨hmem, hle⟩ := mem_of_findToken htoken
    have hge := candidate_ge l hmem
    have hmarked := KallsymsMapped.length_tokenBytes id
    have hid : (if id < 256 then 3 else 4 : UInt16).toNat ≤ 4 := by
      split <;> decide
    show 3 + (tokenBytes id ++ (encode s.name).drop l).length ≤ _
    rw [List.length_append, List.length_drop]
    omega

theorem length_records_le {checks : Bool} {tokenMap : List (Str × UInt16)} {syms : List Symbol}
    {recs : List (List UInt8)} (h : List.Forall₂ (Writes checks tokenMap) syms recs)
    (hshort : ShortNames syms) : recs.flatten.length ≤ recordRoom syms := by
  induction h with
  | nil => exact Nat.le_refl _
  | @cons s bytes syms recs hs hrest ih =>
    have hle := length_writes_le hs (hshort s List.mem_cons_self)
    have hle' := ih fun t ht => hshort t (List.mem_cons_of_mem _ ht)
    unfold recordRoom at hle' ⊢
    rw [List.flatten_cons, List.length_append, List.map_cons, List.sum_cons]
    omega

theorem KallsymsBlob.Generated.length_names_le {checks : Bool} {hash : HashOrder}
    {symbols : List Symbol} {b : KallsymsBlob} (h : Generated checks hash symbols b)
    (hshort : ShortNames symbols) : b.kallsymsNames.length ≤ recordRoom symbols := by
  obtain ⟨recs, hemitted⟩ := h.emitted
  have hle := length_records_le hemitted.records fun s hs =>
    hshort s ((perm_sortByKey _ _).mem_iff.mp hs)
  have hperm : recordRoom (byAddress symbols) = recordRoom symbols :=
    ((perm_sortByKey _ _).map _).sum_nat
  rw [hemitted.names]
  omega

/-- The names of a text of less than 4 GiB take less than 4 GiB. -/
theorem Loaded.fits_of_text (t : Loaded) (h : recordRoom t.symbols < 2 ^ 32) : t.Fits :=
  Nat.lt_of_le_of_lt (t.generated.length_names_le t.short) h

/-- A short list of symbols can be loaded. -/
theorem exists_loaded_of_text (genChecks checks : Bool) (hash : HashOrder) {symbols : List Symbol}
    (hshort : ShortNames symbols) (hcut : ∀ s ∈ symbols, Cuttable s.name)
    (hroom : recordRoom symbols + 16 * symbols.length < 2 ^ 32) (stext etext : UInt64) :
    ∃ t : Loaded, t.symbols = symbols ∧ t.Fits ∧ t.checks = checks ∧ t.stext = stext ∧
      t.etext = etext := by
  obtain ⟨t, _, hchecks, _, rfl, hstext, hetext⟩ :=
    exists_loaded genChecks checks hash hshort hcut (fun table hcompressed => by
      have hle := (compressSymbols_generated hcompressed).length_names_le hshort
      omega) stext etext
  exact ⟨t, rfl, t.fits_of_text (by omega), hchecks, hstext, hetext⟩

namespace Loaded
variable (t : Loaded)

/-- Nothing that is asked of the table ends in a panic. -/
structure NeverPanics : Prop where
  dump : ∃ out, t.mapped.dumpAllSymbols = .ok out
  address : ∀ addr, ∃ r, t.mapped.lookupAddress t.checks addr = .ok r
  name : ∀ name needEnd, ∃ r, t.mapped.lookupNames name needEnd = .ok r

def RecordsReadable : Prop := ∀ i < t.symbols.length, ∃ r, t.mapped.symbolAt i = .ok r

/-- With overflow checked, no address of the text section is below all symbols. -/
def Covered : Prop :=
  t.checks = true → t.stext < t.etext → t.symbols ≠ [] → ∃ s ∈ t.symbols, s.addr ≤ t.stext

theorem numSyms_eq : t.mapped.kallsymsNumSyms = t.symbols.length :=
  t.numSyms.trans (Generated.length_byAddress _)

theorem dump_ok_iff : (∃ out, t.mapped.dumpAllSymbols = .ok out) ↔ t.RecordsReadable := by
  unfold KallsymsMapped.dumpAllSymbols
  rw [t.numSyms_eq]
  refine (foldlM_ok_iff (P := fun i => ∃ r, t.mapped.symbolAt i = .ok r) ?_ []).trans ?_
  · intro out i hi
    have hlt : i < (byAddress t.symbols).length := by
      rw [Generated.length_byAddress]
      exact List.mem_range.mp hi
    rw [t.index_address (List.getElem?_eq_getElem hlt), ok_bind]
    cases hsymbol : t.mapped.symbolAt i with
    | error p => simp
    | ok read => exact iff_of_true ⟨_, rfl⟩ ⟨_, rfl⟩
  · exact forall_congr' fun i => by rw [List.mem_range]

theorem reads_of_readable (h : t.RecordsReadable) : ∃ names, Reads t.mapped names := by
  have hread : ∀ i < t.mapped.kallsymsNumSyms, ∃ name, t.mapped.nameAt i = .ok name := by
    intro i hi
    rw [t.numSyms_eq] at hi
    obtain ⟨positions, hseqs, hpositions⟩ := t.seqs
    have hlen : positions.length = t.symbols.length :=
      hpositions.length_eq.trans (Generated.length_byName _)
    have hget := (List.forall₂_iff_get.mp hpositions).2 i (by omega)
      (by rw [Generated.length_byName]; omega)
    have hbound := (List.getElem?_eq_some_iff.mp hget).1
    rw [Generated.length_byAddress] at hbound
    -- Cut to 32 bits, a position is still one.
    have hcut : (UInt32.ofNat positions[i]).toNat < t.symbols.length := by
      rw [UInt32.toNat_ofNat']
      exact Nat.lt_of_le_of_lt (Nat.mod_le _ _) hbound
    obtain ⟨read, hsymbol⟩ := h _ hcut
    have hseq : t.mapped.kallsymsSeqsOfNames[i]? = some (UInt32.ofNat positions[i]) := by
      rw [hseqs, List.getElem?_map, List.getElem?_eq_getElem (by omega)]
      rfl
    refine ⟨read.1, ?_⟩
    unfold KallsymsMapped.nameAt
    rw [index_of_getElem? hseq, ok_bind, hsymbol, ok_bind]
    rfl
  refine ⟨fun i => okOr (t.mapped.nameAt i) [], fun i hi => ?_⟩
  obtain ⟨name, hname⟩ := hread i hi
  simp only [hname]
  rfl

theorem lookupAddress_ok (hread : t.RecordsReadable) (hcovered : t.Covered) (addr : UInt64) :
    ∃ r, t.mapped.lookupAddress t.checks addr = .ok r := by
  by_cases hout : t.Outside addr
  · exact ⟨none, t.lookupAddress_outside t.checks hout⟩
  have hlow : t.stext ≤ addr := UInt64.not_lt.mp fun hlt => hout (Or.inl hlt)
  have hhigh : addr < t.etext := UInt64.not_le.mp fun hle => hout (Or.inr (Or.inl hle))
  have hne : t.symbols ≠ [] := fun hnil => hout (Or.inr (Or.inr hnil))
  obtain ⟨i, s, stop, hget, hreported, hstop, hrun⟩ := t.lookupAddress_inside hlow hhigh hne
  have hlt := (List.getElem?_eq_some_iff.mp hget).1
  rw [Generated.length_byAddress] at hlt
  obtain ⟨⟨name, ty⟩, hsymbol⟩ := hread i hlt
  rw [hrun, hsymbol, ok_bind]
  cases hchecks : t.checks with
  | false =>
    have hsub : ∀ a b, u64Sub false a b = .ok (a - b) := by
      intro a b
      unfold u64Sub
      split <;> rfl
    simp only [hsub]
    exact ⟨_, rfl⟩
  | true =>
    obtain ⟨low, hmem, hle⟩ := hcovered hchecks (UInt64.lt_of_le_of_lt hlow hhigh) hne
    have hsle : s.addr ≤ addr := by
      by_contra hgt
      have habove := hreported.above (UInt64.not_le.mp hgt) low hmem
      exact absurd (UInt64.le_trans hle hlow) (UInt64.not_le.mpr habove)
    have hend : s.addr ≤ stop := by
      rcases hstop with ⟨hlt, _⟩ | ⟨rfl, _⟩
      · exact UInt64.le_of_lt hlt
      · exact UInt64.le_of_lt (UInt64.lt_of_le_of_lt hsle hhigh)
    rw [u64Sub_of_le hend, u64Sub_of_le hsle]
    exact ⟨_, rfl⟩

/-- Below all symbols a checked lookup panics. -/
theorem covered_of_lookups (h : ∀ addr, ∃ r, t.mapped.lookupAddress t.checks addr = .ok r) :
    t.Covered := by
  intro hchecks hlt hne
  obtain ⟨i, s, stop, hget, hreported, _, hrun⟩ :=
    t.lookupAddress_inside (UInt64.le_refl _) hlt hne
  have hmem := mem_of_byAddress hget
  by_contra hnone
  have habove : t.stext < s.addr := UInt64.not_le.mp fun hle => hnone ⟨s, hmem, hle⟩
  obtain ⟨r, hok⟩ := h t.stext
  rw [hchecks, hrun] at hok
  have hoffset : u64Sub true t.stext s.addr = .error .overflow := by
    unfold u64Sub
    rw [if_neg (UInt64.not_le.mpr habove), if_pos rfl]
  cases hsymbol : t.mapped.symbolAt i with
  | error p =>
    rw [hsymbol] at hok
    cases hok
  | ok read =>
    rw [hsymbol, ok_bind] at hok
    cases hsize : u64Sub true stop s.addr with
    | error p =>
      rw [hsize] at hok
      cases hok
    | ok size =>
      rw [hsize, hoffset] at hok
      cases hok

theorem neverPanics_iff : t.NeverPanics ↔ t.RecordsReadable ∧ t.Covered := by
  constructor
  · intro h
    exact ⟨t.dump_ok_iff.mp h.dump, t.covered_of_lookups h.address⟩
  · rintro ⟨hread, hcovered⟩
    obtain ⟨names, hnames⟩ := t.reads_of_readable hread
    exact ⟨t.dump_ok_iff.mpr hread, t.lookupAddress_ok hread hcovered, hnames.lookupNames_ok⟩

theorem recordsReadable_iff (hfits : t.Fits) :
    t.RecordsReadable ↔ ∀ s ∈ t.symbols, s.name ≠ [] := by
  constructor
  · intro h s hs
    obtain ⟨i, hi⟩ := exists_byAddress hs
    have hlt := (List.getElem?_eq_some_iff.mp hi).1
    rw [Generated.length_byAddress] at hlt
    obtain ⟨r, hr⟩ := h i hlt
    exact ((t.symbolAt_fits hfits hi).mp hr).1
  · intro h i hi
    have hget := List.getElem?_eq_getElem (l := byAddress t.symbols) (i := i)
      (by rw [Generated.length_byAddress]; exact hi)
    exact ⟨_, (t.symbolAt_fits hfits hget).mpr ⟨h _ (mem_of_byAddress hget), rfl⟩⟩

end Loaded

/-- Lines of at most 4096 bytes are read. The generator gets through the symbols when it cuts no
name inside a character; the reader gets through a table of them when its records can be read and
the text section starts at or above a symbol, or overflow is not checked. For a text of less than
4 GiB a record can be read when its name has a byte. -/
theorem generated_readable_iff (genChecks : Bool) (hash : HashOrder) {lines : List Str}
    (hlines : ∀ line ∈ lines, (encode (trim line)).length ≤ 4096) :
    ∃ symbols, readMap lines = .ok symbols ∧
      ((∃ table, new.compressSymbols genChecks hash symbols = .ok table) ↔
        ∀ s ∈ symbols, Cuttable s.name) ∧
      ∀ t : Loaded, t.symbols = symbols →
        (t.NeverPanics ↔ t.RecordsReadable ∧ t.Covered) ∧
        (textLength lines < 2 ^ 32 →
          (t.NeverPanics ↔ (∀ s ∈ symbols, s.name ≠ []) ∧ t.Covered)) := by
  obtain ⟨symbols, hrun, hshort, hroom⟩ := readMap_ok hlines
  refine ⟨symbols, hrun, compressSymbols_ok_iff genChecks hash hshort, ?_⟩
  rintro t rfl
  refine ⟨t.neverPanics_iff, fun htext => ?_⟩
  rw [t.neverPanics_iff, t.recordsReadable_iff (t.fits_of_text (by omega))]

def twoLines : List Str :=
  ["ffffffff81001000 T do_fork\n".toList, "ffffffff81001300 t vfs_read\n".toList]

def twoRead : List Symbol :=
  [⟨"do_fork".toList, 0xffffffff81001000, 'T'⟩, ⟨"vfs_read".toList, 0xffffffff81001300, 't'⟩]

theorem read_twoLines : readMap twoLines = .ok twoRead := by decide +kernel

theorem two_lines_are_read :
    ∃ t : Loaded, readMap twoLines = .ok t.symbols ∧ t.checks = true ∧ t.NeverPanics := by
  obtain ⟨symbols, hrun, _, hread⟩ := generated_readable_iff true countOrder
    (show ∀ line ∈ twoLines, (encode (trim line)).length ≤ 4096 by decide +kernel)
  rw [read_twoLines] at hrun
  obtain rfl := Except.ok.inj hrun
  have hascii : ∀ s ∈ twoRead, Ascii s.name := by decide +kernel
  have hshort : ShortNames twoRead := by decide +kernel
  obtain ⟨t, ht, _, hchecks, hstext, _⟩ := exists_loaded_of_text true true countOrder hshort
    (fun s hs => cuttable_ascii (hascii s hs)) (by decide +kernel)
    0xffffffff81001000 0xffffffff81002000
  refine ⟨t, by rw [ht, read_twoLines], hchecks,
    ((hread t ht).2 (by decide +kernel)).mpr ⟨by decide, fun _ _ _ => ?_⟩⟩
  rw [ht, hstext]
  exact ⟨_, List.mem_cons_self, UInt64.le_refl _⟩

def namelessRead : List Symbol := [⟨[], 0x1000, 'T'⟩]

def uncutRead : List Symbol := [⟨"_ns9crateé".toList, 0x1000, 'T'⟩]

/-- The record of a line with no name cannot be read, and a name with a character of two bytes
across a candidate length is not cut. -/
theorem accepted_line_not_read :
    (∃ t : Loaded, readMap ["1000 T\n".toList] = .ok t.symbols ∧
      ¬ ∃ out, t.mapped.dumpAllSymbols = .ok out) ∧
    ∃ symbols, readMap ["1000 T _ns9crateé\n".toList] = .ok symbols ∧
      ¬ ∃ table, new.compressSymbols true countOrder symbols = .ok table := by
  constructor
  · have hrun : readMap ["1000 T\n".toList] = .ok namelessRead := by decide +kernel
    have hascii : ∀ s ∈ namelessRead, Ascii s.name := by decide +kernel
    have hshort : ShortNames namelessRead := by decide +kernel
    obtain ⟨t, ht, hfits, _⟩ := exists_loaded_of_text true true countOrder hshort
      (fun s hs => cuttable_ascii (hascii s hs)) (by decide +kernel) 0x1000 0x2000
    refine ⟨t, by rw [ht, hrun], ?_⟩
    rw [t.dump_ok_iff, t.recordsReadable_iff hfits, ht]
    decide
  · have hrun : readMap ["1000 T _ns9crateé\n".toList] = .ok uncutRead := by decide +kernel
    have hpanic : new.compressSymbols true countOrder uncutRead = .error .invalidUtf8 := by
      decide +kernel
    refine ⟨uncutRead, hrun, ?_⟩
    rintro ⟨table, htable⟩
    rw [hpanic] at htable
    cases htable

end ExtKtrace.Ksym
