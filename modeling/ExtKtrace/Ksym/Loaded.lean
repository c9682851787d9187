import ExtKtrace.Ksym.Blob
import ExtKtrace.Ksym.Generated

/-!
# A generated table in memory

A list of symbols that has been compressed, written out, put at a page and parsed, and what its
reader finds in it.
-/

namespace ExtKtrace.Ksym
set_option autoImplicit false
open Utf8 StableSort KallsymsBlob

namespace KallsymsBlob.Generated
variable {checks : Bool} {hash : HashOrder} {symbols : List Symbol} {b : KallsymsBlob}

theorem length_byAddress (symbols : List Symbol) : (byAddress symbols).length = symbols.length :=
  (perm_sortByKey _ symbols).length_eq

theorem length_byName (symbols : List Symbol) : (byName symbols).length = symbols.length :=
  (perm_sortByKey _ symbols).length_eq

theorem addresses (h : Generated checks hash symbols b) :
    b.kallsymsAddresses = (byAddress symbols).map fun s => s.addr := by
  obtain ⟨recs, hemitted⟩ := h.emitted
  exact hemitted.addresses

theorem arrays (h : Generated checks hash symbols b) : b.Arrays := by
  obtain ⟨recs, hemitted⟩ := h.emitted
  obtain ⟨positions, hseqs, hpositions⟩ := h.seqs
  refine ⟨?_, ?_, ?_⟩
  · rw [h.addresses, List.length_map, length_byAddress, h.numSyms]
  · rw [hemitted.offsets, List.length_map, List.length_range, ← hemitted.records.length_eq,
      length_byAddress, h.numSyms]
  · rw [hseqs, List.length_map, hpositions.length_eq, length_byName, h.numSyms]

/-- Every record has a header at least. -/
theorem three_mul_le {tokenMap : List (Str × UInt16)} {syms : List Symbol}
    {recs : List (List UInt8)} (h : List.Forall₂ (Writes checks tokenMap) syms recs)
    (hshort : ShortNames syms) : 3 * syms.length ≤ recs.flatten.length := by
  induction h with
  | nil => exact Nat.le_refl _
  | @cons s bytes syms recs hs hrest ih =>
    obtain ⟨token, _, hrecord⟩ := hs
    obtain ⟨payload, length, hrecord', _⟩ :=
      KallsymsMapped.record_eq checks s.ty token (hshort s List.mem_cons_self)
    have hbytes := Except.ok.inj (hrecord.symm.trans hrecord')
    have hheader : (header s.ty length).length = 3 := rfl
    have hlen := ih fun t ht => hshort t (List.mem_cons_of_mem _ ht)
    rw [List.flatten_cons, List.length_append, List.length_cons, hbytes, List.length_append]
    omega

theorem count_le (h : Generated checks hash symbols b) (hshort : ShortNames symbols) :
    3 * symbols.length ≤ b.kallsymsNames.length := by
  obtain ⟨recs, hemitted⟩ := h.emitted
  have hle := three_mul_le hemitted.records fun s hs =>
    hshort s ((perm_sortByKey _ _).mem_iff.mp hs)
  rwa [length_byAddress, ← hemitted.names] at hle

/-- The blob of a table that fits in memory is written. -/
theorem toBlob_ok (h : Generated checks hash symbols b)
    (hroom : b.kallsymsNames.length + 16 * symbols.length < 2 ^ 62) :
    ∃ blob, b.toBlob = .ok blob := by
  obtain ⟨recs, hemitted⟩ := h.emitted
  have hMAX : MAX_TOKEN = 512 := rfl
  have hISIZE : ISIZE_MAX = 2 ^ 63 - 1 := rfl
  have htokens := chosenTokens_count hash symbols
  have htable : b.tokenTable.length ≤ (chosenTokens hash symbols).length * 4096 := by
    rw [hemitted.tokens.table]
    exact length_flatMap_le (chosenTokens_short hash symbols)
  have hindex : b.tokenIndex.length = (chosenTokens hash symbols).length := by
    rw [hemitted.tokens.index, List.length_map, List.length_range]
  have hnum := h.numSyms
  obtain ⟨l0, l1, l2, l3, l4, l5, l6, l7⟩ := h.arrays.lengths
  rw [length_pad_eight] at l1 l4 l5 l6
  rw [length_pad_four] at l2 l3 l7
  rw [length_lenBytes] at l4 l5
  rw [toBlob_eq, if_pos (by omega)]
  exact ⟨_, rfl⟩

end KallsymsBlob.Generated

theorem KallsymsBlob.toBlob_length {b : KallsymsBlob} {blob : List UInt8}
    (h : b.toBlob = .ok blob) : blob.length ≤ ISIZE_MAX := by
  rw [(toBlob_sections h).length]
  rw [toBlob_eq] at h
  split at h
  case isTrue hle => exact hle
  case isFalse => cases h

structure Loaded where
  /-- Whether the builds of the generator and of the reader check for overflow. -/
  genChecks : Bool
  checks : Bool
  hash : HashOrder
  symbols : List Symbol
  short : ShortNames symbols
  table : KallsymsBlob
  compressed : new.compressSymbols genChecks hash symbols = .ok table
  blob : List UInt8
  written : table.toBlob = .ok blob
  base : Nat
  page : PageMapped base blob
  stext : UInt64
  etext : UInt64
  mapped : KallsymsMapped
  opened : fromBlob checks base blob stext etext = pure mapped

/-- A list whose table fits in memory can be loaded. -/
theorem exists_loaded (genChecks checks : Bool) (hash : HashOrder) {symbols : List Symbol}
    (hshort : ShortNames symbols) (hcut : ∀ s ∈ symbols, Cuttable s.name)
    (hroom : ∀ table, new.compressSymbols genChecks hash symbols = .ok table →
      table.kallsymsNames.length + 16 * symbols.length < 2 ^ 62) (stext etext : UInt64) :
    ∃ t : Loaded, t.genChecks = genChecks ∧ t.checks = checks ∧ t.hash = hash ∧
      t.symbols = symbols ∧ t.stext = stext ∧ t.etext = etext := by
  have hISIZE : ISIZE_MAX = 2 ^ 63 - 1 := rfl
  have hUSIZE : USIZE = 2 ^ 64 := rfl
  obtain ⟨table, hcompressed⟩ := (compressSymbols_ok_iff genChecks hash hshort).mpr hcut
  have hgenerated := compressSymbols_generated hcompressed
  obtain ⟨blob, hblob⟩ := hgenerated.toBlob_ok (hroom table hcompressed)
  have hlength : blob.length ≤ ISIZE_MAX := toBlob_length hblob
  have hpage : PageMapped 4096 blob := ⟨Nat.dvd_refl _, by omega⟩
  exact ⟨{
    genChecks, checks, hash, symbols, short := hshort, table, compressed := hcompressed, blob,
    written := hblob, base := 4096, page := hpage, stext, etext, mapped := _,
    opened := fromBlob_toBlob hgenerated.arrays hblob hpage stext etext },
    rfl, rfl, rfl, rfl, rfl, rfl⟩

namespace Loaded
variable (t : Loaded)

theorem generated : Generated t.genChecks t.hash t.symbols t.table :=
  compressSymbols_generated t.compressed

theorem mapped_eq : t.mapped = t.table.mapped t.stext t.etext := by
  have hopened := t.opened
  rw [fromBlob_toBlob t.generated.arrays t.written t.page] at hopened
  exact (Except.ok.inj (Except.ok.inj hopened)).symm

theorem numSyms : t.mapped.kallsymsNumSyms = (byAddress t.symbols).length := by
  rw [t.mapped_eq, Generated.length_byAddress]
  exact t.generated.numSyms

theorem addresses : t.mapped.kallsymsAddresses = (byAddress t.symbols).map fun s => s.addr := by
  rw [t.mapped_eq]
  exact t.generated.addresses

theorem index_address {i : Nat} {s : Symbol} (h : (byAddress t.symbols)[i]? = some s) :
    index t.mapped.kallsymsAddresses i = .ok s.addr := by
  unfold index
  rw [t.addresses, List.getElem?_map, h]
  rfl

theorem bounds : t.mapped.stext = t.stext ∧ t.mapped.etext = t.etext := by
  rw [t.mapped_eq]
  exact ⟨rfl, rfl⟩

theorem views : t.mapped.ViewsRecords t.table := by
  rw [t.mapped_eq]
  exact ⟨⟨rfl, rfl⟩, rfl, rfl⟩

theorem short_byAddress : ShortNames (byAddress t.symbols) :=
  fun s hs => t.short s ((perm_sortByKey _ _).mem_iff.mp hs)

/-- The names take less than 4 GiB, so that every offset is exact. -/
def Fits : Prop := t.table.kallsymsNames.length < 2 ^ 32

/-- What the reader makes of a symbol. -/
def readBack (s : Symbol) : Str × Char := Ksym.readBack t.table.tokenMap s

theorem symbolAt_eq (hfits : t.Fits) {i : Nat} {s : Symbol}
    (h : (byAddress t.symbols)[i]? = some s) :
    t.mapped.symbolAt i = if s.name = [] then .error .outOfBounds else .ok (t.readBack s) := by
  obtain ⟨recs, hemitted⟩ := t.generated.emitted
  exact KallsymsMapped.symbolAt_eq hemitted (chosenTokens_count _ _) (chosenTokens_short _ _)
    t.views hfits t.short_byAddress h

theorem readBack_eq (hcount : (chosenTokens t.hash t.symbols).length < MAX_TOKEN) {s : Symbol}
    (hty : s.ty.toNat < 256) : t.readBack s = (s.name, s.ty) := by
  obtain ⟨recs, hemitted⟩ := t.generated.emitted
  exact Ksym.readBack_eq hemitted.tokens hcount hty

theorem dump_prefix {m : KallsymsMapped} {sorted : List Symbol} {read : Symbol → Str × Char}
    (haddr : ∀ i s, sorted[i]? = some s → index m.kallsymsAddresses i = .ok s.addr)
    (hread : ∀ i s, sorted[i]? = some s → m.symbolAt i = .ok (read s)) (k : Nat)
    (hk : k ≤ sorted.length) :
    (List.range k).foldlM (fun out i => do
      let addr ← index m.kallsymsAddresses i
      let (name, ty) ← m.symbolAt i
      return out ++ KallsymsMapped.dumpLine addr ty name) [] =
      (.ok ((sorted.take k).flatMap fun s =>
        KallsymsMapped.dumpLine s.addr (read s).2 (read s).1) : Run Str) := by
  induction k with
  | zero => rfl
  | succ k ih =>
    have hget : sorted[k]? = some sorted[k] := List.getElem?_eq_getElem (by omega)
    rw [List.range_succ, List.foldlM_append, ih (by omega), ok_bind, List.foldlM_cons,
      haddr k _ hget, ok_bind, hread k _ hget, ok_bind, List.take_add_one, hget,
      List.flatMap_append]
    simp only [Option.toList_some, List.flatMap_cons, List.flatMap_nil, List.append_nil]
    rfl

/-- The symbols are listed in stable address order. -/
theorem dumpAllSymbols_eq (read : Symbol → Str × Char)
    (hread : ∀ i s, (byAddress t.symbols)[i]? = some s → t.mapped.symbolAt i = .ok (read s)) :
    t.mapped.dumpAllSymbols = .ok ((byAddress t.symbols).flatMap fun s =>
      KallsymsMapped.dumpLine s.addr (read s).2 (read s).1) := by
  unfold KallsymsMapped.dumpAllSymbols
  rw [t.numSyms, dump_prefix (fun i s => t.index_address) hread _ (Nat.le_refl _),
    List.take_length]

end Loaded

/-- Generating a table and reading it are inverse: on a page it is parsed, and what is listed
are the symbols in stable address order. -/
theorem dump_of_generated (genChecks checks : Bool) (hash : HashOrder) {symbols : List Symbol}
    (hnames : ∀ s ∈ symbols, s.name ≠ [] ∧ Ascii s.name ∧
      (encode s.name).length ≤ KSYM_NAME_LEN)
    (htypes : ∀ s ∈ symbols, s.ty.toNat < 128)
    (hcount : (chosenTokens hash symbols).length < MAX_TOKEN) :
    ∃ table, new.compressSymbols genChecks hash symbols = .ok table ∧
      (table.kallsymsNames.length < 2 ^ 32 → ∃ blob, table.toBlob = .ok blob ∧
        ∀ base, PageMapped base blob → ∀ stext etext, ∃ m,
          fromBlob checks base blob stext etext = pure m ∧
          ∃ sorted, IsStableSort (fun s => s.addr) symbols sorted ∧ sorted.Perm symbols ∧
            m.dumpAllSymbols = .ok (sorted.flatMap fun s =>
              KallsymsMapped.dumpLine s.addr s.ty s.name)) := by
  have hshort : ShortNames symbols := fun s hs => (hnames s hs).2.2
  obtain ⟨table, hcompressed⟩ := (compressSymbols_ok_iff genChecks hash hshort).mpr
    fun s hs => cuttable_ascii (hnames s hs).2.1
  refine ⟨table, hcompressed, fun hfits => ?_⟩
  have hgenerated := compressSymbols_generated hcompressed
  have hcountle := hgenerated.count_le hshort
  obtain ⟨blob, hblob⟩ := hgenerated.toBlob_ok (by omega)
  refine ⟨blob, hblob, fun base hpage stext etext => ?_⟩
  have hopened : fromBlob checks base blob stext etext = _ :=
    fromBlob_toBlob hgenerated.arrays hblob hpage stext etext
  refine ⟨_, hopened, byAddress symbols, isStableSort_sortByKey _ _, perm_sortByKey _ _, ?_⟩
  let t : Loaded := {
    genChecks, checks, hash, symbols, short := hshort, table, compressed := hcompressed, blob,
    written := hblob, base, page := hpage, stext, etext, mapped := _, opened := hopened }
  refine t.dumpAllSymbols_eq (fun s => (s.name, s.ty)) fun i s hi => ?_
  have hs : s ∈ symbols := (perm_sortByKey _ _).mem_iff.mp (List.mem_of_getElem? hi)
  have hlt := htypes s hs
  rw [t.symbolAt_eq hfits hi, if_neg (hnames s hs).1, t.readBack_eq hcount (by omega)]

def okOr {α : Type} (r : Run α) (a : α) : α :=
  match r with
  | .ok a => a
  | .error _ => a

/-- The entries as they were counted. -/
def countOrder : HashOrder := ⟨id, fun _ => .refl _⟩

def twoSymbols : List Symbol :=
  [⟨"do_mkdir".toList, 0x1300, 'T'⟩, ⟨"do_fork".toList, 0x1000, 't'⟩]

theorem dump_of_two_symbols :
    ∃ table, new.compressSymbols true countOrder twoSymbols = .ok table ∧
      (table.kallsymsNames.length < 2 ^ 32 → ∃ blob, table.toBlob = .ok blob ∧
        ∀ base, PageMapped base blob → ∀ stext etext, ∃ m,
          fromBlob true base blob stext etext = pure m ∧
          ∃ sorted, IsStableSort (fun s => s.addr) twoSymbols sorted ∧ sorted.Perm twoSymbols ∧
            m.dumpAllSymbols = .ok (sorted.flatMap fun s =>
              KallsymsMapped.dumpLine s.addr s.ty s.name)) :=
  dump_of_generated true true countOrder (by decide +kernel) (by decide +kernel)
    (by decide +kernel)

end ExtKtrace.Ksym
