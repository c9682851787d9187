import ExtKtrace.Lib.Slots
import ExtKtrace.Ksym.Records

/-!
# Parsing a generated blob

The parser finds every section where the generator has put it: the padding of the one is the
alignment of the other, as the blob starts at a page.
-/

namespace ExtKtrace.Ksym
set_option autoImplicit false
open Utf8 Endian KallsymsBlob

/-- The bytes at an offset of a blob. -/
structure At (blob : List UInt8) (off : Nat) (bytes : List UInt8) : Prop where
  eq : (blob.drop off).take bytes.length = bytes
  le : off + bytes.length ≤ blob.length

theorem At.append (pre bytes : List UInt8) : At (pre ++ bytes) pre.length bytes := by
  refine ⟨?_, by rw [List.length_append]⟩
  rw [List.drop_left, List.take_length]

theorem At.mono {blob blob' bytes : List UInt8} {off : Nat} (h : At blob off bytes)
    (hstarts : blob <+: blob') : At blob' off bytes := by
  obtain ⟨rest, rfl⟩ := hstarts
  have hle := h.le
  refine ⟨?_, by rw [List.length_append]; omega⟩
  rw [List.drop_append_of_le_length (by omega),
    List.take_append_of_le_length (by rw [List.length_drop]; omega), h.eq]

theorem At.left {blob xs ys : List UInt8} {off : Nat} (h : At blob off (xs ++ ys)) :
    At blob off xs := by
  have hle := h.le
  rw [List.length_append] at hle
  refine ⟨?_, by omega⟩
  have hbytes := congrArg (List.take xs.length) h.eq
  rwa [List.take_take, List.length_append, Nat.min_eq_left (Nat.le_add_right _ _),
    List.take_left] at hbytes

theorem At.right {blob xs ys : List UInt8} {off : Nat} (h : At blob off (xs ++ ys)) :
    At blob (off + xs.length) ys := by
  have hle := h.le
  rw [List.length_append] at hle
  refine ⟨?_, by omega⟩
  have hbytes := congrArg (List.drop xs.length) h.eq
  rw [List.drop_left, List.drop_take, List.drop_drop, List.length_append,
    Nat.add_sub_cancel_left] at hbytes
  exact hbytes

/-- The total length is written over the first bytes at the end. -/
theorem At.patch {blob bytes total : List UInt8} {off : Nat} (h : At blob off bytes)
    (htotal : total.length ≤ off) (hlen : total.length ≤ blob.length) :
    At (total ++ blob.drop total.length) off bytes := by
  have hle := h.le
  refine ⟨?_, ?_⟩
  · rw [List.drop_append, List.drop_eq_nil_of_le htotal, List.nil_append, List.drop_drop,
      Nat.add_sub_cancel' htotal, h.eq]
  · rw [List.length_append, List.length_drop]
    omega

theorem length_u64Bytes (x : UInt64) : (u64Bytes x).length = 8 := length_toLe _ _

theorem length_u32Bytes (x : UInt32) : (u32Bytes x).length = 4 := length_toLe _ _

theorem length_lenBytes (bytes : List UInt8) : (lenBytes bytes).length = 8 + bytes.length := by
  rw [lenBytes, List.length_append, length_u64Bytes]

theorem length_pad_four (vec : List UInt8) : (pad vec 4).length = (vec.length + 3) / 4 * 4 := by
  unfold pad
  split
  · rw [List.length_append, List.length_replicate]
    omega
  · omega

theorem length_pad_eight (vec : List UInt8) : (pad vec 8).length = (vec.length + 7) / 8 * 8 := by
  unfold pad
  split
  · rw [List.length_append, List.length_replicate]
    omega
  · omega

theorem prefix_pad (vec : List UInt8) (align : Nat) : vec <+: pad vec align := by
  unfold pad
  split
  · exact List.prefix_append _ _
  · exact List.prefix_refl _

variable {checks : Bool} {base : Nat}

theorem alignOff_eq {align off k : Nat} (hk : align = 2 ^ k)
    (hbase : align ∣ base) (hfits : base + off + align < USIZE) :
    alignOff checks base align off = pure ((off + align - 1) / align * align) := by
  have hUSIZE : USIZE = 2 ^ 64 := rfl
  have halign : 0 < align := hk ▸ Nat.two_pow_pos k
  obtain ⟨c, rfl⟩ := hbase
  have hmask : (UInt64.ofNat (align * c + off + align - 1) &&&
      ~~~UInt64.ofNat (align - 1)).toNat = align * c + (off + align - 1) / align * align := by
    have hand := Word.toNat_and_not_low
      (UInt64.ofNat (align * c + off + align - 1)).toBitVec k
    rw [← hk] at hand
    refine hand.trans ?_
    have hnat : (UInt64.ofNat (align * c + off + align - 1)).toBitVec.toNat =
        align * c + (off + align - 1) := by
      show (UInt64.ofNat (align * c + off + align - 1)).toNat = _
      rw [UInt64.toNat_ofNat', Nat.mod_eq_of_lt (by omega)]
      omega
    rw [hnat, Nat.mul_add_div halign, Nat.mul_add, Nat.mul_comm align ((off + align - 1) / align)]
  unfold alignOff
  rw [usize_of_lt (by omega), ofRun_ok, pure_bind, usize_of_lt hfits, ofRun_ok, pure_bind,
    usizeSub_of_le (by omega), ofRun_ok, pure_bind]
  simp only [hmask]
  rw [usizeSub_of_le (Nat.le_add_right _ _), Nat.add_sub_cancel_left]
  rfl

theorem alignOff_pad_eight {vec : List UInt8} (hbase : 8 ∣ base)
    (hfits : base + vec.length + 8 < USIZE) :
    alignOff checks base 8 vec.length = pure (pad vec 8).length := by
  rw [length_pad_eight]
  exact alignOff_eq (k := 3) rfl hbase hfits

theorem alignOff_pad_four {vec : List UInt8} (hbase : 8 ∣ base)
    (hfits : base + vec.length + 4 < USIZE) :
    alignOff checks base 4 vec.length = pure (pad vec 4).length := by
  rw [length_pad_four]
  exact alignOff_eq (k := 2) rfl (Nat.dvd_trans (by decide) hbase) hfits

theorem bounded_eq {blob : List UInt8} {off need : Nat} (h : off + need ≤ blob.length)
    (hlen : blob.length < USIZE) (missing : String) :
    bounded checks blob off need missing = pure (off + need) := by
  unfold bounded
  rw [usize_of_lt (by omega), ofRun_ok, pure_bind]
  simp only
  rw [if_neg (by omega)]

theorem leNat_u64Bytes (x : UInt64) : leNat (u64Bytes x) = x.toNat :=
  leNat_toLe_of_lt x.toNat_lt

theorem leNat_u32Bytes (x : UInt32) : leNat (u32Bytes x) = x.toNat :=
  leNat_toLe_of_lt x.toNat_lt

theorem readCount_eq {blob : List UInt8} {off n : Nat} (hn : n < USIZE)
    (h : At blob off (u64Bytes (UInt64.ofNat n))) (hlen : blob.length < USIZE) (missing : String) :
    readCount checks blob off missing = pure (n, off + 8) := by
  have hle := h.le
  have height := length_u64Bytes (UInt64.ofNat n)
  rw [height] at hle
  have hbytes : slice blob off (off + 8) = .ok (u64Bytes (UInt64.ofNat n)) := by
    rw [slice_of_le (Nat.le_add_right _ _) hle, List.drop_take, Nat.add_sub_cancel_left, ← height,
      h.eq]
  have hnat : leNat (u64Bytes (UInt64.ofNat n)) = n := by
    rw [leNat_u64Bytes, UInt64.toNat_ofNat']
    exact Nat.mod_eq_of_lt hn
  unfold readCount
  rw [bounded_eq hle hlen, pure_bind, hbytes, ofRun_ok, pure_bind, hnat]

theorem readArray_eq {blob : List UInt8} {align off off' count size : Nat}
    (halign : alignOff checks base align off = pure off')
    (hle : off' + count * size ≤ blob.length) (hlen : blob.length < USIZE) (missing : String) :
    readArray checks blob base align off count size missing =
      pure (⟨off', count⟩, off' + count * size) := by
  unfold readArray
  rw [halign, pure_bind, usize_of_lt (by omega), ofRun_ok, pure_bind, bounded_eq hle hlen,
    pure_bind, sliceFrom_of_le (by omega), ofRun_ok, pure_bind]

theorem readBytes_eq {blob bytes : List UInt8} {off off' : Nat}
    (halign : alignOff checks base 8 off = pure off') (h : At blob off' (lenBytes bytes))
    (hlen : blob.length < USIZE) (missingLength missing : String) :
    readBytes checks blob base off missingLength missing =
      pure (⟨off' + 8, bytes.length⟩, off' + (lenBytes bytes).length) := by
  have hle := h.le
  have hall := length_lenBytes bytes
  unfold readBytes
  rw [halign, pure_bind, readCount_eq (by omega) h.left hlen, pure_bind]
  simp only
  rw [bounded_eq (by omega) hlen, pure_bind, slice_of_le (Nat.le_add_right _ _) (by omega),
    ofRun_ok, pure_bind, hall, Nat.add_assoc]

theorem At.section_bytes {blob bytes : List UInt8} {off : Nat} (h : At blob off bytes) :
    Section.bytes ⟨off, bytes.length⟩ blob = bytes := h.eq

/-- The element of an array of elements of one width. -/
theorem flatMap_element {α : Type} {f : α → List UInt8} {w : Nat} (hw : ∀ a, (f a).length = w)
    {l : List α} {i : Nat} (hi : i < l.length) :
    ((l.flatMap f).drop (w * i)).take w = f l[i] := by
  induction l generalizing i with
  | nil => exact absurd hi (Nat.not_lt_zero i)
  | cons a l ih =>
    rw [List.flatMap_cons]
    cases i with
    | zero => rw [Nat.mul_zero, List.drop_zero, List.take_left' (hw a), List.getElem_cons_zero]
    | succ i =>
      rw [List.length_cons] at hi
      have hpos : w * (i + 1) = (f a).length + w * i := by
        rw [hw, Nat.mul_add, Nat.mul_one, Nat.add_comm]
      rw [hpos, ← List.drop_drop, List.drop_left, ih (by omega), List.getElem_cons_succ]

theorem At.word {α : Type} {f : α → List UInt8} {w : Nat} (hw : ∀ a, (f a).length = w)
    {blob : List UInt8} {off : Nat} {l : List α} (h : At blob off (l.flatMap f)) {i : Nat}
    (hi : i < l.length) (count : Nat) : Section.word ⟨off, count⟩ blob w i = leNat (f l[i]) := by
  have hfit : w * i + w ≤ (l.flatMap f).length := by
    rw [Slots.length_flatMap hw, ← Nat.mul_succ, Nat.mul_comm]
    exact Nat.mul_le_mul_right w hi
  unfold Section.word
  rw [← flatMap_element hw hi]
  conv_rhs => rw [← h.eq]
  rw [List.drop_take, List.drop_drop, List.take_take, Nat.min_eq_left (by omega)]

theorem At.section_u64s {blob : List UInt8} {off : Nat} {l : List UInt64}
    (h : At blob off (l.flatMap u64Bytes)) : Section.u64s ⟨off, l.length⟩ blob = l := by
  refine List.ext_getElem (by simp [Section.u64s]) fun i hi hi' => ?_
  simp only [Section.u64s, List.getElem_map, List.getElem_range]
  rw [h.word length_u64Bytes hi', leNat_u64Bytes, UInt64.ofNat_toNat]

theorem At.section_u32s {blob : List UInt8} {off : Nat} {l : List UInt32}
    (h : At blob off (l.flatMap u32Bytes)) : Section.u32s ⟨off, l.length⟩ blob = l := by
  refine List.ext_getElem (by simp [Section.u32s]) fun i hi hi' => ?_
  simp only [Section.u32s, List.getElem_map, List.getElem_range]
  rw [h.word length_u32Bytes hi', leNat_u32Bytes, UInt32.ofNat_toNat]

/-- The arrays of a blob have one element for each symbol. -/
structure KallsymsBlob.Arrays (b : KallsymsBlob) : Prop where
  addresses : b.kallsymsAddresses.length = b.kallsymsNumSyms
  offsets : b.kallsymsOffsets.length = b.kallsymsNumSyms
  seqs : b.kallsymsSeqsOfNames.length = b.kallsymsNumSyms

/-- A blob that the loader has put at a page. -/
structure PageMapped (base : Nat) (blob : List UInt8) : Prop where
  aligned : 4096 ∣ base
  fits : base + blob.length < USIZE

namespace KallsymsBlob

def upToHeader (b : KallsymsBlob) : List UInt8 :=
  u64Bytes 0 ++ u64Bytes (UInt64.ofNat b.kallsymsNumSyms)

def upToAddresses (b : KallsymsBlob) : List UInt8 :=
  pad b.upToHeader 8 ++ b.kallsymsAddresses.flatMap u64Bytes

def upToOffsets (b : KallsymsBlob) : List UInt8 :=
  pad b.upToAddresses 4 ++ b.kallsymsOffsets.flatMap u32Bytes

def upToSeqs (b : KallsymsBlob) : List UInt8 :=
  pad b.upToOffsets 4 ++ b.kallsymsSeqsOfNames.flatMap u32Bytes

def upToNames (b : KallsymsBlob) : List UInt8 := pad b.upToSeqs 8 ++ lenBytes b.kallsymsNames

def upToTable (b : KallsymsBlob) : List UInt8 := pad b.upToNames 8 ++ lenBytes b.tokenTable

def upToCount (b : KallsymsBlob) : List UInt8 :=
  pad b.upToTable 8 ++ u64Bytes (UInt64.ofNat b.tokenIndex.length)

def unpatched (b : KallsymsBlob) : List UInt8 :=
  pad b.upToCount 4 ++ b.tokenIndex.flatMap u32Bytes

theorem toBlob_eq (b : KallsymsBlob) :
    b.toBlob = if b.unpatched.length ≤ ISIZE_MAX then
      .ok (u64Bytes (UInt64.ofNat b.unpatched.length) ++ b.unpatched.drop 8)
    else .error .capacity := rfl

/-- How far the blob has come after each section, the padding counted. -/
structure Lengths (b : KallsymsBlob) (n : Nat) : Prop where
  header : b.upToHeader.length = 16
  addresses : b.upToAddresses.length = (pad b.upToHeader 8).length + n * 8
  offsets : b.upToOffsets.length = (pad b.upToAddresses 4).length + n * 4
  seqs : b.upToSeqs.length = (pad b.upToOffsets 4).length + n * 4
  names : b.upToNames.length = (pad b.upToSeqs 8).length + (lenBytes b.kallsymsNames).length
  table : b.upToTable.length = (pad b.upToNames 8).length + (lenBytes b.tokenTable).length
  count : b.upToCount.length = (pad b.upToTable 8).length + 8
  index : b.unpatched.length = (pad b.upToCount 4).length + b.tokenIndex.length * 4

theorem Arrays.lengths {b : KallsymsBlob} (hb : b.Arrays) : b.Lengths b.kallsymsNumSyms where
  header := by rw [upToHeader, List.length_append, length_u64Bytes, length_u64Bytes]
  addresses := by
    rw [upToAddresses, List.length_append, Slots.length_flatMap length_u64Bytes, hb.addresses]
  offsets := by
    rw [upToOffsets, List.length_append, Slots.length_flatMap length_u32Bytes, hb.offsets]
  seqs := by rw [upToSeqs, List.length_append, Slots.length_flatMap length_u32Bytes, hb.seqs]
  names := by rw [upToNames, List.length_append]
  table := by rw [upToTable, List.length_append]
  count := by rw [upToCount, List.length_append, length_u64Bytes]
  index := by rw [unpatched, List.length_append, Slots.length_flatMap length_u32Bytes]

/-- The token count ends at a multiple of eight, and so below the end of the address space. -/
theorem Lengths.room_behind_count {b : KallsymsBlob} {n : Nat} (h : b.Lengths n) (hbase : 8 ∣ base)
    (hfits : base + b.upToCount.length < USIZE) : base + b.upToCount.length + 4 < USIZE := by
  have hUSIZE : USIZE = 2 ^ 64 := rfl
  have hpad := length_pad_eight b.upToTable
  have hcount := h.count
  omega

theorem prefix_pad_append (vec bytes : List UInt8) (align : Nat) : vec <+: pad vec align ++ bytes :=
  (prefix_pad vec align).trans (List.prefix_append _ _)

/-- Every section is in the finished blob where it was put. -/
structure Sections (b : KallsymsBlob) (blob : List UInt8) : Prop where
  length : blob.length = b.unpatched.length
  total : blob.take 8 = u64Bytes (UInt64.ofNat blob.length)
  numSyms : At blob 8 (u64Bytes (UInt64.ofNat b.kallsymsNumSyms))
  addresses : At blob (pad b.upToHeader 8).length (b.kallsymsAddresses.flatMap u64Bytes)
  offsets : At blob (pad b.upToAddresses 4).length (b.kallsymsOffsets.flatMap u32Bytes)
  seqs : At blob (pad b.upToOffsets 4).length (b.kallsymsSeqsOfNames.flatMap u32Bytes)
  names : At blob (pad b.upToSeqs 8).length (lenBytes b.kallsymsNames)
  table : At blob (pad b.upToNames 8).length (lenBytes b.tokenTable)
  count : At blob (pad b.upToTable 8).length (u64Bytes (UInt64.ofNat b.tokenIndex.length))
  index : At blob (pad b.upToCount 4).length (b.tokenIndex.flatMap u32Bytes)

theorem toBlob_sections {b : KallsymsBlob} {blob : List UInt8} (h : b.toBlob = .ok blob) :
    b.Sections blob := by
  rw [toBlob_eq] at h
  split at h
  case isFalse => cases h
  have hblob := (Except.ok.inj h).symm
  have htable : b.upToTable <+: b.unpatched :=
    (prefix_pad_append _ _ 8).trans (prefix_pad_append b.upToCount _ 4)
  have hnames : b.upToNames <+: b.unpatched := (prefix_pad_append _ _ 8).trans htable
  have hseqs : b.upToSeqs <+: b.unpatched := (prefix_pad_append _ _ 8).trans hnames
  have hoffsets : b.upToOffsets <+: b.unpatched := (prefix_pad_append _ _ 4).trans hseqs
  have haddresses : b.upToAddresses <+: b.unpatched := (prefix_pad_append _ _ 4).trans hoffsets
  have hheader : b.upToHeader <+: b.unpatched := (prefix_pad_append _ _ 8).trans haddresses
  have hheader16 : b.upToHeader.length = 16 := by
    rw [upToHeader, List.length_append, length_u64Bytes, length_u64Bytes]
  have h16 : 16 ≤ b.unpatched.length := hheader16 ▸ hheader.length_le
  have hlength : blob.length = b.unpatched.length := by
    rw [hblob, List.length_append, length_u64Bytes, List.length_drop]
    omega
  -- Writing the total length leaves what is behind it alone.
  have hat : ∀ pre bytes : List UInt8, pre ++ bytes <+: b.unpatched → 8 ≤ pre.length →
      At blob pre.length bytes := by
    intro pre bytes hstarts hge
    have hpatch := ((At.append pre bytes).mono hstarts).patch
      (show (u64Bytes (UInt64.ofNat b.unpatched.length)).length ≤ _ by rwa [length_u64Bytes])
      (by rw [length_u64Bytes]; omega)
    rwa [length_u64Bytes, ← hblob] at hpatch
  have hpad : ∀ {vec : List UInt8} {align : Nat}, b.upToHeader <+: vec →
      8 ≤ (pad vec align).length := by
    intro vec align hvec
    have hle := (hvec.trans (prefix_pad vec align)).length_le
    omega
  have hchain1 : b.upToHeader <+: b.upToAddresses := prefix_pad_append _ _ 8
  have hchain2 : b.upToHeader <+: b.upToOffsets := hchain1.trans (prefix_pad_append _ _ 4)
  have hchain3 : b.upToHeader <+: b.upToSeqs := hchain2.trans (prefix_pad_append _ _ 4)
  have hchain4 : b.upToHeader <+: b.upToNames := hchain3.trans (prefix_pad_append _ _ 8)
  have hchain5 : b.upToHeader <+: b.upToTable := hchain4.trans (prefix_pad_append _ _ 8)
  have hchain6 : b.upToHeader <+: b.upToCount := hchain5.trans (prefix_pad_append _ _ 8)
  exact {
    length := hlength
    total := by rw [hlength, hblob, List.take_left' (length_u64Bytes _)]
    numSyms := hat (u64Bytes 0) _ hheader (by rw [length_u64Bytes])
    addresses := hat _ _ haddresses (hpad (List.prefix_refl _))
    offsets := hat _ _ hoffsets (hpad hchain1)
    seqs := hat _ _ hseqs (hpad hchain2)
    names := hat _ _ hnames (hpad hchain3)
    table := hat _ _ htable (hpad hchain4)
    count := hat _ _ (prefix_pad_append b.upToCount _ 4) (hpad hchain5)
    index := hat _ _ (List.prefix_refl _) (hpad hchain6) }

/-- Where the parser finds the sections. -/
def expectedLayout (b : KallsymsBlob) : Layout where
  numSyms := b.kallsymsNumSyms
  addresses := ⟨(pad b.upToHeader 8).length, b.kallsymsNumSyms⟩
  offsets := ⟨(pad b.upToAddresses 4).length, b.kallsymsNumSyms⟩
  seqs := ⟨(pad b.upToOffsets 4).length, b.kallsymsNumSyms⟩
  names := ⟨(pad b.upToSeqs 8).length + 8, b.kallsymsNames.length⟩
  tokenTable := ⟨(pad b.upToNames 8).length + 8, b.tokenTable.length⟩
  tokenIndex := ⟨(pad b.upToCount 4).length, b.tokenIndex.length⟩

theorem layout_toBlob {b : KallsymsBlob} (hb : b.Arrays) {blob : List UInt8}
    (h : b.Sections blob) (hlt : blob.length < USIZE) (hpage : PageMapped base blob) :
    layout checks base blob = pure b.expectedLayout := by
  have hUSIZE : USIZE = 2 ^ 64 := rfl
  have hbase : 8 ∣ base := Nat.dvd_trans (by decide) hpage.aligned
  have hfits := hpage.fits
  have hlength := h.length
  obtain ⟨l0, l1, l2, l3, l4, l5, l6, l7⟩ := hb.lengths
  have hp0 := (prefix_pad b.upToHeader 8).length_le
  have hp1 := (prefix_pad b.upToAddresses 4).length_le
  have hp2 := (prefix_pad b.upToOffsets 4).length_le
  have hp3 := (prefix_pad b.upToSeqs 8).length_le
  have hp4 := (prefix_pad b.upToNames 8).length_le
  have hp5 := (prefix_pad b.upToTable 8).length_le
  have hp6 := (prefix_pad b.upToCount 4).length_le
  have hlen4 := length_lenBytes b.kallsymsNames
  have hlen5 := length_lenBytes b.tokenTable
  have a1 : alignOff checks base 8 16 = pure (pad b.upToHeader 8).length :=
    l0 ▸ alignOff_pad_eight hbase (by omega)
  have a2 : alignOff checks base 4 b.upToAddresses.length = pure (pad b.upToAddresses 4).length :=
    alignOff_pad_four hbase (by omega)
  have a3 : alignOff checks base 4 b.upToOffsets.length = pure (pad b.upToOffsets 4).length :=
    alignOff_pad_four hbase (by omega)
  have a4 : alignOff checks base 8 b.upToSeqs.length = pure (pad b.upToSeqs 8).length :=
    alignOff_pad_eight hbase (by omega)
  have a5 : alignOff checks base 8 b.upToNames.length = pure (pad b.upToNames 8).length :=
    alignOff_pad_eight hbase (by omega)
  have a6 : alignOff checks base 8 b.upToTable.length = pure (pad b.upToTable 8).length :=
    alignOff_pad_eight hbase (by omega)
  have a7 : alignOff checks base 4 b.upToCount.length = pure (pad b.upToCount 4).length :=
    alignOff_pad_four hbase (hb.lengths.room_behind_count hbase (by omega))
  have e0 : ∀ m, readCount checks blob 8 m = pure (b.kallsymsNumSyms, 16) :=
    readCount_eq (by omega) h.numSyms hlt
  have e1 : ∀ m, readArray checks blob base 8 16 b.kallsymsNumSyms 8 m = _ :=
    readArray_eq a1 (by omega) hlt
  have e2 : ∀ m, readArray checks blob base 4 b.upToAddresses.length b.kallsymsNumSyms 4 m = _ :=
    readArray_eq a2 (by omega) hlt
  have e3 : ∀ m, readArray checks blob base 4 b.upToOffsets.length b.kallsymsNumSyms 4 m = _ :=
    readArray_eq a3 (by omega) hlt
  have e4 := @readBytes_eq checks base blob _ _ _ a4 h.names hlt
  have e5 := @readBytes_eq checks base blob _ _ _ a5 h.table hlt
  have e7 : ∀ m, readCount checks blob (pad b.upToTable 8).length m =
      pure (b.tokenIndex.length, _) := readCount_eq (by omega) h.count hlt
  have e8 : ∀ m, readArray checks blob base 4 b.upToCount.length b.tokenIndex.length 4 m = _ :=
    readArray_eq a7 (by omega) hlt
  rw [← l1] at e1
  rw [← l2] at e2
  rw [← l3] at e3
  rw [← l4] at e4
  rw [← l5] at e5
  rw [← l6] at e7
  have hcheck : checkTotalBytes blob = .ok (UInt64.ofNat blob.length) := by
    unfold checkTotalBytes
    rw [if_neg (by omega), h.total, leNat_u64Bytes, UInt64.ofNat_toNat]
  unfold layout
  rw [hcheck]
  show (if UInt64.ofNat blob.length ≠ UInt64.ofNat blob.length then _ else _ : Parse Layout) = _
  rw [if_neg (not_not_intro rfl)]
  simp only [e0, e1, e2, e3, e4, e5, a6, e7, e8, pure_bind]
  rfl

end KallsymsBlob

/-- Parsing a blob on a page gives back what it was made of. -/
theorem fromBlob_toBlob {b : KallsymsBlob} (hb : b.Arrays) {blob : List UInt8}
    (h : b.toBlob = .ok blob) (hpage : PageMapped base blob) (stext etext : UInt64) :
    fromBlob checks base blob stext etext = pure (b.mapped stext etext) := by
  have hsections := toBlob_sections h
  have hlt : blob.length < USIZE := Nat.lt_of_le_of_lt (Nat.le_add_left _ _) hpage.fits
  have hnames := hsections.names.right.section_bytes
  have htable := hsections.table.right.section_bytes
  have haddresses := hsections.addresses.section_u64s
  have hoffsets := hsections.offsets.section_u32s
  have hseqs := hsections.seqs.section_u32s
  rw [length_u64Bytes] at hnames htable
  rw [hb.addresses] at haddresses
  rw [hb.offsets] at hoffsets
  rw [hb.seqs] at hseqs
  unfold fromBlob
  rw [layout_toBlob hb hsections hlt hpage, pure_bind]
  unfold Layout.view expectedLayout KallsymsBlob.mapped
  simp only [hnames, htable, haddresses, hoffsets, hseqs, hsections.index.section_u32s]

end ExtKtrace.Ksym
