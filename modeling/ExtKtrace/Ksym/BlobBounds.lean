import ExtKtrace.Ksym.Loaded

/-!
# What the reader of a blob does with any counts

The counts in a blob are numbers of 64 bits that nobody has checked. The offsets the reader
computes from them are compared with the ones it would have without a limit.
-/

namespace ExtKtrace.Ksym
set_option autoImplicit false
open Endian

/-- `off` rounded up, without a limit. -/
def alignUp (align off : Nat) : Nat := (off + align - 1) / align * align

def countAt (blob : List UInt8) (off : Nat) : Nat := leNat ((blob.drop off).take 8)

-- Every definition of the section takes what is asked of the rest of the blob, which counts only
-- when the part before it lies in the blob: the reader stops at the first part that does not.

section Exact
variable (base : Nat) (blob : List UInt8)

/-- A count at `off`: its end is a `usize`. -/
def CountFits (off : Nat) (rest : Nat → Nat → Prop) : Prop :=
  off + 8 < USIZE ∧ (off + 8 ≤ blob.length → rest (countAt blob off) (off + 8))

/-- The address that is rounded up is a `usize`. -/
def AlignFits (align off : Nat) (rest : Nat → Prop) : Prop :=
  base + off + align < USIZE ∧ rest (alignUp align off)

/-- `need` bytes at `off`: their end is a `usize`. -/
def BytesFit (off need : Nat) (rest : Nat → Prop) : Prop :=
  off + need < USIZE ∧ (off + need ≤ blob.length → rest (off + need))

def ArrayFits (align off count size : Nat) (rest : Nat → Prop) : Prop :=
  AlignFits base align off fun off => BytesFit blob off (count * size) rest

def CountedFits (off : Nat) (rest : Nat → Prop) : Prop :=
  AlignFits base 8 off fun off => CountFits blob off fun len off => BytesFit blob off len rest

/-- The sections of a blob end below `2 ^ 64`, as far as each lies behind others in the blob. -/
def SectionsFit : Prop :=
  8 ≤ blob.length → countAt blob 0 = blob.length →
    CountFits blob 8 fun numSyms off =>
    ArrayFits base blob 8 off numSyms 8 fun off =>
    ArrayFits base blob 4 off numSyms 4 fun off =>
    ArrayFits base blob 4 off numSyms 4 fun off =>
    CountedFits base blob off fun off =>
    CountedFits base blob off fun off =>
    AlignFits base 8 off fun off =>
    CountFits blob off fun tokenIndexLen off =>
    ArrayFits base blob 4 off tokenIndexLen 4 fun _ => True

end Exact

def Section.Within (s : Section) (size length : Nat) : Prop := s.off + s.count * size ≤ length

structure Layout.Within (l : Layout) (length : Nat) : Prop where
  addresses : l.addresses.Within 8 length
  offsets : l.offsets.Within 4 length
  seqs : l.seqs.Within 4 length
  names : l.names.Within 1 length
  tokenTable : l.tokenTable.Within 1 length
  tokenIndex : l.tokenIndex.Within 4 length
  numSyms : l.addresses.count = l.numSyms ∧ l.offsets.count = l.numSyms ∧
    l.seqs.count = l.numSyms

/-- A blob is read to an error or to sections that lie in it, and no computation overflows:
with checks nothing unwinds either. -/
structure SafelyRead (base : Nat) (blob : List UInt8) (stext etext : UInt64) : Prop where
  noPanic : ∀ p, (fromBlob false base blob stext etext).result ≠ .error p
  noOverflow : ∀ p, (fromBlob true base blob stext etext).result ≠ .error p
  within : ∀ m, fromBlob false base blob stext etext = pure m →
    ∃ l, layout false base blob = pure l ∧ m = l.view blob stext etext ∧ l.Within blob.length

/-- `part` gives `v` where `inside`, an error elsewhere, unless it overflows. -/
structure ReadsPart {α : Type} (part : Bool → Parse α) (fits inside : Prop) (v : α) : Prop where
  read : fits → inside → ∀ checks, part checks = pure v
  missing : fits → ¬ inside → ∃ e, ∀ checks, part checks = throw e
  overflow : ¬ fits → part true = Outcome.fault .overflow

/-- With or without checks the same result, which has `post`, unless something overflows. -/
structure Settled {α : Type} (parse : Bool → Parse α) (fits : Prop) (post : α → Prop) :
    Prop where
  same : fits → ∃ r : Except String α, (∀ checks, parse checks = Outcome.ofResult (.ok r)) ∧
    ∀ a, r = .ok a → post a
  overflow : ¬ fits → parse true = Outcome.fault .overflow

section Settled
variable {α β : Type}

theorem Settled.pure {post : α → Prop} {a : α} (h : post a) :
    Settled (fun _ => (Pure.pure a : Parse α)) True post where
  same := fun _ => ⟨.ok a, fun _ => rfl, fun _ hb => Except.ok.inj hb ▸ h⟩
  overflow := fun h => absurd trivial h

theorem Settled.throw {post : α → Prop} (e : String) :
    Settled (fun _ => (MonadExcept.throw e : Parse α)) True post where
  same := fun _ => ⟨.error e, fun _ => rfl, fun _ hb => nomatch hb⟩
  overflow := fun h => absurd trivial h

theorem Settled.congr {parse : Bool → Parse α} {fits fits' : Prop} {post : α → Prop}
    (h : Settled parse fits post) (hiff : fits' ↔ fits) : Settled parse fits' post where
  same := fun hf => h.same (hiff.mp hf)
  overflow := fun hf => h.overflow fun hf' => hf (hiff.mpr hf')

theorem ReadsPart.bind {part : Bool → Parse α} {fits inside : Prop} {v : α}
    (hpart : ReadsPart part fits inside v) {f : Bool → α → Parse β} {rest : Prop} {post : β → Prop}
    (hrest : inside → Settled (fun checks => f checks v) rest post) :
    Settled (fun checks => part checks >>= f checks) (fits ∧ (inside → rest)) post := by
  constructor
  · rintro ⟨hfits, hthen⟩
    by_cases hin : inside
    · obtain ⟨r, hr, hpost⟩ := (hrest hin).same (hthen hin)
      refine ⟨r, fun checks => ?_, hpost⟩
      show part checks >>= f checks = _
      rw [hpart.read hfits hin, pure_bind, hr]
    · obtain ⟨e, he⟩ := hpart.missing hfits hin
      refine ⟨.error e, fun checks => ?_, fun _ hb => nomatch hb⟩
      show part checks >>= f checks = _
      rw [he]
      rfl
  · intro hover
    by_cases hfits : fits
    · have hin : inside := by
        refine Classical.byContradiction fun hin => hover ⟨hfits, fun h => absurd h hin⟩
      have hrests : ¬ rest := fun hr => hover ⟨hfits, fun _ => hr⟩
      show part true >>= f true = _
      rw [hpart.read hfits hin, pure_bind, (hrest hin).overflow hrests]
    · show part true >>= f true = _
      rw [hpart.overflow hfits]
      rfl

/-- A part without errors of its own. -/
theorem ReadsPart.bind_always {part : Bool → Parse α} {fits : Prop} {v : α}
    (hpart : ReadsPart part fits True v) {f : Bool → α → Parse β} {rest : Prop} {post : β → Prop}
    (hrest : Settled (fun checks => f checks v) rest post) :
    Settled (fun checks => part checks >>= f checks) (fits ∧ rest) post :=
  (hpart.bind fun _ => hrest).congr (and_congr_right fun _ => (forall_const True).symm)

end Settled

section Parts
variable {base : Nat} {blob : List UInt8}

theorem usize_true {n : Nat} (h : ¬ n < USIZE) : usize true n = .error .overflow := by
  unfold usize
  rw [if_neg h]
  rfl

theorem reads_bounded (off need : Nat) (missing : String) :
    ReadsPart (fun checks => bounded checks blob off need missing) (off + need < USIZE)
      (off + need ≤ blob.length) (off + need) where
  read := by
    intro hfits hin checks
    unfold bounded
    rw [usize_of_lt hfits, ofRun_ok, pure_bind]
    exact if_neg (by omega)
  missing := by
    intro hfits hin
    refine ⟨missing, fun checks => ?_⟩
    unfold bounded
    rw [usize_of_lt hfits, ofRun_ok, pure_bind]
    exact if_pos (by omega)
  overflow := by
    intro hfits
    unfold bounded
    rw [usize_true hfits]
    rfl

theorem reads_alignOff {align k : Nat} (hk : align = 2 ^ k) (hbase : align ∣ base) (off : Nat) :
    ReadsPart (fun checks => alignOff checks base align off) (base + off + align < USIZE) True
      (alignUp align off) where
  read := fun hfits _ _ => alignOff_eq hk hbase hfits
  missing := fun _ hin => absurd trivial hin
  overflow := by
    intro hfits
    unfold alignOff
    by_cases haddr : base + off < USIZE
    · rw [usize_of_lt haddr, ofRun_ok, pure_bind, usize_true hfits]
      rfl
    · rw [usize_true haddr]
      rfl

theorem reads_size (count size : Nat) :
    ReadsPart (fun checks => ofRun (usize checks (count * size))) (count * size < USIZE) True
      (count * size) where
  read := by
    intro hfits _ checks
    rw [usize_of_lt hfits, ofRun_ok]
  missing := fun _ hin => absurd trivial hin
  overflow := by
    intro hfits
    rw [usize_true hfits]
    rfl

variable {γ : Type} {post : γ → Prop}

theorem settled_alignOff {align k : Nat} (hk : align = 2 ^ k) (hbase : align ∣ base) {off : Nat}
    {f : Bool → Nat → Parse γ} {rest : Nat → Prop}
    (hrest : Settled (fun checks => f checks (alignUp align off)) (rest (alignUp align off)) post) :
    Settled (fun checks => alignOff checks base align off >>= f checks)
      (AlignFits base align off rest) post :=
  (reads_alignOff hk hbase off).bind_always hrest

theorem settled_bounded {off need : Nat} {missing : String} {f : Bool → Nat → Parse γ}
    {rest : Nat → Prop} (hrest : off + need ≤ blob.length →
      Settled (fun checks => f checks (off + need)) (rest (off + need)) post) :
    Settled (fun checks => bounded checks blob off need missing >>= f checks)
      (BytesFit blob off need rest) post :=
  (reads_bounded off need missing).bind hrest

theorem settled_readCount {off : Nat} {missing : String} {f : Bool → Nat × Nat → Parse γ}
    {rest : Nat → Nat → Prop} (hrest : off + 8 ≤ blob.length →
      Settled (fun checks => f checks (countAt blob off, off + 8))
        (rest (countAt blob off) (off + 8)) post) :
    Settled (fun checks => readCount checks blob off missing >>= f checks)
      (CountFits blob off rest) post := by
  simp only [readCount, bind_assoc]
  refine settled_bounded fun hin => ?_
  have hslice : slice blob off (off + 8) = .ok ((blob.drop off).take 8) := by
    rw [slice_of_le (Nat.le_add_right _ _) hin, List.drop_take, Nat.add_sub_cancel_left]
  simp only [hslice, ofRun_ok, pure_bind]
  exact hrest hin

theorem settled_readArray {align k : Nat} (hk : align = 2 ^ k) (hbase : align ∣ base)
    {off count size : Nat} {missing : String} {f : Bool → Section × Nat → Parse γ}
    {rest : Nat → Prop}
    (hrest : Section.Within ⟨alignUp align off, count⟩ size blob.length →
      Settled
        (fun checks => f checks (⟨alignUp align off, count⟩, alignUp align off + count * size))
        (rest (alignUp align off + count * size)) post) :
    Settled (fun checks => readArray checks blob base align off count size missing >>= f checks)
      (ArrayFits base blob align off count size rest) post := by
  simp only [readArray, bind_assoc]
  refine settled_alignOff hk hbase ?_
  refine @Settled.congr _ _ (count * size < USIZE ∧
    BytesFit blob (alignUp align off) (count * size) rest) _ _ ?_ ?_
  · refine (reads_size count size).bind_always (settled_bounded fun hin => ?_)
    simp only [sliceFrom_of_le (Nat.le_trans (Nat.le_add_right _ _) hin), ofRun_ok, pure_bind]
    exact hrest hin
  · refine (and_iff_right_of_imp fun h => ?_).symm
    exact Nat.lt_of_le_of_lt (Nat.le_add_left _ _) h.1

theorem settled_readBytes (hbase : 8 ∣ base) {off : Nat} {missingLength missing : String}
    {f : Bool → Section × Nat → Parse γ} {rest : Nat → Prop}
    (hrest : ∀ start len, Section.Within ⟨start, len⟩ 1 blob.length →
      Settled (fun checks => f checks (⟨start, len⟩, start + len)) (rest (start + len)) post) :
    Settled (fun checks => readBytes checks blob base off missingLength missing >>= f checks)
      (CountedFits base blob off rest) post := by
  simp only [readBytes, bind_assoc]
  refine settled_alignOff (k := 3) rfl hbase (settled_readCount fun _ => ?_)
  refine settled_bounded fun hin => ?_
  simp only [slice_of_le (Nat.le_add_right _ _) hin, ofRun_ok, pure_bind]
  refine hrest _ _ ?_
  rw [Section.Within, Nat.mul_one]
  exact hin

end Parts

theorem leNat_lt (bytes : List UInt8) : leNat bytes < 256 ^ bytes.length := by
  induction bytes with
  | nil => exact Nat.one_pos
  | cons b bytes ih =>
    have hlt := b.toNat_lt
    rw [leNat, List.length_cons, Nat.pow_succ]
    omega

theorem countAt_lt (blob : List UInt8) (off : Nat) : countAt blob off < USIZE := by
  have hUSIZE : USIZE = 256 ^ 8 := rfl
  have hlen : ((blob.drop off).take 8).length ≤ 8 := by
    rw [List.length_take]
    exact Nat.min_le_left _ _
  rw [hUSIZE]
  exact Nat.lt_of_lt_of_le (leNat_lt _) (Nat.pow_le_pow_right (Nat.succ_pos 255) hlen)

theorem settled_layout {base : Nat} {blob : List UInt8} (hpage : PageMapped base blob) :
    Settled (fun checks => layout checks base blob) (SectionsFit base blob)
      fun l => l.Within blob.length := by
  have height : 8 ∣ base := Nat.dvd_trans (by decide) hpage.aligned
  have hfour : 4 ∣ base := Nat.dvd_trans (by decide) hpage.aligned
  have hlt : blob.length < USIZE := Nat.lt_of_le_of_lt (Nat.le_add_left _ _) hpage.fits
  have hnum : (UInt64.ofNat (countAt blob 0)).toNat = countAt blob 0 := by
    rw [UInt64.toNat_ofNat']
    exact Nat.mod_eq_of_lt (countAt_lt blob 0)
  unfold layout checkTotalBytes SectionsFit
  by_cases hshort : blob.length < 8
  · simp only [if_pos hshort]
    refine Settled.congr (Settled.throw _) ?_
    exact iff_true_intro fun h => absurd h (Nat.not_le.mpr hshort)
  have htake : (Outcome.ofResult (.ok (.ok (UInt64.ofNat (leNat (blob.take 8))))) : Parse UInt64) =
      pure (UInt64.ofNat (countAt blob 0)) := rfl
  simp only [if_neg hshort, htake, pure_bind]
  by_cases htotal : countAt blob 0 = blob.length
  case neg =>
    have hne : UInt64.ofNat (countAt blob 0) ≠ UInt64.ofNat blob.length := by
      intro heq
      have heq := congrArg UInt64.toNat heq
      rw [hnum, UInt64.toNat_ofNat', Nat.mod_eq_of_lt (show blob.length < 2 ^ 64 from hlt)] at heq
      exact htotal heq
    simp only [if_pos hne]
    refine Settled.congr (Settled.throw _) ?_
    exact iff_true_intro fun _ h => absurd h htotal
  case pos =>
    have hsame : ¬ UInt64.ofNat (countAt blob 0) ≠ UInt64.ofNat blob.length :=
      fun hne => hne (congrArg UInt64.ofNat htotal)
    simp only [if_neg hsame]
    refine Settled.congr ?_ (forall_prop_of_true (Nat.le_of_not_lt hshort))
    refine Settled.congr ?_ (forall_prop_of_true htotal)
    refine settled_readCount fun _ => ?_
    refine settled_readArray (k := 3) rfl height fun haddresses => ?_
    refine settled_readArray (k := 2) rfl hfour fun hoffsets => ?_
    refine settled_readArray (k := 2) rfl hfour fun hseqs => ?_
    refine settled_readBytes height fun start len hnames => ?_
    refine settled_readBytes height fun start len htable => ?_
    refine settled_alignOff (k := 3) rfl height ?_
    refine settled_readCount fun _ => ?_
    refine settled_readArray (k := 2) rfl hfour fun hindex => ?_
    exact Settled.pure ⟨haddresses, hoffsets, hseqs, hnames, htable, hindex, rfl, rfl, rfl⟩

/-- Exactly the blobs whose sections end below `2 ^ 64` are safe to read. -/
theorem fromBlob_safe_iff {base : Nat} {blob : List UInt8} (hpage : PageMapped base blob)
    (stext etext : UInt64) : SafelyRead base blob stext etext ↔ SectionsFit base blob := by
  have hlayout := settled_layout hpage
  constructor
  · intro hsafe
    refine Classical.byContradiction fun hfits => hsafe.noOverflow .overflow ?_
    unfold fromBlob
    rw [hlayout.overflow hfits]
    rfl
  · intro hfits
    obtain ⟨r, hr, hwithin⟩ := hlayout.same hfits
    have hread : ∀ checks, fromBlob checks base blob stext etext =
        Outcome.ofResult (.ok (r.map fun l => l.view blob stext etext)) := by
      intro checks
      unfold fromBlob
      rw [hr]
      cases r <;> rfl
    refine ⟨fun p h => ?_, fun p h => ?_, fun m h => ?_⟩
    · rw [hread] at h
      cases h
    · rw [hread] at h
      cases h
    · rw [hread] at h
      cases r with
      | error e => cases h
      | ok l => exact ⟨l, hr false, (Except.ok.inj (Except.ok.inj h)).symm, hwithin l rfl⟩

/-- The bytes of a generated table. -/
def twoBytes : List UInt8 :=
  okOr (okOr (KallsymsBlob.new.compressSymbols true countOrder twoSymbols) .new).toBlob []

theorem sectionsFit_twoBytes : SectionsFit 4096 twoBytes := fun _ _ =>
  ⟨by decide +kernel, fun _ => ⟨by decide +kernel, by decide +kernel, fun _ =>
    ⟨by decide +kernel, by decide +kernel, fun _ => ⟨by decide +kernel, by decide +kernel, fun _ =>
      ⟨by decide +kernel, by decide +kernel, fun _ => ⟨by decide +kernel, fun _ =>
        ⟨by decide +kernel, by decide +kernel, fun _ => ⟨by decide +kernel, fun _ =>
          ⟨by decide +kernel, by decide +kernel, fun _ =>
            ⟨by decide +kernel, by decide +kernel, fun _ => trivial⟩⟩⟩⟩⟩⟩⟩⟩⟩⟩

theorem safe_twoBytes : PageMapped 4096 twoBytes ∧ SafelyRead 4096 twoBytes 0x1000 0x1600 := by
  have hpage : PageMapped 4096 twoBytes := ⟨by decide, by decide +kernel⟩
  exact ⟨hpage, (fromBlob_safe_iff hpage 0x1000 0x1600).mpr sectionsFit_twoBytes⟩

/-- A table without symbols. -/
def emptyTable : List UInt8 := 40 :: List.replicate 39 0

/-- The same bytes with `2 ^ 62` for the number of symbols. -/
def wrappedTable : List UInt8 := emptyTable.set 15 0x40

/-- The reader returns, and its addresses start where they should and have `count` elements. -/
def addressesAre (r : Parse Layout) (count : Nat) : Bool :=
  match r.result with
  | .ok (.ok l) => l.addresses.off == 16 && l.addresses.count == count
  | _ => false

theorem exists_of_addressesAre {r : Parse Layout} {count : Nat} (h : addressesAre r count = true) :
    ∃ l, r = pure l ∧ l.addresses.off = 16 ∧ l.addresses.count = count := by
  unfold addressesAre at h
  split at h
  · rename_i l hl
    rw [Bool.and_eq_true, beq_iff_eq, beq_iff_eq] at h
    exact ⟨l, hl, h⟩
  · cases h

/-- The sizes of all three arrays wrap to zero. -/
theorem wrappedTable_unsafe :
    PageMapped 4096 wrappedTable ∧ ¬ SafelyRead 4096 wrappedTable 0 0 ∧
      ∃ l, layout false 4096 wrappedTable = pure l ∧ l.addresses.off = 16 ∧
        l.addresses.count = 2 ^ 62 ∧ ¬ l.addresses.Within 8 wrappedTable.length := by
  have hread : addressesAre (layout false 4096 wrappedTable) (2 ^ 62) = true := by decide +kernel
  obtain ⟨l, hl, hoff, hcount⟩ := exists_of_addressesAre hread
  have houtside : ¬ l.addresses.Within 8 wrappedTable.length := by
    have hlen : wrappedTable.length = 40 := by decide
    rw [Section.Within, hcount, hlen]
    omega
  refine ⟨⟨by decide, by decide⟩, fun h => houtside ?_, l, hl, hoff, hcount, houtside⟩
  have hread : fromBlob false 4096 wrappedTable 0 0 = pure (l.view wrappedTable 0 0) := by
    unfold fromBlob
    rw [hl]
    rfl
  obtain ⟨l', hl', _, hwithin⟩ := h.within _ hread
  have hsame : l = l' := Except.ok.inj (Except.ok.inj (hl.symm.trans hl'))
  exact hsame ▸ hwithin.addresses

end ExtKtrace.Ksym
