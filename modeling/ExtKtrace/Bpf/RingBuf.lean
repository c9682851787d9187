import ExtKtrace.Bpf.Map
import ExtKtrace.Lib.Circular
import ExtKtrace.Lib.Endian

/-!
# The BPF ring buffer

One mapping holds the struct, the two position pages and the data pages twice in a row, so
the byte at offset `i` of the data area is the physical byte `i` modulo the data size.
-/

namespace ExtKtrace.Bpf
set_option autoImplicit false

def RINGBUF_CREATE_FLAG_MASK : UInt32 := 4
def RINGBUF_NR_META_PAGES : Nat := 3
def RINGBUF_MAX_RECORD_SZ : UInt32 := 0xFFFFFFFF / 4
def PAGE_SHIFT : UInt64 := 12
def BPF_RINGBUF_BUSY_BIT : UInt32 := (1 : UInt32) <<< 31
def BPF_RINGBUF_DISCARD_BIT : UInt32 := (1 : UInt32) <<< 30
def BPF_RINGBUF_HDR_SZ : UInt64 := 8

/-- The offset of the field `data_pos` behind the struct page and the two position pages. -/
def DATA_POS_OFFSET : UInt64 := 0x3000

structure BpfRingbufFlags where
  bits : UInt64
  known : bits &&& ~~~3 = 0

namespace BpfRingbufFlags

def NO_WAKEUP : UInt64 := 1
def FORCE_WAKEUP : UInt64 := 2

def contains (flags : BpfRingbufFlags) (flag : UInt64) : Bool := flags.bits &&& flag == flag

def empty : BpfRingbufFlags := ⟨0, by decide⟩

end BpfRingbufFlags

/-- The kernel services behind a ring, with what they promise: `alloc_page` answers the calls
in turn, `vmap` maps the pages in order to consecutive page-aligned addresses. -/
structure KernelAuxiliaryOps where
  allocPage : Nat → Except BpfError UInt64
  vmap : List UInt64 → Except BpfError UInt64
  vmap_aligned : ∀ pages base, vmap pages = .ok base → base.toNat % 4096 = 0
  vmap_fits : ∀ pages base, vmap pages = .ok base → base.toNat + 4096 * pages.length ≤ 2 ^ 64

def isPageAligned (size : UInt32) : Bool := size &&& (4096 - 1) == 0

/-- `u32::is_power_of_two`. -/
def isPowerOfTwo (size : UInt32) : Bool := decide (∃ k < 32, size.toNat = 2 ^ k)

/-- The pages `0, …, n - 1` of a new ring. -/
def KernelAuxiliaryOps.allocPages (F : KernelAuxiliaryOps) :
    (n : Nat) → Except BpfError { pages : List UInt64 // pages.length = n }
  | 0 => .ok ⟨[], rfl⟩
  | n + 1 =>
    match F.allocPages n with
    | .error e => .error e
    | .ok pages =>
      match F.allocPage n with
      | .error e => .error e
      | .ok page => .ok ⟨pages.1 ++ [page], by simp [pages.2]⟩

/-- Where a ring lies and how large its data area is; only `new` makes one. -/
structure Mapping where
  base : UInt64
  mask : UInt64
  mask_eq : ∃ k, 12 ≤ k ∧ k < 32 ∧ mask.toNat + 1 = 2 ^ k
  base_aligned : base.toNat % 4096 = 0
  mapped : base.toNat + 0x3000 + 2 * (mask.toNat + 1) ≤ 2 ^ 64

structure RingBuf extends Mapping where
  nrPages : UInt32
  pages : List UInt64
  phyAddrs : List UInt64
  consumerPos : UInt64
  producerPos : UInt64
  /-- The data bytes, by physical offset. -/
  data : Nat → UInt8
  /-- How often the waker was called. -/
  wakeUps : Nat

/-- A `&mut [u8]`. -/
structure Slice where
  ptr : UInt64
  len : UInt64
  deriving DecidableEq

/-- `slice[start..end]`, which panics outside the slice. -/
def Slice.range (s : Slice) (start stop : UInt64) : Option Slice :=
  if start ≤ stop ∧ stop ≤ s.len then some ⟨s.ptr + start, stop - start⟩ else none

structure BpfRingBufHdr where
  len : UInt32
  pgOff : UInt32

namespace Mapping

def dataPos (m : Mapping) : UInt64 := m.base + DATA_POS_OFFSET

def totalDataSize (m : Mapping) : UInt64 := m.mask + 1

/-- The data size as a number. -/
def size (m : Mapping) : Nat := m.mask.toNat + 1

/-- The data area, both copies of it. -/
def dataBuf (m : Mapping) : Slice := ⟨m.dataPos, m.totalDataSize * 2⟩

/-- The offset of an address in the data area. -/
def offset (m : Mapping) (ptr : UInt64) : Nat := (ptr - m.dataPos).toNat

def bpfRingbufRecPgOff (m : Mapping) (hdrPtr : UInt64) : UInt32 :=
  ((hdrPtr - m.base) >>> PAGE_SHIFT).toUInt32

end Mapping

namespace RingBuf

def load (rb : RingBuf) (ptr : UInt64) (n : Nat) : Bytes :=
  Circular.read rb.size rb.data (rb.offset ptr) n

def store (ptr : UInt64) (bytes : Bytes) (rb : RingBuf) : RingBuf :=
  { rb with data := Circular.write rb.size rb.data (rb.offset ptr) bytes }

def loadU32 (rb : RingBuf) (ptr : UInt64) : UInt32 := .ofNat (Endian.leNat (rb.load ptr 4))

def storeU32 (ptr : UInt64) (v : UInt32) (rb : RingBuf) : RingBuf :=
  rb.store ptr (Endian.toLe 4 v.toNat)

/-- The two words of a header; `none` outside the data area. -/
def loadHdr (rb : RingBuf) (ptr : UInt64) : Option BpfRingBufHdr :=
  if rb.offset ptr + 8 ≤ 2 * rb.size then some ⟨rb.loadU32 ptr, rb.loadU32 (ptr + 4)⟩ else none

def setProducerPos (pos : UInt64) (rb : RingBuf) : RingBuf := { rb with producerPos := pos }

def setConsumerPos (pos : UInt64) (rb : RingBuf) : RingBuf := { rb with consumerPos := pos }

def wakeUp (rb : RingBuf) : RingBuf := { rb with wakeUps := rb.wakeUps + 1 }

/-- `bpf_ringbuf_restore_from_rec`: the address of the ring a header belongs to. -/
def bpfRingbufRestoreFromRec (hdrPtr : UInt64) (hdr : BpfRingBufHdr) : UInt64 :=
  (hdrPtr &&& ~~~(4096 - 1)) - (hdr.pgOff.toUInt64 <<< PAGE_SHIFT)

private theorem two_pow_of_checks {n : UInt32} (hpow : isPowerOfTwo n) (hpage : isPageAligned n) :
    ∃ k, 12 ≤ k ∧ k < 32 ∧ n.toNat = 2 ^ k := by
  obtain ⟨k, hk, hn⟩ := of_decide_eq_true hpow
  refine ⟨k, ?_, hk, hn⟩
  have hmod : n.toNat % 2 ^ 12 = 0 := by
    have hand := congrArg UInt32.toNat (eq_of_beq hpage)
    rw [UInt32.toNat_and] at hand
    rw [← Nat.and_two_pow_sub_one_eq_mod]
    exact hand
  by_contra hlt
  have hle : 2 ^ k < 2 ^ 12 := Nat.pow_lt_pow_right (by omega) (by omega)
  have hpos : 0 < 2 ^ k := Nat.two_pow_pos k
  rw [hn, Nat.mod_eq_of_lt hle] at hmod
  omega

private theorem toNat_pred_add_one {n : UInt32}
    (hn : ∃ k, 12 ≤ k ∧ k < 32 ∧ n.toNat = 2 ^ k) : (n - 1).toUInt64.toNat + 1 = n.toNat := by
  obtain ⟨k, -, -, hk⟩ := hn
  have hpos : 0 < 2 ^ k := Nat.two_pow_pos k
  have hone : (1 : UInt32) ≤ n := by
    rw [UInt32.le_iff_toNat_le, hk]
    exact hpos
  rw [UInt32.toNat_toUInt64, UInt32.toNat_sub_of_le _ _ hone]
  have h1 : (1 : UInt32).toNat = 1 := rfl
  omega

private theorem page_count {n : Nat} (hn : ∃ k, 12 ≤ k ∧ k < 32 ∧ n = 2 ^ k) :
    4096 * (n >>> 12) = n := by
  obtain ⟨k, hk, -, rfl⟩ := hn
  rw [Nat.shiftRight_eq_div_pow]
  exact Nat.mul_div_cancel' (Nat.pow_dvd_pow 2 hk)

/-- Create a ring. The positions are zero, the data bytes are what the pages held. -/
def new (F : KernelAuxiliaryOps) (bytes : Nat → UInt8) (mapMeta : BpfMapMeta) :
    Except BpfError RingBuf :=
  if mapMeta.mapFlags &&& ~~~RINGBUF_CREATE_FLAG_MASK ≠ 0 then .error .EINVAL
  else if hmeta : mapMeta.keySize ≠ 0 ∨ mapMeta.valueSize ≠ 0 ∨
      ¬ isPowerOfTwo mapMeta.maxEntries ∨ ¬ isPageAligned mapMeta.maxEntries then .error .EINVAL
  else
    let nrDataPages := mapMeta.maxEntries.toNat >>> 12
    match F.allocPages (RINGBUF_NR_META_PAGES + nrDataPages) with
    | .error e => .error e
    | .ok pages =>
      -- the data pages get a second entry behind the first
      let phyAddrs := pages.1 ++ pages.1.drop RINGBUF_NR_META_PAGES
      match hvmap : F.vmap phyAddrs with
      | .error e => .error e
      | .ok vaddr =>
        have hsize : ∃ k, 12 ≤ k ∧ k < 32 ∧ mapMeta.maxEntries.toNat = 2 ^ k := by
          simp only [not_or, not_not] at hmeta
          exact two_pow_of_checks hmeta.2.2.1 hmeta.2.2.2
        .ok {
          base := vaddr
          mask := (mapMeta.maxEntries - 1).toUInt64
          mask_eq := by
            rw [toNat_pred_add_one hsize]
            exact hsize
          base_aligned := F.vmap_aligned _ _ hvmap
          mapped := by
            have hfits := F.vmap_fits _ _ hvmap
            have hpages := page_count hsize
            have hlen := pages.2
            rw [toNat_pred_add_one hsize]
            simp only [phyAddrs, List.length_append, List.length_drop, hlen] at hfits
            simp only [RINGBUF_NR_META_PAGES, nrDataPages] at hfits
            omega
          nrPages := .ofNat (RINGBUF_NR_META_PAGES + nrDataPages)
          pages := pages.1
          phyAddrs := phyAddrs
          consumerPos := 0
          producerPos := 0
          data := bytes
          wakeUps := 0 }

/-- The bytes a record takes: header and payload, rounded up to a multiple of eight. -/
def alignedSize (size : UInt64) : UInt64 :=
  let totalSize := size + BPF_RINGBUF_HDR_SZ
  if totalSize &&& 7 ≠ 0 then (totalSize + 8) &&& ~~~7 else totalSize

def reserve (size : UInt64) : Call BpfError RingBuf Slice := do
  if size > RINGBUF_MAX_RECORD_SZ.toUInt64 then throw .EINVAL
  let rb ← Call.self
  if alignedSize size > rb.totalDataSize then throw .EINVAL
  let consPos := rb.consumerPos
  let prodPos := rb.producerPos
  let newProdPos := prodPos + alignedSize size
  if newProdPos - consPos > rb.mask then throw .ENOMEM
  let prodIdx := prodPos &&& rb.mask
  let hdrBuf ← Call.orPanic (rb.dataBuf.range prodIdx (prodIdx + BPF_RINGBUF_HDR_SZ))
  Call.update (storeU32 hdrBuf.ptr (size.toUInt32 ||| BPF_RINGBUF_BUSY_BIT))
  Call.update (storeU32 (hdrBuf.ptr + 4) (rb.bpfRingbufRecPgOff hdrBuf.ptr))
  Call.update (setProducerPos newProdPos)
  let payloadStart := prodIdx + BPF_RINGBUF_HDR_SZ
  Call.orPanic (rb.dataBuf.range payloadStart (payloadStart + size))

/-- Finish a record. It finds its ring through the header in front of the sample: a header
outside the data area, or one that leads to another address, ends the run. -/
def commit (sample : Slice) (flags : BpfRingbufFlags) (discard : Bool) :
    Call BpfError RingBuf Unit := do
  let hdrPtr := sample.ptr - BPF_RINGBUF_HDR_SZ
  let hdr ← Call.orPanic ((← Call.self).loadHdr hdrPtr)
  if bpfRingbufRestoreFromRec hdrPtr hdr ≠ (← Call.self).base then Call.stuck
  let newLen := hdr.len &&& ~~~BPF_RINGBUF_BUSY_BIT
  let newLen := if discard then newLen ||| BPF_RINGBUF_DISCARD_BIT else newLen
  Call.update (storeU32 hdrPtr newLen)
  let ringbuf ← Call.self
  let recPos := hdrPtr - ringbuf.dataPos
  let consPos := ringbuf.consumerPos &&& ringbuf.mask
  if flags.contains BpfRingbufFlags.FORCE_WAKEUP then
    Call.update wakeUp
    return ()
  if consPos == recPos && !flags.contains BpfRingbufFlags.NO_WAKEUP then
    Call.update wakeUp
    return ()

end RingBuf

namespace Mapping

/-- The address of the byte at a position that only grows. -/
def addrOf (m : Mapping) (p : Nat) : UInt64 := m.dataPos + .ofNat (p % m.size)

/-- The page offset that the header at a position carries. -/
def pgOffAt (m : Mapping) (p : Nat) : UInt32 := .ofNat ((0x3000 + p % m.size) / 4096)

theorem size_pos (m : Mapping) : 0 < m.size := Nat.succ_pos _

theorem size_eq (m : Mapping) : ∃ k, 12 ≤ k ∧ k < 32 ∧ m.size = 2 ^ k := m.mask_eq

theorem size_le (m : Mapping) : m.size ≤ 2 ^ 31 := by
  obtain ⟨k, -, hk, hsize⟩ := m.size_eq
  rw [hsize]
  exact Nat.pow_le_pow_right (by omega) (by omega)

theorem le_size (m : Mapping) : 4096 ≤ m.size := by
  obtain ⟨k, hk, -, hsize⟩ := m.size_eq
  have hpow : 2 ^ 12 ≤ 2 ^ k := Nat.pow_le_pow_right (by omega) hk
  omega

theorem eight_dvd_size (m : Mapping) : 8 ∣ m.size := by
  obtain ⟨k, hk, -, hsize⟩ := m.size_eq
  rw [hsize]
  exact Nat.pow_dvd_pow 2 (show 3 ≤ k by omega)

theorem size_dvd (m : Mapping) : m.size ∣ 2 ^ 64 := by
  obtain ⟨k, -, hk, hsize⟩ := m.size_eq
  rw [hsize]
  exact Nat.pow_dvd_pow 2 (show k ≤ 64 by omega)

theorem fits (m : Mapping) : m.base.toNat + 0x3000 + 2 * m.size ≤ 2 ^ 64 := m.mapped

theorem toNat_totalDataSize (m : Mapping) : m.totalDataSize.toNat = m.size := by
  have hle := m.size_le
  unfold totalDataSize size at *
  rw [UInt64.toNat_add]
  have h1 : (1 : UInt64).toNat = 1 := rfl
  omega

theorem toNat_dataPos (m : Mapping) : m.dataPos.toNat = m.base.toNat + 0x3000 := by
  have hfits := m.fits
  have hpos := m.size_pos
  have h : DATA_POS_OFFSET.toNat = 0x3000 := rfl
  unfold dataPos
  rw [UInt64.toNat_add]
  omega

/-- Addresses up to the end of the second copy do not wrap. -/
theorem toNat_dataPos_add (m : Mapping) {x : UInt64} (hx : x.toNat < 2 * m.size) :
    (m.dataPos + x).toNat = m.base.toNat + 0x3000 + x.toNat := by
  have hfits := m.fits
  rw [UInt64.toNat_add, toNat_dataPos]
  omega

theorem toNat_and_mask (m : Mapping) (p : Nat) :
    (UInt64.ofNat p &&& m.mask).toNat = p % m.size := by
  have hdvd := m.size_dvd
  obtain ⟨k, -, -, hk⟩ := m.size_eq
  have hmask : m.mask.toNat = 2 ^ k - 1 := by
    unfold size at hk
    omega
  rw [Word.uint64_and_low _ hmask, ← hk, UInt64.toNat_ofNat']
  exact Nat.mod_mod_of_dvd p hdvd

theorem and_mask_eq (m : Mapping) (p : Nat) :
    UInt64.ofNat p &&& m.mask = .ofNat (p % m.size) := by
  have hlt : p % m.size < m.size := Nat.mod_lt p m.size_pos
  have hle := m.size_le
  rw [← UInt64.toNat_inj, toNat_and_mask, UInt64.toNat_ofNat']
  omega

theorem toNat_addrOf_add (m : Mapping) (p : Nat) {j : Nat} (hj : j ≤ m.size) :
    (m.addrOf p + .ofNat j).toNat = m.base.toNat + 0x3000 + p % m.size + j := by
  have hlt : p % m.size < m.size := Nat.mod_lt p m.size_pos
  have hle := m.size_le
  have hx : (UInt64.ofNat (p % m.size + j)).toNat = p % m.size + j := by
    rw [UInt64.toNat_ofNat']
    omega
  have hsum : m.addrOf p + .ofNat j = m.dataPos + .ofNat (p % m.size + j) := by
    unfold addrOf
    rw [UInt64.ofNat_add, UInt64.add_assoc]
  rw [hsum, toNat_dataPos_add m (by omega), hx]
  omega

theorem offset_addrOf_add (m : Mapping) (p : Nat) {j : Nat} (hj : j ≤ m.size) :
    m.offset (m.addrOf p + .ofNat j) = p % m.size + j := by
  have haddr := m.toNat_addrOf_add p hj
  have hdata := m.toNat_dataPos
  unfold offset
  rw [UInt64.toNat_sub_of_le, haddr, hdata]
  · omega
  · rw [UInt64.le_iff_toNat_le]
    omega

theorem toNat_addrOf (m : Mapping) (p : Nat) :
    (m.addrOf p).toNat = m.base.toNat + 0x3000 + p % m.size := by
  simpa using m.toNat_addrOf_add p (Nat.zero_le _)

theorem offset_addrOf (m : Mapping) (p : Nat) : m.offset (m.addrOf p) = p % m.size := by
  simpa using m.offset_addrOf_add p (Nat.zero_le _)

theorem recPgOff_addrOf (m : Mapping) (p : Nat) :
    m.bpfRingbufRecPgOff (m.addrOf p) = m.pgOffAt p := by
  have haddr := m.toNat_addrOf p
  have hsub : (m.addrOf p - m.base).toNat = 0x3000 + p % m.size := by
    rw [UInt64.toNat_sub_of_le]
    · omega
    · rw [UInt64.le_iff_toNat_le]
      omega
  unfold bpfRingbufRecPgOff pgOffAt
  rw [← UInt32.toNat_inj, UInt64.toNat_toUInt32, UInt64.toNat_shiftRight, hsub,
    UInt32.toNat_ofNat', Nat.shiftRight_eq_div_pow]
  rfl

theorem toNat_pgOffAt (m : Mapping) (p : Nat) :
    (m.pgOffAt p).toNat = (0x3000 + p % m.size) / 4096 := by
  have hlt : p % m.size < m.size := Nat.mod_lt p m.size_pos
  have hle := m.size_le
  unfold pgOffAt
  rw [UInt32.toNat_ofNat']
  omega

/-- From a header with its own page offset the way back leads to the ring. -/
theorem restoreFromRec_addrOf (m : Mapping) (p : Nat) (len : UInt32) :
    RingBuf.bpfRingbufRestoreFromRec (m.addrOf p) ⟨len, m.pgOffAt p⟩ = m.base := by
  have hlt : p % m.size < m.size := Nat.mod_lt p m.size_pos
  have hle := m.size_le
  have halign := m.base_aligned
  have hfits := m.fits
  have haddr := m.toNat_addrOf p
  have hpage : (m.addrOf p &&& ~~~(4096 - 1)).toNat = 4096 * ((m.addrOf p).toNat / 4096) :=
    Word.toNat_and_not_low (m.addrOf p).toBitVec 12
  have hoff : ((m.pgOffAt p).toUInt64 <<< PAGE_SHIFT).toNat =
      4096 * ((0x3000 + p % m.size) / 4096) := by
    rw [UInt64.toNat_shiftLeft, UInt32.toNat_toUInt64, toNat_pgOffAt]
    have hshift : PAGE_SHIFT.toNat % 64 = 12 := rfl
    rw [hshift, Nat.shiftLeft_eq]
    omega
  show (m.addrOf p &&& ~~~(4096 - 1)) - ((m.pgOffAt p).toUInt64 <<< PAGE_SHIFT) = m.base
  rw [← UInt64.toNat_inj, UInt64.toNat_sub_of_le]
  · omega
  · rw [UInt64.le_iff_toNat_le]
    omega

end Mapping

namespace RingBuf

/-- The bytes a record with `n` bytes of payload takes. -/
def extent (n : Nat) : Nat := 8 * ((n + 15) / 8)

def hdrBytes (hdr : BpfRingBufHdr) : Bytes :=
  Endian.toLe 4 hdr.len.toNat ++ Endian.toLe 4 hdr.pgOff.toNat

/-- The slice of the payload of a record at a position. -/
def sampleAt (m : Mapping) (p : Nat) (size : UInt64) : Slice := ⟨m.addrOf p + 8, size⟩

theorem sampleAt_ptr_ne_zero (m : Mapping) (p : Nat) (size : UInt64) :
    (sampleAt m p size).ptr ≠ 0 := by
  intro hzero
  have haddr := m.toNat_addrOf_add p (Nat.le_trans (by decide) m.le_size : 8 ≤ _)
  have hptr : (sampleAt m p size).ptr = m.addrOf p + .ofNat 8 := rfl
  rw [← hptr, hzero] at haddr
  exact absurd haddr (by simp)

/-- The ring after a record of `size` bytes has been reserved at position `p`. -/
def afterReserve (rb : RingBuf) (p : Nat) (size : UInt64) : RingBuf :=
  { rb with
    data := Circular.write rb.size rb.data p
      (hdrBytes ⟨size.toUInt32 ||| BPF_RINGBUF_BUSY_BIT, rb.pgOffAt p⟩)
    producerPos := .ofNat (p + extent size.toNat) }

@[simp] theorem length_hdrBytes (hdr : BpfRingBufHdr) : (hdrBytes hdr).length = 8 := by
  simp [hdrBytes]

theorem toNat_alignedSize {size : UInt64} (h : size.toNat ≤ RINGBUF_MAX_RECORD_SZ.toNat) :
    (alignedSize size).toNat = extent size.toNat := by
  have hmax : RINGBUF_MAX_RECORD_SZ.toNat = 0x3FFFFFFF := rfl
  have htotal : (size + BPF_RINGBUF_HDR_SZ).toNat = size.toNat + 8 := by
    have h8 : BPF_RINGBUF_HDR_SZ.toNat = 8 := rfl
    rw [UInt64.toNat_add]
    omega
  have hlow := Word.uint64_and_seven (size + BPF_RINGBUF_HDR_SZ)
  unfold alignedSize extent
  simp only
  split
  · rename_i hne
    have hmod : (size + BPF_RINGBUF_HDR_SZ).toNat % 8 ≠ 0 := by
      intro hzero
      exact hne (UInt64.toNat_inj.mp (hlow.trans hzero))
    have hup : (size + BPF_RINGBUF_HDR_SZ + 8).toNat = size.toNat + 16 := by
      have h8 : (8 : UInt64).toNat = 8 := rfl
      rw [UInt64.toNat_add]
      omega
    rw [Word.uint64_and_not_seven, hup]
    omega
  · rename_i hzero
    have hmod : (size + BPF_RINGBUF_HDR_SZ).toNat % 8 = 0 := by
      rw [← hlow, not_not.mp hzero]
      rfl
    omega

theorem store_addrOf_add (rb : RingBuf) (p : Nat) {j : Nat} (hj : j ≤ rb.size) (bytes : Bytes) :
    store (rb.addrOf p + .ofNat j) bytes rb =
      { rb with data := Circular.write rb.size rb.data (p + j) bytes } := by
  unfold store
  rw [rb.offset_addrOf_add p hj, Circular.write_of_mod_eq (p := p + j) (Nat.mod_add_mod p _ j)]

theorem store_addrOf (rb : RingBuf) (p : Nat) (bytes : Bytes) :
    store (rb.addrOf p) bytes rb =
      { rb with data := Circular.write rb.size rb.data p bytes } := by
  simpa using rb.store_addrOf_add p (Nat.zero_le _) bytes

theorem load_addrOf_add (rb : RingBuf) (p : Nat) {j : Nat} (hj : j ≤ rb.size) (n : Nat) :
    rb.load (rb.addrOf p + .ofNat j) n = Circular.read rb.size rb.data (p + j) n := by
  unfold load
  rw [rb.offset_addrOf_add p hj, Circular.read_of_mod_eq (p := p + j) (Nat.mod_add_mod p _ j)]

theorem dataBuf_range (m : Mapping) (p j : Nat) (size : UInt64)
    (h : p % m.size + j + size.toNat ≤ 2 * m.size) :
    m.dataBuf.range (.ofNat (p % m.size) + .ofNat j) (.ofNat (p % m.size) + .ofNat j + size) =
      some ⟨m.addrOf p + .ofNat j, size⟩ := by
  have hle := m.size_le
  have hstart : (UInt64.ofNat (p % m.size) + .ofNat j).toNat = p % m.size + j := by
    rw [← UInt64.ofNat_add, UInt64.toNat_ofNat']
    omega
  have hstop : (UInt64.ofNat (p % m.size) + .ofNat j + size).toNat =
      p % m.size + j + size.toNat := by
    rw [UInt64.toNat_add, hstart]
    omega
  have hlen : m.dataBuf.len.toNat = 2 * m.size := by
    show (m.totalDataSize * 2).toNat = _
    have h2 : (2 : UInt64).toNat = 2 := rfl
    rw [UInt64.toNat_mul, m.toNat_totalDataSize, h2]
    omega
  unfold Slice.range
  rw [if_pos]
  · have hptr : m.dataBuf.ptr + (UInt64.ofNat (p % m.size) + .ofNat j) = m.addrOf p + .ofNat j :=
      (UInt64.add_assoc _ _ _).symm
    have hcancel : ∀ x y : UInt64, x + y - x = y := by
      intro x y
      rw [UInt64.add_comm, UInt64.add_sub_cancel]
    rw [hptr, hcancel]
  · rw [UInt64.le_iff_toNat_le, UInt64.le_iff_toNat_le]
    omega

/-- The two words of a header stored one after the other. -/
theorem storeHdr_addrOf (rb : RingBuf) (p : Nat) (hdr : BpfRingBufHdr) :
    storeU32 (rb.addrOf p + 4) hdr.pgOff (storeU32 (rb.addrOf p) hdr.len rb) =
      { rb with data := Circular.write rb.size rb.data p (hdrBytes hdr) } := by
  have hle := rb.le_size
  have hfirst := rb.store_addrOf p (Endian.toLe 4 hdr.len.toNat)
  unfold storeU32
  rw [hfirst]
  have hsecond := store_addrOf_add
    { rb with data := Circular.write rb.size rb.data p (Endian.toLe 4 hdr.len.toNat) } p
    (j := 4) (Nat.le_trans (by omega) hle) (Endian.toLe 4 hdr.pgOff.toNat)
  refine hsecond.trans ?_
  unfold hdrBytes
  rw [Circular.write_append, Endian.length_toLe]

theorem eight_dvd_extent (n : Nat) : 8 ∣ extent n := Nat.dvd_mul_right 8 _

theorem le_extent (n : Nat) : n + 8 ≤ extent n := by
  unfold extent
  omega

/-- The outcome of `reserve` when `p` bytes were reserved before: three refusals that change
nothing, or a record at position `p`. It never panics. -/
theorem exec_reserve {rb : RingBuf} {p : Nat} (hp : rb.producerPos = .ofNat p)
    (size : UInt64) :
    (reserve size).exec rb = some (
      if RINGBUF_MAX_RECORD_SZ.toNat < size.toNat then (.error .EINVAL, rb)
      else if rb.size < extent size.toNat then (.error .EINVAL, rb)
      else if rb.size ≤ (UInt64.ofNat (p + extent size.toNat) - rb.consumerPos).toNat then
        (.error .ENOMEM, rb)
      else (.ok (sampleAt rb.toMapping p size), rb.afterReserve p size)) := by
  have hmax : RINGBUF_MAX_RECORD_SZ.toUInt64.toNat = RINGBUF_MAX_RECORD_SZ.toNat := rfl
  unfold reserve
  by_cases hbig : RINGBUF_MAX_RECORD_SZ.toNat < size.toNat
  · have hgt : size > RINGBUF_MAX_RECORD_SZ.toUInt64 := by
      rw [gt_iff_lt, UInt64.lt_iff_toNat_lt, hmax]
      exact hbig
    rw [if_pos hgt, if_pos hbig]
    rfl
  have hngt : ¬ size > RINGBUF_MAX_RECORD_SZ.toUInt64 := by
    rw [gt_iff_lt, UInt64.lt_iff_toNat_lt, hmax]
    exact hbig
  have haligned := toNat_alignedSize (Nat.le_of_not_lt hbig)
  rw [if_neg hngt, if_neg hbig, Call.exec_bind_ok (Call.exec_self rb)]
  by_cases hlarge : rb.size < extent size.toNat
  · have hgt : alignedSize size > rb.totalDataSize := by
      rw [gt_iff_lt, UInt64.lt_iff_toNat_lt, rb.toNat_totalDataSize, haligned]
      exact hlarge
    rw [if_pos hgt, if_pos hlarge]
    rfl
  have hngt : ¬ alignedSize size > rb.totalDataSize := by
    rw [gt_iff_lt, UInt64.lt_iff_toNat_lt, rb.toNat_totalDataSize, haligned]
    exact hlarge
  have hnew : rb.producerPos + alignedSize size = .ofNat (p + extent size.toNat) := by
    rw [hp, UInt64.ofNat_add, ← haligned, UInt64.ofNat_toNat]
  rw [if_neg hngt, if_neg hlarge]
  simp only [hnew]
  by_cases hfull : rb.size ≤ (UInt64.ofNat (p + extent size.toNat) - rb.consumerPos).toNat
  · have hgt : UInt64.ofNat (p + extent size.toNat) - rb.consumerPos > rb.mask := by
      rw [gt_iff_lt, UInt64.lt_iff_toNat_lt]
      exact hfull
    rw [if_pos hgt, if_pos hfull]
    rfl
  have hngt : ¬ UInt64.ofNat (p + extent size.toNat) - rb.consumerPos > rb.mask := by
    rw [gt_iff_lt, UInt64.lt_iff_toNat_lt]
    exact hfull
  rw [if_neg hngt, if_neg hfull]
  have hext := le_extent size.toNat
  have hidx : p % rb.size < rb.size := Nat.mod_lt p rb.size_pos
  have hhdr : rb.dataBuf.range (rb.producerPos &&& rb.mask)
      ((rb.producerPos &&& rb.mask) + BPF_RINGBUF_HDR_SZ) = some ⟨rb.addrOf p, BPF_RINGBUF_HDR_SZ⟩ := by
    have hle := rb.le_size
    have h8 : BPF_RINGBUF_HDR_SZ.toNat = 8 := rfl
    have hrange := dataBuf_range rb.toMapping p 0 BPF_RINGBUF_HDR_SZ (by omega)
    rw [hp, rb.and_mask_eq]
    simpa using hrange
  have hpayload : rb.dataBuf.range ((rb.producerPos &&& rb.mask) + BPF_RINGBUF_HDR_SZ)
      ((rb.producerPos &&& rb.mask) + BPF_RINGBUF_HDR_SZ + size) =
        some (sampleAt rb.toMapping p size) := by
    rw [hp, rb.and_mask_eq]
    exact dataBuf_range rb.toMapping p 8 size (by omega)
  simp only [Call.exec_bind, Call.exec_orPanic, Call.exec_update, hhdr, hpayload, Option.map_some,
    Option.bind_some]
  rw [rb.recPgOff_addrOf, storeHdr_addrOf rb p ⟨_, _⟩]
  rfl

/-- The window at a position holds a header. -/
def HasHdr (rb : RingBuf) (p : Nat) (hdr : BpfRingBufHdr) : Prop :=
  Circular.read rb.size rb.data p 8 = hdrBytes hdr

theorem hasHdr_write (rb : RingBuf) (p : Nat) (hdr : BpfRingBufHdr) :
    HasHdr { rb with data := Circular.write rb.size rb.data p (hdrBytes hdr) } p hdr := by
  have hle := rb.le_size
  have hread : Circular.read rb.size (Circular.write rb.size rb.data p (hdrBytes hdr)) p
      (hdrBytes hdr).length = hdrBytes hdr :=
    Circular.read_write (by rw [length_hdrBytes]; omega)
  rw [length_hdrBytes] at hread
  exact hread

theorem loadU32_addrOf_add (rb : RingBuf) (p : Nat) {j : Nat} (hj : j ≤ rb.size) {v : UInt32}
    (h : Circular.read rb.size rb.data (p + j) 4 = Endian.toLe 4 v.toNat) :
    rb.loadU32 (rb.addrOf p + .ofNat j) = v := by
  have hv : v.toNat < 256 ^ 4 := v.toNat_lt
  unfold loadU32
  rw [rb.load_addrOf_add p hj, h, Endian.leNat_toLe_of_lt hv, UInt32.ofNat_toNat]

theorem HasHdr.loadHdr {rb : RingBuf} {p : Nat} {hdr : BpfRingBufHdr} (h : HasHdr rb p hdr) :
    rb.loadHdr (rb.addrOf p) = some hdr := by
  have hle := rb.le_size
  have hidx : p % rb.size < rb.size := Nat.mod_lt p rb.size_pos
  have hsplit : Circular.read rb.size rb.data p 4 = Endian.toLe 4 hdr.len.toNat ∧
      Circular.read rb.size rb.data (p + 4) 4 = Endian.toLe 4 hdr.pgOff.toNat := by
    unfold HasHdr hdrBytes at h
    rw [Circular.read_append rb.data p 4 4] at h
    exact List.append_inj h (by simp)
  have hlen : rb.loadU32 (rb.addrOf p) = hdr.len := by
    simpa using rb.loadU32_addrOf_add p (j := 0) (Nat.zero_le _) hsplit.1
  have hpg : rb.loadU32 (rb.addrOf p + 4) = hdr.pgOff :=
    rb.loadU32_addrOf_add p (j := 4) (by omega) hsplit.2
  unfold RingBuf.loadHdr
  rw [rb.offset_addrOf, if_pos (by omega), hlen, hpg]

theorem loadU32_of_loadHdr {rb : RingBuf} {ptr : UInt64} {hdr : BpfRingBufHdr}
    (h : rb.loadHdr ptr = some hdr) : rb.loadU32 ptr = hdr.len := by
  unfold RingBuf.loadHdr at h
  split at h
  · exact congrArg BpfRingBufHdr.len (Option.some.inj h)
  · cases h

/-- The length word of a record that is finished. -/
def finishedLen (len : UInt32) (discard : Bool) : UInt32 :=
  if discard then len &&& ~~~BPF_RINGBUF_BUSY_BIT ||| BPF_RINGBUF_DISCARD_BIT
  else len &&& ~~~BPF_RINGBUF_BUSY_BIT

/-- Whether finishing the record at a position calls the waker. -/
def wakes (rb : RingBuf) (p : Nat) (flags : BpfRingbufFlags) : Bool :=
  flags.contains BpfRingbufFlags.FORCE_WAKEUP ||
    (rb.consumerPos &&& rb.mask == .ofNat (p % rb.size) &&
      !flags.contains BpfRingbufFlags.NO_WAKEUP)

/-- The ring after the record at position `p` has been finished. -/
def afterCommit (rb : RingBuf) (p : Nat) (len : UInt32) (flags : BpfRingbufFlags)
    (discard : Bool) : RingBuf :=
  { rb with
    data := Circular.write rb.size rb.data p (Endian.toLe 4 (finishedLen len discard).toNat)
    wakeUps := rb.wakeUps + if rb.wakes p flags then 1 else 0 }

theorem addrOf_sub_dataPos (m : Mapping) (p : Nat) :
    m.addrOf p - m.dataPos = .ofNat (p % m.size) := by
  have hoff := m.offset_addrOf p
  rw [← UInt64.ofNat_toNat (x := m.addrOf p - m.dataPos)]
  exact congrArg UInt64.ofNat hoff

/-- A commit finds its ring again as long as the header in front of the sample is whole. -/
theorem exec_commit {rb : RingBuf} {p : Nat} {len : UInt32} (h : HasHdr rb p ⟨len, rb.pgOffAt p⟩)
    (size : UInt64) (flags : BpfRingbufFlags) (discard : Bool) :
    (commit (sampleAt rb.toMapping p size) flags discard).exec rb =
      some (.ok (), rb.afterCommit p len flags discard) := by
  have hptr : (sampleAt rb.toMapping p size).ptr - BPF_RINGBUF_HDR_SZ = rb.addrOf p := by
    show rb.addrOf p + 8 - 8 = rb.addrOf p
    rw [UInt64.add_sub_cancel]
  unfold commit
  simp only [hptr, Call.exec_bind, Call.exec_self, Call.exec_orPanic, h.loadHdr, Option.map_some,
    Option.bind_some, rb.restoreFromRec_addrOf, ne_eq, not_true_eq_false, if_false,
    Call.exec_update]
  have hstore : storeU32 (rb.addrOf p) (finishedLen len discard) rb = { rb with
      data := Circular.write rb.size rb.data p (Endian.toLe 4 (finishedLen len discard).toNat) } :=
    rb.store_addrOf p _
  change (if flags.contains BpfRingbufFlags.FORCE_WAKEUP then (do Call.update wakeUp; pure ())
    else if rb.consumerPos &&& rb.mask == rb.addrOf p - rb.dataPos &&
      !flags.contains BpfRingbufFlags.NO_WAKEUP then (do Call.update wakeUp; pure ())
    else pure () : Call BpfError RingBuf Unit).exec
      (storeU32 (rb.addrOf p) (finishedLen len discard) rb) = _
  rw [hstore, addrOf_sub_dataPos]
  unfold afterCommit wakes
  cases flags.contains BpfRingbufFlags.FORCE_WAKEUP with
  | true => rfl
  | false =>
    cases rb.consumerPos &&& rb.mask == UInt64.ofNat (p % rb.size) &&
      !flags.contains BpfRingbufFlags.NO_WAKEUP with
    | true => rfl
    | false => rfl

end RingBuf

end ExtKtrace.Bpf
