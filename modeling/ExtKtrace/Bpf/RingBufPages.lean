import Mathlib.Algebra.BigOperators.Group.Multiset.Basic
import Mathlib.Data.Multiset.Count
import ExtKtrace.Bpf.RingBufMmap
import ExtKtrace.Lib.Machine

/-!
# The pages of the ring buffers

A ring owns its pages, its mapping and one reference to its waker, all of them through raw
pointers. The kernel is the set of what it has given out; to give back what was not given out,
or a page that is still in a mapping of the kernel's own, ends the run. What user space has mapped
is not counted: a ring may be dropped while user space still has its pages.
-/

namespace ExtKtrace.Bpf.RingBufPages
set_option autoImplicit false

open RingBuf (mapMmap)

structure Kernel where
  /-- The physical pages that have been allocated. -/
  pages : Multiset UInt64
  /-- The kernel's own mappings: an address and the pages behind it. -/
  mappings : Multiset (UInt64 × List UInt64)
  /-- One entry for each reference to a waker. -/
  wakers : Multiset Nat

namespace Kernel

def empty : Kernel := ⟨0, 0, 0⟩

def handOut (page : UInt64) (k : Kernel) : Kernel := { k with pages := page ::ₘ k.pages }

def freePage (k : Kernel) (page : UInt64) : Option Kernel :=
  if page ∈ k.pages ∧ ∀ m ∈ k.mappings, page ∉ m.2 then
    some { k with pages := k.pages.erase page }
  else none

/-- `drop` of a `Vec<InnerPage>`. -/
def freePages (k : Kernel) : List UInt64 → Option Kernel
  | [] => some k
  | page :: pages => (k.freePage page).bind fun k => k.freePages pages

def map (vaddr : UInt64) (phyAddrs : List UInt64) (k : Kernel) : Kernel :=
  { k with mappings := (vaddr, phyAddrs) ::ₘ k.mappings }

def vunmap (k : Kernel) (vaddr : UInt64) (numPages : Nat) : Option Kernel :=
  if (vaddr, numPages) ∈ k.mappings.map (fun m => (m.1, m.2.length)) then
    some { k with mappings := k.mappings.filter fun m => m.1 ≠ vaddr }
  else none

def cloneWaker (waker : Nat) (k : Kernel) : Kernel := { k with wakers := waker ::ₘ k.wakers }

def dropWaker (k : Kernel) (waker : Nat) : Option Kernel :=
  if waker ∈ k.wakers then some { k with wakers := k.wakers.erase waker } else none

end Kernel

structure RingBufMap where
  ringbuf : RingBuf
  pollWaker : Nat

/-- A step of the kernel that must not fail. -/
def onKernel (f : Kernel → Option Kernel) : Call BpfError Kernel Unit := fun k =>
  (f k).map fun k => (.ok (), k)

/-- The loop over `0..nr_pages`; the pages that there are go when one cannot be allocated. -/
def newPages (F : KernelAuxiliaryOps) : (n : Nat) → Call BpfError Kernel (List UInt64)
  | 0 => return []
  | n + 1 => do
    let pages ← newPages F n
    match F.allocPage n with
    | .error e =>
      onKernel (·.freePages pages)
      throw e
    | .ok page =>
      Call.update (Kernel.handOut page)
      return pages ++ [page]

/-- What `RingBuf::new` does to the kernel, returning where the ring lies. -/
def newMapping (F : KernelAuxiliaryOps) (mapMeta : BpfMapMeta) :
    Call BpfError Kernel (UInt64 × List UInt64) := do
  Call.errorIf (mapMeta.mapFlags &&& ~~~RINGBUF_CREATE_FLAG_MASK ≠ 0) .EINVAL
  Call.errorIf (mapMeta.keySize ≠ 0 ∨ mapMeta.valueSize ≠ 0 ∨
    ¬ isPowerOfTwo mapMeta.maxEntries ∨ ¬ isPageAligned mapMeta.maxEntries) .EINVAL
  let nrDataPages := mapMeta.maxEntries.toNat >>> 12
  let pages ← newPages F (RINGBUF_NR_META_PAGES + nrDataPages)
  let phyAddrs := pages ++ pages.drop RINGBUF_NR_META_PAGES
  match F.vmap phyAddrs with
  | .error e =>
    onKernel (·.freePages pages)
    throw e
  | .ok vaddr =>
    Call.update (Kernel.map vaddr phyAddrs)
    return (vaddr, pages)

/-- The waker comes in by value, so an error drops it. The ring itself is that of
`RingBuf.new`. -/
def RingBufMap.new (F : KernelAuxiliaryOps) (bytes : Nat → UInt8) (mapMeta : BpfMapMeta)
    (pollWaker : Nat) : Call BpfError Kernel RingBufMap := do
  match ← Call.attempt (newMapping F mapMeta) with
  | .error e =>
    onKernel (·.dropWaker pollWaker)
    throw e
  | .ok _ =>
    let ringbuf ← Call.ofExcept (RingBuf.new F bytes mapMeta)
    return ⟨ringbuf, pollWaker⟩

/-- Both vectors are made again from their raw parts, which have to be those they were taken
apart into. -/
def RingBufMap.drop (m : RingBufMap) (k : Kernel) : Option Kernel := do
  let nrDataPages := m.ringbuf.totalDataSize.toNat >>> 12
  let physPages := RINGBUF_NR_META_PAGES + 2 * nrDataPages
  if m.ringbuf.nrPages.toNat ≠ m.ringbuf.pages.length ∨ physPages ≠ m.ringbuf.phyAddrs.length then
    none
  else
    let k ← k.vunmap m.ringbuf.base m.ringbuf.phyAddrs.length
    let k ← k.freePages m.ringbuf.pages
    k.dropWaker m.pollWaker

structure Host where
  kernel : Kernel
  maps : List RingBufMap

def Host.start : Host := ⟨.empty, []⟩

/-- What can happen to the rings. User space writes the consumer position as it likes. -/
inductive Input where
  | create (F : KernelAuxiliaryOps) (bytes : Nat → UInt8) (mapMeta : BpfMapMeta) (pollWaker : Nat)
  | drop (i : Nat)
  | reserve (i : Nat) (size : UInt64)
  | commit (i : Nat) (sample : Slice) (flags : BpfRingbufFlags) (discard : Bool)
  | consume (i : Nat) (pos : UInt64)
  | mmap (i : Nat) (offset size : UInt64)

inductive Answer where
  | created (r : Except BpfError RingBuf)
  | reserved (r : Except BpfError Slice)
  | mapped (r : Option (Except BpfError (List UInt64)))
  | done
  | noMap

/-- A method on one of the rings. -/
def Host.call {α : Type} (s : Host) (i : Nat) (c : Call BpfError RingBuf α)
    (answer : Except BpfError α → Answer) : Option (Answer × Host) :=
  match s.maps[i]? with
  | none => some (.noMap, s)
  | some m => (c.exec m.ringbuf).map fun r =>
    (answer r.1, { s with maps := s.maps.set i { m with ringbuf := r.2 } })

def step (s : Host) : Input → Option (Answer × Host)
  | .create F bytes mapMeta pollWaker =>
    ((RingBufMap.new F bytes mapMeta pollWaker).exec (s.kernel.cloneWaker pollWaker)).map fun r =>
      match r.1 with
      | .error e => (.created (.error e), { s with kernel := r.2 })
      | .ok m => (.created (.ok m.ringbuf), ⟨r.2, s.maps ++ [m]⟩)
  | .drop i =>
    match s.maps[i]? with
    | none => some (.noMap, s)
    | some m => (m.drop s.kernel).map fun k => (.done, ⟨k, s.maps.eraseIdx i⟩)
  | .reserve i size => s.call i (RingBuf.reserve size) .reserved
  | .commit i sample flags discard => s.call i (RingBuf.commit sample flags discard) fun _ => .done
  | .consume i pos => s.call i (Call.update (RingBuf.setConsumerPos pos)) fun _ => .done
  | .mmap i offset size =>
    match s.maps[i]? with
    | none => some (.noMap, s)
    | some m => some (.mapped (mapMmap m.ringbuf offset size), s)

/-- What the kernel gives out is not in use: new pages, and addresses without a mapping. -/
structure Fresh (k : Kernel) (F : KernelAuxiliaryOps) : Prop where
  pages : ∀ i page, F.allocPage i = .ok page → page ∉ k.pages
  distinct : ∀ i j page, F.allocPage i = .ok page → F.allocPage j = .ok page → i = j
  vmap : ∀ phyAddrs vaddr, F.vmap phyAddrs = .ok vaddr → ∀ m ∈ k.mappings, m.1 ≠ vaddr

/-- The kernel keeps its word at the step that comes next. -/
def Honest (s : Host) : Input → Prop
  | .create F _ _ _ => Fresh s.kernel F
  | _ => True

/-- What a ring has of the kernel. -/
structure Holding where
  base : UInt64
  size : Nat
  nrPages : Nat
  pages : List UInt64
  phyAddrs : List UInt64
  pollWaker : Nat

def RingBufMap.holding (m : RingBufMap) : Holding where
  base := m.ringbuf.base
  size := m.ringbuf.size
  nrPages := m.ringbuf.nrPages.toNat
  pages := m.ringbuf.pages
  phyAddrs := m.ringbuf.phyAddrs
  pollWaker := m.pollWaker

namespace Holding

def mapping (h : Holding) : UInt64 × List UInt64 := (h.base, h.phyAddrs)

/-- The page counts that `drop` works with are those of the vectors. -/
structure WellSized (h : Holding) : Prop where
  table : h.phyAddrs = h.pages ++ h.pages.drop RINGBUF_NR_META_PAGES
  nrPages : h.nrPages = h.pages.length
  pages : h.pages.length = RINGBUF_NR_META_PAGES + h.size / 4096

end Holding

def Host.held (s : Host) : List Holding := s.maps.map RingBufMap.holding

/-- What has been given out is what the rings hold, no page twice. -/
structure Accounted (k : Kernel) (held : List Holding) : Prop where
  pages : k.pages = held.flatMap Holding.pages
  nodup : k.pages.Nodup
  mappings : k.mappings = held.map Holding.mapping
  apart : (held.map Holding.base).Nodup
  wakers : k.wakers = held.map Holding.pollWaker
  wellSized : ∀ h ∈ held, h.WellSized

theorem freePages_eq {k : Kernel} {pages : List UInt64} {rest : Multiset UInt64}
    (hpages : k.pages = pages + rest) (hfree : ∀ m ∈ k.mappings, ∀ p ∈ pages, p ∉ m.2) :
    k.freePages pages = some { k with pages := rest } := by
  induction pages generalizing k with
  | nil =>
    rw [Multiset.coe_nil, zero_add] at hpages
    rw [Kernel.freePages, ← hpages]
  | cons page pages ih =>
    rw [← Multiset.cons_coe, Multiset.cons_add] at hpages
    have hmem : page ∈ k.pages := by
      rw [hpages]
      exact Multiset.mem_cons_self _ _
    have hone : k.freePage page = some { k with pages := pages + rest } := by
      unfold Kernel.freePage
      rw [if_pos ⟨hmem, fun m hm => hfree m hm page List.mem_cons_self⟩, hpages,
        Multiset.erase_cons_head]
    rw [Kernel.freePages, hone, Option.bind_some]
    exact ih rfl fun m hm p hp => hfree m hm p (List.mem_cons_of_mem _ hp)

variable {F : KernelAuxiliaryOps} {k : Kernel}

/-- Every page of a new ring is one of the kernel's answers. -/
theorem mem_allocPages {n : Nat} {pages : {pages : List UInt64 // pages.length = n}}
    (h : F.allocPages n = .ok pages) {p : UInt64} (hp : p ∈ pages.1) :
    ∃ i < n, F.allocPage i = .ok p := by
  induction n with
  | zero =>
    cases h
    cases hp
  | succ n ih =>
    unfold KernelAuxiliaryOps.allocPages at h
    split at h
    · cases h
    rename_i pages' hpages
    split at h
    · cases h
    rename_i page hpage
    cases h
    rcases List.mem_append.mp hp with hold | hnew
    · obtain ⟨i, hi, hanswer⟩ := ih hpages hold
      exact ⟨i, by omega, hanswer⟩
    · cases List.mem_singleton.mp hnew
      exact ⟨n, by omega, hpage⟩

theorem nodup_allocPages (hfresh : Fresh k F) {n : Nat}
    {pages : {pages : List UInt64 // pages.length = n}} (h : F.allocPages n = .ok pages) :
    pages.1.Nodup := by
  induction n with
  | zero =>
    cases h
    exact List.nodup_nil
  | succ n ih =>
    unfold KernelAuxiliaryOps.allocPages at h
    split at h
    · cases h
    rename_i pages' hpages
    split at h
    · cases h
    rename_i page hpage
    cases h
    refine List.nodup_append.mpr ⟨ih hpages, List.nodup_singleton _, ?_⟩
    intro p hp q hq heq
    cases List.mem_singleton.mp hq
    obtain ⟨i, hi, hanswer⟩ := mem_allocPages hpages hp
    have hsame := hfresh.distinct i n page (heq ▸ hanswer) hpage
    omega

/-- Pages that have just been handed out can be given back. -/
theorem freePages_new (hfresh : Fresh k F) (hmapped : ∀ m ∈ k.mappings, ∀ p ∈ m.2, p ∈ k.pages)
    {n : Nat} {pages : {pages : List UInt64 // pages.length = n}}
    (h : F.allocPages n = .ok pages) :
    Kernel.freePages { k with pages := pages.1 + k.pages } pages.1 = some k := by
  refine freePages_eq rfl ?_
  intro m hm p hp hmem
  obtain ⟨i, -, hanswer⟩ := mem_allocPages h hp
  exact hfresh.pages i p hanswer (hmapped m hm p hmem)

/-- The loop hands out the pages that `RingBuf.new` takes, or nothing. -/
theorem exec_newPages (hfresh : Fresh k F)
    (hmapped : ∀ m ∈ k.mappings, ∀ p ∈ m.2, p ∈ k.pages) (n : Nat) :
    (newPages F n).exec k = some (match F.allocPages n with
      | .error e => (.error e, k)
      | .ok pages => (.ok pages.1, { k with pages := pages.1 + k.pages })) := by
  induction n with
  | zero =>
    have hnone : { k with pages := (([] : List UInt64) : Multiset UInt64) + k.pages } = k := by
      rw [Multiset.coe_nil, zero_add]
    unfold KernelAuxiliaryOps.allocPages
    simp only [hnone]
    rfl
  | succ n ih =>
    unfold newPages KernelAuxiliaryOps.allocPages
    cases hpages : F.allocPages n with
    | error e =>
      rw [hpages] at ih
      rw [Call.exec_bind_error ih]
    | ok pages =>
      rw [hpages] at ih
      rw [Call.exec_bind_ok ih]
      cases hpage : F.allocPage n with
      | error e =>
        have hfree : (onKernel (·.freePages pages.1)).exec
            { k with pages := pages.1 + k.pages } = some (.ok (), k) := by
          show (Kernel.freePages _ _).map _ = _
          rw [freePages_new hfresh hmapped hpages]
          rfl
        rw [Call.exec_bind_ok hfree]
        rfl
      | ok page =>
        show some _ = some _
        simp [Kernel.handOut, ← Multiset.coe_add, ← Multiset.singleton_add, add_assoc, add_comm]

/-- The kernel with a ring more. -/
def Kernel.withRing (k : Kernel) (rb : RingBuf) : Kernel :=
  { k with
    pages := rb.pages + k.pages
    mappings := (rb.base, rb.phyAddrs) ::ₘ k.mappings }

/-- How `RingBuf.new` ends once the checks are passed. -/
inductive Made (F : KernelAuxiliaryOps) (bytes : Nat → UInt8) (mapMeta : BpfMapMeta) : Prop where
  | noPages (e : BpfError)
      (alloc : F.allocPages (RINGBUF_NR_META_PAGES + mapMeta.maxEntries.toNat >>> 12) = .error e)
      (new : RingBuf.new F bytes mapMeta = .error e)
  | noMapping (e : BpfError)
      (pages : {pages : List UInt64 //
        pages.length = RINGBUF_NR_META_PAGES + mapMeta.maxEntries.toNat >>> 12})
      (alloc : F.allocPages (RINGBUF_NR_META_PAGES + mapMeta.maxEntries.toNat >>> 12) = .ok pages)
      (vmap : F.vmap (pages.1 ++ pages.1.drop RINGBUF_NR_META_PAGES) = .error e)
      (new : RingBuf.new F bytes mapMeta = .error e)
  | ring (rb : RingBuf)
      (pages : {pages : List UInt64 //
        pages.length = RINGBUF_NR_META_PAGES + mapMeta.maxEntries.toNat >>> 12})
      (alloc : F.allocPages (RINGBUF_NR_META_PAGES + mapMeta.maxEntries.toNat >>> 12) = .ok pages)
      (vmap : F.vmap (pages.1 ++ pages.1.drop RINGBUF_NR_META_PAGES) = .ok rb.base)
      (new : RingBuf.new F bytes mapMeta = .ok rb)
      (pages_eq : rb.pages = pages.1)
      (nrPages : rb.nrPages = .ofNat (RINGBUF_NR_META_PAGES + mapMeta.maxEntries.toNat >>> 12))
      (mask : rb.mask = (mapMeta.maxEntries - 1).toUInt64)

theorem made (F : KernelAuxiliaryOps) (bytes : Nat → UInt8) {mapMeta : BpfMapMeta}
    (hflags : ¬ mapMeta.mapFlags &&& ~~~RINGBUF_CREATE_FLAG_MASK ≠ 0)
    (hsizes : ¬ (mapMeta.keySize ≠ 0 ∨ mapMeta.valueSize ≠ 0 ∨
      ¬ isPowerOfTwo mapMeta.maxEntries ∨ ¬ isPageAligned mapMeta.maxEntries)) :
    Made F bytes mapMeta := by
  cases hnew : RingBuf.new F bytes mapMeta with
  | error e =>
    have h := hnew
    unfold RingBuf.new at h
    rw [if_neg hflags, dif_neg hsizes] at h
    simp only at h
    split at h
    · rename_i halloc
      cases h
      exact .noPages e halloc hnew
    · rename_i pages halloc
      split at h
      · rename_i hvmap
        cases h
        exact .noMapping e pages halloc hvmap hnew
      · cases h
  | ok rb =>
    have h := hnew
    unfold RingBuf.new at h
    rw [if_neg hflags, dif_neg hsizes] at h
    simp only at h
    split at h
    · cases h
    · rename_i pages halloc
      split at h
      · cases h
      · rename_i hvmap
        cases h
        exact .ring _ pages halloc hvmap hnew rfl rfl rfl

theorem exec_newMapping (hfresh : Fresh k F)
    (hmapped : ∀ m ∈ k.mappings, ∀ p ∈ m.2, p ∈ k.pages) (bytes : Nat → UInt8)
    (mapMeta : BpfMapMeta) :
    (newMapping F mapMeta).exec k = some (match RingBuf.new F bytes mapMeta with
      | .error e => (.error e, k)
      | .ok rb => (.ok (rb.base, rb.pages), k.withRing rb)) := by
  unfold newMapping
  rw [Call.exec_errorIf_bind]
  by_cases hflags : mapMeta.mapFlags &&& ~~~RINGBUF_CREATE_FLAG_MASK ≠ 0
  · unfold RingBuf.new
    rw [if_pos hflags, if_pos hflags]
  rw [if_neg hflags, Call.exec_errorIf_bind]
  by_cases hsizes : mapMeta.keySize ≠ 0 ∨ mapMeta.valueSize ≠ 0 ∨
      ¬ isPowerOfTwo mapMeta.maxEntries ∨ ¬ isPageAligned mapMeta.maxEntries
  · unfold RingBuf.new
    rw [if_pos hsizes, if_neg hflags, dif_pos hsizes]
  rw [if_neg hsizes]
  have hpages := exec_newPages hfresh hmapped
    (RINGBUF_NR_META_PAGES + mapMeta.maxEntries.toNat >>> 12)
  cases made F bytes hflags hsizes with
  | noPages e alloc new =>
    rw [alloc] at hpages
    rw [Call.exec_bind_error hpages, new]
  | noMapping e pages alloc vmap new =>
    rw [alloc] at hpages
    have hfree : (onKernel (·.freePages pages.1)).exec
        { k with pages := pages.1 + k.pages } = some (.ok (), k) := by
      show (Kernel.freePages _ _).map _ = _
      rw [freePages_new hfresh hmapped alloc]
      rfl
    rw [Call.exec_bind_ok hpages, new]
    simp only [vmap]
    rw [Call.exec_bind_ok hfree]
    rfl
  | ring rb pages alloc vmap new pages_eq _ _ =>
    rw [alloc] at hpages
    rw [Call.exec_bind_ok hpages, new]
    simp only [vmap]
    rw [Call.exec_bind_ok (Call.exec_update _ _)]
    have htable := (RingBuf.new_table new).2
    unfold Kernel.withRing Kernel.map
    rw [htable, pages_eq]
    rfl

/-- A new ring takes the reference to its waker with it. -/
theorem exec_new (hfresh : Fresh k F) (hmapped : ∀ m ∈ k.mappings, ∀ p ∈ m.2, p ∈ k.pages)
    (bytes : Nat → UInt8) (mapMeta : BpfMapMeta) (pollWaker : Nat) :
    (RingBufMap.new F bytes mapMeta pollWaker).exec (k.cloneWaker pollWaker) =
      some (match RingBuf.new F bytes mapMeta with
        | .error e => (.error e, k)
        | .ok rb => (.ok ⟨rb, pollWaker⟩, (k.withRing rb).cloneWaker pollWaker)) := by
  have hfresh' : Fresh (k.cloneWaker pollWaker) F := ⟨hfresh.pages, hfresh.distinct, hfresh.vmap⟩
  have hmapping := exec_newMapping hfresh' hmapped bytes mapMeta
  unfold RingBufMap.new
  rw [Call.exec_bind, Call.exec_attempt, hmapping]
  cases hnew : RingBuf.new F bytes mapMeta with
  | error e =>
    have hdrop : (k.cloneWaker pollWaker).dropWaker pollWaker = some k := by
      unfold Kernel.dropWaker Kernel.cloneWaker
      rw [if_pos (Multiset.mem_cons_self _ _), Multiset.erase_cons_head]
    have hstep : (onKernel (·.dropWaker pollWaker)).exec (k.cloneWaker pollWaker) =
        some (.ok (), k) := by
      show (Kernel.dropWaker _ _).map _ = _
      rw [hdrop]
      rfl
    exact (Call.exec_bind_ok hstep).trans rfl
  | ok rb => rfl

/-- What is known of a ring that could be made. -/
theorem new_ok {bytes : Nat → UInt8} {mapMeta : BpfMapMeta} {rb : RingBuf}
    (hnew : RingBuf.new F bytes mapMeta = .ok rb) :
    ∃ pages : {pages : List UInt64 //
        pages.length = RINGBUF_NR_META_PAGES + mapMeta.maxEntries.toNat >>> 12},
      F.allocPages (RINGBUF_NR_META_PAGES + mapMeta.maxEntries.toNat >>> 12) = .ok pages ∧
      F.vmap rb.phyAddrs = .ok rb.base ∧ rb.pages = pages.1 ∧
      rb.nrPages = .ofNat (RINGBUF_NR_META_PAGES + mapMeta.maxEntries.toNat >>> 12) ∧
      rb.size = mapMeta.maxEntries.toNat := by
  have h := hnew
  unfold RingBuf.new at h
  split at h
  · cases h
  rename_i hflags
  split at h
  · cases h
  rename_i hsizes
  cases made F bytes hflags hsizes with
  | noPages e _ new => cases hnew.symm.trans new
  | noMapping e _ _ _ new => cases hnew.symm.trans new
  | ring rb' pages alloc vmap new pages_eq nrPages mask =>
    cases hnew.symm.trans new
    have htable := (RingBuf.new_table hnew).2
    refine ⟨pages, alloc, ?_, pages_eq, nrPages, ?_⟩
    · rw [htable, pages_eq]
      exact vmap
    · -- the number of entries is not zero, so taking one off does not wrap
      simp only [not_or, not_not] at hsizes
      obtain ⟨j, -, hj⟩ := of_decide_eq_true hsizes.2.2.1
      have hpos : 0 < 2 ^ j := Nat.two_pow_pos j
      have hone : (1 : UInt32) ≤ mapMeta.maxEntries := by
        rw [UInt32.le_iff_toNat_le, hj]
        exact hpos
      unfold Mapping.size
      rw [mask, UInt32.toNat_toUInt64, UInt32.toNat_sub_of_le _ _ hone]
      have h1 : (1 : UInt32).toNat = 1 := rfl
      omega

theorem Holding.WellSized.mem_pages {h : Holding} (hwell : h.WellSized) {p : UInt64}
    (hp : p ∈ h.phyAddrs) : p ∈ h.pages := by
  rw [hwell.table] at hp
  rcases List.mem_append.mp hp with hfirst | hsecond
  · exact hfirst
  · exact List.mem_of_mem_drop hsecond

theorem accounted_start : Accounted Kernel.empty [] :=
  ⟨rfl, Multiset.nodup_zero, rfl, List.nodup_nil, rfl, fun _ hh => absurd hh List.not_mem_nil⟩

namespace Accounted
variable {held : List Holding}

/-- Behind every mapping there are pages that have been given out. -/
theorem mapped (h : Accounted k held) : ∀ m ∈ k.mappings, ∀ p ∈ m.2, p ∈ k.pages := by
  intro m hm p hp
  rw [h.mappings] at hm
  obtain ⟨x, hx, rfl⟩ := List.mem_map.mp (Multiset.mem_coe.mp hm)
  rw [h.pages, Multiset.mem_coe]
  exact List.mem_flatMap.mpr ⟨x, hx, (h.wellSized x hx).mem_pages hp⟩

theorem create (h : Accounted k held) (hfresh : Fresh k F) {bytes : Nat → UInt8}
    {mapMeta : BpfMapMeta} {rb : RingBuf} (hnew : RingBuf.new F bytes mapMeta = .ok rb)
    (pollWaker : Nat) :
    Accounted ((k.withRing rb).cloneWaker pollWaker)
      (held ++ [RingBufMap.holding ⟨rb, pollWaker⟩]) := by
  obtain ⟨pages, halloc, hvmap, hpages, hnrPages, hsize⟩ := new_ok hnew
  have hdisjoint : ∀ p ∈ rb.pages, p ∉ k.pages := by
    intro p hp
    rw [hpages] at hp
    obtain ⟨i, -, hanswer⟩ := mem_allocPages halloc hp
    exact hfresh.pages i p hanswer
  constructor
  · show (rb.pages : Multiset UInt64) + k.pages = _
    rw [h.pages, List.flatMap_append, ← Multiset.coe_add, add_comm]
    simp [RingBufMap.holding]
  · show ((rb.pages : Multiset UInt64) + k.pages).Nodup
    refine Multiset.nodup_add.mpr ⟨?_, h.nodup, Multiset.disjoint_left.mpr @hdisjoint⟩
    rw [Multiset.coe_nodup, hpages]
    exact nodup_allocPages hfresh halloc
  · show (rb.base, rb.phyAddrs) ::ₘ k.mappings = _
    rw [h.mappings, List.map_append, ← Multiset.coe_add, add_comm, ← Multiset.singleton_add]
    rfl
  · rw [List.map_append]
    refine List.nodup_append.mpr ⟨h.apart, List.nodup_singleton _, ?_⟩
    intro base hbase base' hbase' heq
    obtain ⟨x, hx, hxbase⟩ := List.mem_map.mp hbase
    have hmapping : x.mapping ∈ k.mappings := by
      rw [h.mappings, Multiset.mem_coe]
      exact List.mem_map_of_mem hx
    refine hfresh.vmap rb.phyAddrs rb.base hvmap x.mapping hmapping ?_
    exact hxbase.trans (heq.trans (List.mem_singleton.mp hbase'))
  · show pollWaker ::ₘ k.wakers = _
    rw [h.wakers, List.map_append, ← Multiset.coe_add, add_comm, ← Multiset.singleton_add]
    rfl
  · intro x hx
    rcases List.mem_append.mp hx with hold | hnew'
    · exact h.wellSized x hold
    · cases List.mem_singleton.mp hnew'
      have hlen : rb.pages.length = RINGBUF_NR_META_PAGES + rb.size / 4096 := by
        rw [hsize]
        exact (RingBuf.new_table hnew).1
      refine ⟨(RingBuf.new_table hnew).2, ?_, hlen⟩
      show rb.nrPages.toNat = rb.pages.length
      have hmeta : RINGBUF_NR_META_PAGES = 3 := rfl
      have hle := rb.size_le
      rw [hnrPages, UInt32.toNat_ofNat', hlen, ← hsize, Nat.shiftRight_eq_div_pow]
      omega

theorem drop {l₁ l₂ : List RingBufMap} {m : RingBufMap}
    (h : Accounted k ((l₁ ++ m :: l₂).map RingBufMap.holding)) :
    ∃ k', m.drop k = some k' ∧ Accounted k' ((l₁ ++ l₂).map RingBufMap.holding) := by
  rw [List.map_append, List.map_cons] at h
  rw [List.map_append]
  generalize l₁.map RingBufMap.holding = held₁ at h ⊢
  generalize l₂.map RingBufMap.holding = held₂ at h ⊢
  have hperm : (held₁ ++ m.holding :: held₂).Perm (m.holding :: (held₁ ++ held₂)) :=
    List.perm_middle
  have hwell : ∀ x ∈ m.holding :: (held₁ ++ held₂), x.WellSized :=
    fun x hx => h.wellSized x (hperm.mem_iff.mpr hx)
  have hpages : k.pages = m.ringbuf.pages + ↑((held₁ ++ held₂).flatMap Holding.pages) :=
    h.pages.trans (Multiset.coe_eq_coe.mpr (hperm.flatMap_right Holding.pages))
  have hmappings : k.mappings = m.holding.mapping ::ₘ ↑((held₁ ++ held₂).map Holding.mapping) :=
    h.mappings.trans (Multiset.coe_eq_coe.mpr (hperm.map Holding.mapping))
  have hwakers : k.wakers = m.pollWaker ::ₘ ↑((held₁ ++ held₂).map Holding.pollWaker) :=
    h.wakers.trans (Multiset.coe_eq_coe.mpr (hperm.map Holding.pollWaker))
  have hapart : (m.holding.base :: (held₁ ++ held₂).map Holding.base).Nodup :=
    (hperm.map Holding.base).nodup_iff.mp h.apart
  have hnodup := h.nodup
  rw [hpages, Multiset.nodup_add] at hnodup
  generalize held₁ ++ held₂ = others at *
  -- the other rings are mapped elsewhere
  have hunmap : k.vunmap m.ringbuf.base m.ringbuf.phyAddrs.length =
      some { k with mappings := others.map Holding.mapping } := by
    have hfound : (m.ringbuf.base, m.ringbuf.phyAddrs.length) ∈
        k.mappings.map (fun x => (x.1, x.2.length)) := by
      rw [hmappings, Multiset.map_cons]
      exact Multiset.mem_cons_self _ _
    have hothers : ∀ x ∈ (↑(others.map Holding.mapping) : Multiset (UInt64 × List UInt64)),
        x.1 ≠ m.ringbuf.base := by
      intro x hx heq
      obtain ⟨y, hy, rfl⟩ := List.mem_map.mp (Multiset.mem_coe.mp hx)
      exact (List.nodup_cons.mp hapart).1 (List.mem_map.mpr ⟨y, hy, heq⟩)
    unfold Kernel.vunmap
    rw [if_pos hfound, hmappings, Multiset.filter_cons_of_neg _ (fun hne => hne rfl),
      Multiset.filter_eq_self.mpr hothers]
  -- and their pages are others
  have hfree : Kernel.freePages { k with mappings := others.map Holding.mapping }
      m.ringbuf.pages = some { k with
        mappings := others.map Holding.mapping
        pages := others.flatMap Holding.pages } := by
    refine freePages_eq hpages ?_
    intro x hx p hp hmem
    obtain ⟨y, hy, rfl⟩ := List.mem_map.mp (Multiset.mem_coe.mp hx)
    have hpage := (hwell y (List.mem_cons_of_mem _ hy)).mem_pages hmem
    exact Multiset.disjoint_left.mp hnodup.2.2 hp (List.mem_flatMap.mpr ⟨y, hy, hpage⟩)
  have hwaker : Kernel.dropWaker { k with
      mappings := others.map Holding.mapping
      pages := others.flatMap Holding.pages } m.pollWaker = some {
        mappings := others.map Holding.mapping
        pages := others.flatMap Holding.pages
        wakers := others.map Holding.pollWaker } := by
    unfold Kernel.dropWaker
    rw [if_pos (hwakers ▸ Multiset.mem_cons_self _ _)]
    simp only [hwakers, Multiset.erase_cons_head]
  obtain ⟨htable, hnr, hlen⟩ := hwell m.holding List.mem_cons_self
  have hraw : ¬ (m.ringbuf.nrPages.toNat ≠ m.ringbuf.pages.length ∨
      RINGBUF_NR_META_PAGES + 2 * (m.ringbuf.totalDataSize.toNat >>> 12) ≠
        m.ringbuf.phyAddrs.length) := by
    simp only [RingBufMap.holding] at htable hnr hlen
    rw [htable, hnr, m.ringbuf.toNat_totalDataSize, Nat.shiftRight_eq_div_pow,
      List.length_append, List.length_drop, hlen]
    omega
  refine ⟨⟨others.flatMap Holding.pages, others.map Holding.mapping,
    others.map Holding.pollWaker⟩, ?_, rfl, hnodup.2.1, rfl, (List.nodup_cons.mp hapart).2, rfl,
    fun x hx => hwell x (List.mem_cons_of_mem _ hx)⟩
  unfold RingBufMap.drop
  simp only
  rw [if_neg hraw, hunmap, Option.bind_eq_bind, Option.bind_some, hfree]
  exact hwaker

end Accounted

/-- What of a ring its records and positions are no part of. -/
def layout (rb : RingBuf) : Mapping × UInt32 × List UInt64 × List UInt64 :=
  (rb.toMapping, rb.nrPages, rb.pages, rb.phyAddrs)

theorem holding_congr {m : RingBufMap} {rb : RingBuf} (h : layout rb = layout m.ringbuf) :
    RingBufMap.holding { m with ringbuf := rb } = m.holding := by
  simp only [layout, Prod.mk.injEq] at h
  obtain ⟨hmapping, hnr, hpages, hphy⟩ := h
  simp only [RingBufMap.holding, hmapping, hnr, hpages, hphy]

theorem reserve_keeps_layout (size : UInt64) : Call.Keeps layout (RingBuf.reserve size) := by
  unfold RingBuf.reserve
  refine .ite (.throw _) (.bind .self fun rb => .ite (.throw _) (.ite (.throw _) ?_))
  refine .bind (.orPanic _) fun hdrBuf => .bind (.update fun _ => rfl) fun _ => ?_
  exact .bind (.update fun _ => rfl) fun _ => .bind (.update fun _ => rfl) fun _ => .orPanic _

theorem commit_keeps_layout (sample : Slice) (flags : BpfRingbufFlags) (discard : Bool) :
    Call.Keeps layout (RingBuf.commit sample flags discard) := by
  unfold RingBuf.commit
  refine .bind .self fun rb => .bind (.orPanic _) fun hdr => .bind .self fun rb => ?_
  refine .ite (.bind .stuck fun _ => ?_) ?_
  all_goals
    refine .bind (.update fun _ => rfl) fun _ => .bind .self fun rb => .ite ?_ (.ite ?_ (.pure _))
    all_goals exact .bind (.update fun _ => rfl) fun _ => .pure _

theorem call_held {α : Type} {s s' : Host} {i : Nat} {c : Call BpfError RingBuf α}
    {answer : Except BpfError α → Answer} {a : Answer} (hc : Call.Keeps layout c)
    (h : s.call i c answer = some (a, s')) : s'.kernel = s.kernel ∧ s'.held = s.held := by
  unfold Host.call at h
  split at h
  · cases h
    exact ⟨rfl, rfl⟩
  rename_i m hm
  obtain ⟨⟨r, rb⟩, hexec, heq⟩ := Option.map_eq_some_iff.mp h
  cases heq
  refine ⟨rfl, ?_⟩
  obtain ⟨hi, hget⟩ := List.getElem?_eq_some_iff.mp hm
  have hsame := holding_congr (m := m) (hc m.ringbuf r rb hexec)
  unfold Host.held
  rw [List.map_set, hsame, ← hget, ← List.getElem_map RingBufMap.holding
    (h := by simpa using hi), List.set_getElem_self]

theorem step_create {s : Host} (hs : Accounted s.kernel s.held) (hfresh : Fresh s.kernel F)
    (bytes : Nat → UInt8) (mapMeta : BpfMapMeta) (pollWaker : Nat) :
    ∃ s', step s (.create F bytes mapMeta pollWaker) =
        some (.created (RingBuf.new F bytes mapMeta), s') ∧
      Accounted s'.kernel s'.held ∧ ∀ e, RingBuf.new F bytes mapMeta = .error e → s' = s := by
  simp only [step, exec_new hfresh hs.mapped, Option.map_some]
  cases hnew : RingBuf.new F bytes mapMeta with
  | error e => exact ⟨s, rfl, hs, fun _ _ => rfl⟩
  | ok rb =>
    refine ⟨_, rfl, ?_, fun e he => by cases he⟩
    have hmore := hs.create hfresh hnew pollWaker
    unfold Host.held at hmore ⊢
    rwa [List.map_append, List.map_singleton]

theorem step_drop {s : Host} (hs : Accounted s.kernel s.held) {i : Nat} {m : RingBufMap}
    (hm : s.maps[i]? = some m) :
    ∃ k, step s (.drop i) = some (.done, ⟨k, s.maps.eraseIdx i⟩) ∧
      Accounted k ((s.maps.eraseIdx i).map RingBufMap.holding) := by
  obtain ⟨hi, hget⟩ := List.getElem?_eq_some_iff.mp hm
  have hsplit : s.maps = s.maps.take i ++ m :: s.maps.drop (i + 1) := by
    rw [← hget, List.getElem_cons_drop, List.take_append_drop]
  unfold Host.held at hs
  rw [hsplit] at hs
  obtain ⟨k, hdrop, hacc⟩ := hs.drop
  refine ⟨k, ?_, ?_⟩
  · simp only [step, hm, hdrop, Option.map_some]
  · rw [List.eraseIdx_eq_take_drop_succ]
    exact hacc

/-- A step keeps the account. -/
theorem step_accounted {s s' : Host} {i : Input} {a : Answer} (hs : Accounted s.kernel s.held)
    (honest : Honest s i) (h : step s i = some (a, s')) : Accounted s'.kernel s'.held := by
  have hother : s'.kernel = s.kernel ∧ s'.held = s.held → Accounted s'.kernel s'.held := by
    rintro ⟨hkernel, hheld⟩
    rw [hkernel, hheld]
    exact hs
  cases i with
  | create F bytes mapMeta pollWaker =>
    obtain ⟨s₁, hstep, hacc, -⟩ := step_create hs honest bytes mapMeta pollWaker
    cases h.symm.trans hstep
    exact hacc
  | drop i =>
    cases hm : s.maps[i]? with
    | none =>
      simp only [step, hm] at h
      cases h
      exact hs
    | some m =>
      obtain ⟨k, hstep, hacc⟩ := step_drop hs hm
      cases h.symm.trans hstep
      exact hacc
  | reserve i size => exact hother (call_held (reserve_keeps_layout size) h)
  | commit i sample flags discard =>
    have hcall : s.call i (RingBuf.commit sample flags discard) (fun _ => .done) = some (a, s') := h
    exact hother (call_held (commit_keeps_layout sample flags discard) hcall)
  | consume i pos =>
    have hkeeps : Call.Keeps layout
        (Call.update (RingBuf.setConsumerPos pos) : Call BpfError RingBuf Unit) :=
      .update fun _ => rfl
    have hcall : s.call i (Call.update (RingBuf.setConsumerPos pos)) (fun _ => .done) =
        some (a, s') := h
    exact hother (call_held hkeeps hcall)
  | mmap i offset size =>
    simp only [step] at h
    split at h <;> cases h <;> exact hs

/-- When all rings are dropped, everything has been given back. -/
theorem run_drops {n : Nat} {s : Host} (hs : Accounted s.kernel s.held) (hn : s.maps.length = n) :
    ∃ answers, Machine.run step s (List.replicate n (.drop 0)) = some (answers, .start) := by
  induction n generalizing s with
  | zero =>
    obtain ⟨⟨pages, mappings, wakers⟩, maps⟩ := s
    cases List.length_eq_zero_iff.mp hn
    have hpages : pages = 0 := hs.pages
    have hmappings : mappings = 0 := hs.mappings
    have hwakers : wakers = 0 := hs.wakers
    rw [hpages, hmappings, hwakers]
    exact ⟨[], rfl⟩
  | succ n ih =>
    have hpos : 0 < s.maps.length := by omega
    have hm : s.maps[0]? = some s.maps[0] := List.getElem?_eq_getElem hpos
    obtain ⟨k, hstep, hacc⟩ := step_drop hs hm
    have hlen : (s.maps.eraseIdx 0).length = n := by
      rw [List.length_eraseIdx_of_lt hpos]
      omega
    obtain ⟨answers, hrun⟩ := ih (s := ⟨k, s.maps.eraseIdx 0⟩) hacc hlen
    refine ⟨.done :: answers, ?_⟩
    rw [List.replicate_succ, Machine.run, hstep]
    simp only [hrun, Option.map_some]

/-- Whatever is done with the rings of a host, in any order: what the kernel has given out is
what the live rings hold, no ring is dropped in vain, a creation that fails leaves nothing
behind, and dropping the rings gives everything back. -/
theorem ring_pages_accounted {inputs : List Input} {answers : List Answer} {s : Host}
    (honest : Machine.Along step Honest Host.start inputs)
    (hrun : Machine.run step Host.start inputs = some (answers, s)) :
    Accounted s.kernel s.held ∧
      (∀ i, (step s (.drop i)).isSome) ∧
      (∀ F bytes mapMeta pollWaker, Fresh s.kernel F →
        ∃ s', step s (.create F bytes mapMeta pollWaker) =
            some (.created (RingBuf.new F bytes mapMeta), s') ∧
          ∀ e, RingBuf.new F bytes mapMeta = .error e → s' = s) ∧
      ∃ answers', Machine.run step s (List.replicate s.maps.length (.drop 0)) =
        some (answers', .start) := by
  have hkeeps : ∀ s i a s', Accounted s.kernel s.held → Honest s i → step s i = some (a, s') →
      Accounted s'.kernel s'.held := fun _ _ _ _ => step_accounted
  have hs : Accounted s.kernel s.held :=
    Machine.run_invariant_along hkeeps inputs accounted_start honest hrun
  refine ⟨hs, ?_, ?_, run_drops hs rfl⟩
  · intro i
    cases hm : s.maps[i]? with
    | none => simp only [step, hm, Option.isSome_some]
    | some m =>
      obtain ⟨k, hstep, -⟩ := step_drop hs hm
      rw [hstep]
      rfl
  · intro F bytes mapMeta pollWaker hfresh
    obtain ⟨s', hstep, -, herror⟩ := step_create hs hfresh bytes mapMeta pollWaker
    exact ⟨s', hstep, herror⟩

/-- A kernel with eight pages left. -/
def smallKernel : KernelAuxiliaryOps where
  allocPage i := if i < 8 then .ok (.ofNat (4096 * i)) else .error .ENOMEM
  vmap pages := if pages.length ≤ 16 then .ok 0x10000 else .error .ENOMEM
  vmap_aligned := by
    intro pages base h
    split at h
    · cases h
      rfl
    · cases h
  vmap_fits := by
    intro pages base h
    split at h
    · cases h
      have hbase : (0x10000 : UInt64).toNat = 0x10000 := rfl
      omega
    · cases h

theorem smallKernel_fresh : Fresh .empty smallKernel where
  pages i page _ := Multiset.notMem_zero page
  distinct i j page hi hj := by
    simp only [smallKernel] at hi hj
    split at hi
    · split at hj
      · have hpage := congrArg UInt64.toNat (Except.ok.inj (hi.trans hj.symm))
        simp only [UInt64.toNat_ofNat'] at hpage
        omega
      · cases hj
    · cases hi
  vmap _ _ _ m hm := absurd hm (Multiset.notMem_zero m)

/-- A ring that is too large, one that is not, and user space at its position. -/
def someInputs : List Input :=
  [.create smallKernel (fun _ => 0) ⟨0, 0, 65536, 0⟩ 7,
    .create smallKernel (fun _ => 0) ⟨0, 0, 4096, 0⟩ 7, .consume 0 0xFFFFFFFFFFFFFFFF,
    .reserve 0 16]

theorem someInputs_honest : Machine.Along step Honest Host.start someInputs := by
  have hfail : RingBuf.new smallKernel (fun _ => 0) ⟨0, 0, 65536, 0⟩ = .error .ENOMEM := rfl
  refine ⟨smallKernel_fresh, fun a s hstep => ?_⟩
  obtain ⟨s', hstep', -, hsame⟩ := step_create (s := .start) accounted_start smallKernel_fresh
    (fun _ => 0) ⟨0, 0, 65536, 0⟩ 7
  cases hstep.symm.trans hstep'
  rw [hsame _ hfail]
  exact ⟨smallKernel_fresh, fun _ _ _ => ⟨trivial, fun _ _ _ => ⟨trivial, fun _ _ _ => trivial⟩⟩⟩

theorem ring_pages_accounted_demo : ∃ answers s,
    Machine.run step Host.start someInputs = some (answers, s) ∧ s.maps.length = 1 ∧
      Accounted s.kernel s.held ∧
      ∃ answers', Machine.run step s [.drop 0] = some (answers', .start) := by
  refine ⟨_, _, rfl, rfl, ?_⟩
  have h := ring_pages_accounted someInputs_honest rfl
  exact ⟨h.1, h.2.2.2⟩

end ExtKtrace.Bpf.RingBufPages
