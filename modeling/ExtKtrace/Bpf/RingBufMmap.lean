import ExtKtrace.Bpf.RingBufQueue

/-!
# Mapping a ring buffer into user space

User space sees the two position pages and the data pages twice in a row. The request is not
checked: one that runs over the end panics.
-/

namespace ExtKtrace.Bpf.RingBuf
set_option autoImplicit false

/-- The page of the mapping that holds the consumer position. -/
def RINGBUF_PGOFF : UInt64 := 0x1000 >>> PAGE_SHIFT

/-- The physical pages behind a request; `none` where slicing the table panics. -/
def mapMmap (rb : RingBuf) (offset size : UInt64) : Option (Except BpfError (List UInt64)) :=
  let offset := offset + (RINGBUF_PGOFF <<< PAGE_SHIFT)
  let pageIdx := offset >>> PAGE_SHIFT
  let range := size >>> PAGE_SHIFT
  if pageIdx ≤ pageIdx + range ∧ (pageIdx + range).toNat ≤ rb.phyAddrs.length then
    some (.ok ((rb.phyAddrs.take (pageIdx + range).toNat).drop pageIdx.toNat))
  else none

/-- The loop of `new` over the pages from number `i` on. -/
def fillPhyAddrs (nrDataPages : Nat) : Nat → List UInt64 → List UInt64 → List UInt64
  | _, [], phyAddrs => phyAddrs
  | i, page :: pages, phyAddrs =>
    let phyAddrs := phyAddrs.set i page
    let phyAddrs :=
      if i ≥ RINGBUF_NR_META_PAGES then phyAddrs.set (nrDataPages + i) page else phyAddrs
    fillPhyAddrs nrDataPages (i + 1) pages phyAddrs

theorem getElem?_fillPhyAddrs {n i : Nat} {pages phyAddrs : List UInt64}
    (hlen : phyAddrs.length = 3 + 2 * n) (hi : i + pages.length ≤ 3 + n) (j : Nat) :
    (fillPhyAddrs n i pages phyAddrs)[j]? =
      if i ≤ j ∧ j < i + pages.length then pages[j - i]?
      else if n + 3 ≤ j ∧ n + i ≤ j ∧ j < n + i + pages.length then pages[j - (n + i)]?
      else phyAddrs[j]? := by
  induction pages generalizing i phyAddrs with
  | nil =>
    rw [if_neg (by simp only [List.length_nil]; omega),
      if_neg (by simp only [List.length_nil]; omega)]
    rfl
  | cons page pages ih =>
    simp only [List.length_cons] at hi ⊢
    have hmeta : RINGBUF_NR_META_PAGES = 3 := rfl
    rw [fillPhyAddrs]
    generalize htable : (if i ≥ RINGBUF_NR_META_PAGES then (phyAddrs.set i page).set (n + i) page
      else phyAddrs.set i page) = table
    have hlength : table.length = 3 + 2 * n := by
      rw [← htable]
      split <;> simp [hlen]
    have hset : table[j]? =
        if j = i ∨ (3 ≤ i ∧ j = n + i) then some page else phyAddrs[j]? := by
      rw [← htable, hmeta]
      grind
    rw [ih hlength (by omega), hset]
    -- the entry is the first of the two for this page, one for a later page, or the second
    by_cases hfirst : j = i
    · grind
    by_cases hlater : i < j ∧ j < i + (pages.length + 1)
    · rw [if_pos (by omega), if_pos (by omega), show j - i = j - (i + 1) + 1 by omega,
        List.getElem?_cons_succ]
    have hpast : ¬ (i + 1 ≤ j ∧ j < i + 1 + pages.length) := by omega
    have hpast' : ¬ (i ≤ j ∧ j < i + (pages.length + 1)) := by omega
    rw [if_neg hpast, if_neg hpast']
    by_cases hsecond : 3 ≤ i ∧ j = n + i
    · grind
    by_cases hcopy : n + 3 ≤ j ∧ n + i < j ∧ j < n + i + (pages.length + 1)
    · rw [if_pos (by omega), if_pos (by omega), show j - (n + i) = j - (n + (i + 1)) + 1 by omega,
        List.getElem?_cons_succ]
    · rw [if_neg (by omega), if_neg (by omega), if_neg (by omega)]

/-- The loop fills the table with the pages, and behind them the data pages again. -/
theorem fillPhyAddrs_eq {n : Nat} {pages : List UInt64}
    (hpages : pages.length = RINGBUF_NR_META_PAGES + n) :
    fillPhyAddrs n 0 pages (List.replicate (RINGBUF_NR_META_PAGES + 2 * n) 0) =
      pages ++ pages.drop RINGBUF_NR_META_PAGES := by
  have hmeta : RINGBUF_NR_META_PAGES = 3 := rfl
  rw [hmeta] at hpages ⊢
  apply List.ext_getElem?
  intro j
  rw [getElem?_fillPhyAddrs (by simp) (by omega), hpages]
  split_ifs with hfirst hsecond
  · rw [List.getElem?_append_left (by omega), Nat.sub_zero]
  · rw [List.getElem?_append_right (by omega), List.getElem?_drop, hpages]
    congr 1
    omega
  · rw [List.getElem?_eq_none (by simp only [List.length_replicate]; omega),
      List.getElem?_eq_none (by simp only [List.length_append, List.length_drop]; omega)]

/-- The table of a new ring of `n` data pages. -/
theorem new_table {F : KernelAuxiliaryOps} {bytes : Nat → UInt8} {mapMeta : BpfMapMeta}
    {rb : RingBuf} (h : new F bytes mapMeta = .ok rb) :
    rb.pages.length = RINGBUF_NR_META_PAGES + mapMeta.maxEntries.toNat / 4096 ∧
      rb.phyAddrs = rb.pages ++ rb.pages.drop RINGBUF_NR_META_PAGES := by
  unfold new at h
  split at h
  · cases h
  split at h
  · cases h
  simp only at h
  split at h
  · cases h
  rename_i pages _
  split at h
  · cases h
  · cases h
    exact ⟨pages.2.trans (by rw [Nat.shiftRight_eq_div_pow]), rfl⟩

/-- The physical pages of a ring. -/
def table (rb : RingBuf) : List UInt64 × List UInt64 := (rb.pages, rb.phyAddrs)

theorem reserve_keeps_table (size : UInt64) : Call.Keeps table (reserve size) := by
  unfold reserve
  refine .ite (.throw _) (.bind .self fun rb => .ite (.throw _) (.ite (.throw _) ?_))
  refine .bind (.orPanic _) fun hdrBuf => .bind (.update fun _ => rfl) fun _ => ?_
  exact .bind (.update fun _ => rfl) fun _ => .bind (.update fun _ => rfl) fun _ => .orPanic _

theorem commit_keeps_table (sample : Slice) (flags : BpfRingbufFlags) (discard : Bool) :
    Call.Keeps table (commit sample flags discard) := by
  unfold commit
  refine .bind .self fun rb => .bind (.orPanic _) fun hdr => .bind .self fun rb => ?_
  refine .ite (.bind .stuck fun _ => ?_) ?_
  all_goals
    refine .bind (.update fun _ => rfl) fun _ => .bind .self fun rb => .ite ?_ (.ite ?_ (.pure _))
    all_goals exact .bind (.update fun _ => rfl) fun _ => .pure _

theorem step_table {s s' : System} {e : Event} (h : step s e = some s') :
    s'.ring.table = s.ring.table := by
  cases e with
  | reserve size =>
    simp only [step] at h
    split at h
    · cases h
    · rename_i heq
      cases h
      exact reserve_keeps_table size _ _ _ heq
    · rename_i heq
      cases h
      exact reserve_keeps_table size _ _ _ heq
  | write i off bytes =>
    simp only [step] at h
    split at h
    · cases h
    · split at h
      · cases h
        rfl
      · cases h
  | commit i flags discard =>
    simp only [step] at h
    split at h
    · cases h
    · split at h
      · split at h
        · rename_i heq
          cases h
          exact commit_keeps_table _ flags discard _ _ _ heq
        · cases h
      · cases h
  | consume =>
    cases h
    unfold System.consume
    split
    · rfl
    · simp only
      split <;> rfl
  | forge pos =>
    cases h
    rfl

theorem run_table {s s' : System} {es : List Event} (h : s.run es = some s') :
    s'.ring.table = s.ring.table := by
  unfold System.run at h
  induction es generalizing s with
  | nil =>
    cases h
    rfl
  | cons e es ih =>
    obtain ⟨s₁, h₁, h₂⟩ := Option.bind_eq_some_iff.mp h
    exact (ih h₂).trans (step_table h₁)

/-- The physical page behind page `j` of a mapping of a ring with `n` data pages: the position
pages, and then the data pages over and over. -/
def userPage (rb : RingBuf) (n j : Nat) : Option UInt64 :=
  if j = 0 then rb.pages[1]?
  else if j = 1 then rb.pages[2]?
  else rb.pages[RINGBUF_NR_META_PAGES + (j - 2) % n]?

/-- A request within the position pages and both copies of the data gets its pages, any other
one an error. -/
def MmapLaw (rb : RingBuf) (n : Nat) (offset size : UInt64) : Prop :=
  ∃ r, rb.mapMmap offset size = some r ∧
    if offset.toNat / 4096 + size.toNat / 4096 ≤ 2 + 2 * n then
      ∃ out, r = .ok out ∧ out.length = size.toNat / 4096 ∧
        ∀ k < size.toNat / 4096, out[k]? = rb.userPage n (offset.toNat / 4096 + k)
    else ∃ e, r = .error e

section
variable {rb : RingBuf} {n : Nat}

theorem getElem?_phyAddrs (hpages : rb.pages.length = RINGBUF_NR_META_PAGES + n)
    (htable : rb.phyAddrs = rb.pages ++ rb.pages.drop RINGBUF_NR_META_PAGES) {j : Nat}
    (hj : j < 2 + 2 * n) : rb.phyAddrs[1 + j]? = rb.userPage n j := by
  have hmeta : RINGBUF_NR_META_PAGES = 3 := rfl
  rw [hmeta] at hpages htable
  unfold userPage
  rw [htable, hmeta]
  by_cases hfirst : 1 + j < 3 + n
  · rw [List.getElem?_append_left (by omega)]
    split_ifs with h₀ h₁
    · rw [h₀]
    · rw [h₁]
    · rw [Nat.mod_eq_of_lt (by omega)]
      congr 1
      omega
  · rw [List.getElem?_append_right (by omega), List.getElem?_drop, hpages, if_neg (by omega),
      if_neg (by omega)]
    have hmod : (j - 2) % n = j - 2 - n := by
      rw [Nat.mod_eq_sub_mod (by omega), Nat.mod_eq_of_lt (by omega)]
    rw [hmod]
    congr 1
    omega

/-- Where the arithmetic does not wrap. -/
theorem toNat_pageIdx (offset size : UInt64)
    (h : offset.toNat / 4096 + size.toNat / 4096 < 2 ^ 51) :
    ((offset + (RINGBUF_PGOFF <<< PAGE_SHIFT)) >>> PAGE_SHIFT).toNat = offset.toNat / 4096 + 1 ∧
      ((offset + (RINGBUF_PGOFF <<< PAGE_SHIFT)) >>> PAGE_SHIFT + size >>> PAGE_SHIFT).toNat =
        offset.toNat / 4096 + 1 + size.toNat / 4096 := by
  have hpage : (RINGBUF_PGOFF <<< PAGE_SHIFT).toNat = 4096 := rfl
  have hshift : PAGE_SHIFT.toNat % 64 = 12 := rfl
  have hidx : ((offset + (RINGBUF_PGOFF <<< PAGE_SHIFT)) >>> PAGE_SHIFT).toNat =
      offset.toNat / 4096 + 1 := by
    rw [UInt64.toNat_shiftRight, hshift, Nat.shiftRight_eq_div_pow, UInt64.toNat_add, hpage]
    omega
  refine ⟨hidx, ?_⟩
  have hrange : (size >>> PAGE_SHIFT).toNat = size.toNat / 4096 := by
    rw [UInt64.toNat_shiftRight, hshift, Nat.shiftRight_eq_div_pow]
  rw [UInt64.toNat_add, hidx, hrange]
  omega

theorem mapMmap_ne_error {offset size : UInt64} {e : BpfError} :
    rb.mapMmap offset size ≠ some (.error e) := by
  unfold mapMmap
  intro h
  simp only at h
  split at h
  · cases h
  · cases h

theorem mmapLaw_of_fits (hpages : rb.pages.length = RINGBUF_NR_META_PAGES + n) (hn : n < 2 ^ 20)
    (htable : rb.phyAddrs = rb.pages ++ rb.pages.drop RINGBUF_NR_META_PAGES) {offset size : UInt64}
    (h : offset.toNat / 4096 + size.toNat / 4096 ≤ 2 + 2 * n) : MmapLaw rb n offset size := by
  obtain ⟨hidx, hend⟩ := toNat_pageIdx offset size (by omega)
  have hlen : rb.phyAddrs.length = 3 + 2 * n := by
    have hmeta : RINGBUF_NR_META_PAGES = 3 := rfl
    rw [htable, List.length_append, List.length_drop, hpages, hmeta]
    omega
  have horder : (offset + (RINGBUF_PGOFF <<< PAGE_SHIFT)) >>> PAGE_SHIFT ≤
      (offset + (RINGBUF_PGOFF <<< PAGE_SHIFT)) >>> PAGE_SHIFT + size >>> PAGE_SHIFT := by
    rw [UInt64.le_iff_toNat_le, hidx, hend]
    omega
  refine ⟨_, if_pos ⟨horder, by rw [hend, hlen]; omega⟩, ?_⟩
  rw [if_pos h, hidx, hend]
  refine ⟨_, rfl, ?_, fun k hk => ?_⟩
  · rw [List.length_drop, List.length_take, hlen]
    omega
  · rw [List.getElem?_drop, List.getElem?_take_of_lt (by omega),
      ← getElem?_phyAddrs hpages htable (by omega)]
    congr 1
    omega

end

/-- In every state of a ring a request is answered as it has to be exactly when it lies within
the position pages and both copies of the data. -/
theorem map_mmap_iff {F : KernelAuxiliaryOps} {bytes : Nat → UInt8} {mapMeta : BpfMapMeta}
    {rb : RingBuf} (hnew : new F bytes mapMeta = .ok rb) {es : List Event} {s : System}
    (hrun : (System.start rb).run es = some s) (offset size : UInt64) :
    MmapLaw s.ring (mapMeta.maxEntries.toNat / 4096) offset size ↔
      offset.toNat / 4096 + size.toNat / 4096 ≤ 2 + 2 * (mapMeta.maxEntries.toNat / 4096) := by
  obtain ⟨hpages, htable⟩ := new_table hnew
  obtain ⟨hpages', htable'⟩ := Prod.mk.inj (run_table hrun)
  have hstart : (System.start rb).ring = rb := rfl
  rw [hstart] at hpages' htable'
  constructor
  · rintro ⟨r, hr, hlaw⟩
    by_contra hout
    rw [if_neg hout] at hlaw
    obtain ⟨e, rfl⟩ := hlaw
    exact mapMmap_ne_error hr
  · have hlt := mapMeta.maxEntries.toNat_lt
    rw [← hpages'] at hpages htable
    rw [← htable'] at htable
    exact mmapLaw_of_fits hpages (by omega) htable

theorem one_page_ring_mapped : ∃ rb, onePageRing = .ok rb ∧ MmapLaw rb 1 0 0x4000 := by
  obtain ⟨rb, hring⟩ : ∃ rb, onePageRing.toOption = some rb :=
    Option.isSome_iff_exists.mp (by decide +kernel)
  have hnew := onePageRing_of_toOption hring
  have hiff := @map_mmap_iff roomyKernel _ _ rb hnew [] (System.start rb) rfl 0 0x4000
  exact ⟨rb, hnew, hiff.mpr (by decide)⟩

/-- One page more than there are panics; from the last page of the address space on, user space
is given the page of the struct. -/
theorem map_mmap_unchecked : ∃ rb, onePageRing = .ok rb ∧
    rb.mapMmap 0 0x5000 = none ∧ ¬ MmapLaw rb 1 0 0x5000 ∧
      ∃ structPage, rb.pages[0]? = some structPage ∧
        rb.mapMmap 0xFFFFFFFFFFFFF000 0x1000 = some (.ok [structPage]) := by
  have hvalues : onePageRing.toOption.map (fun rb =>
      (rb.mapMmap 0 0x5000, rb.pages[0]?, rb.mapMmap 0xFFFFFFFFFFFFF000 0x1000)) =
        some (none, some 0, some (.ok [0])) := by decide +kernel
  obtain ⟨rb, hring, heq⟩ := Option.map_eq_some_iff.mp hvalues
  simp only [Prod.mk.injEq] at heq
  obtain ⟨hpanic, hpage, hwrapped⟩ := heq
  refine ⟨rb, onePageRing_of_toOption hring, hpanic, ?_, 0, hpage, hwrapped⟩
  rintro ⟨r, hr, -⟩
  exact nomatch hpanic.symm.trans hr

end ExtKtrace.Bpf.RingBuf
