import ExtKtrace.Bpf.PerfHostile

/-!
# The arithmetic of the perf ring

`can_write` and `write_any` in a build that may check its sums and differences. The positions are
never reduced, so they outgrow the size of the region, and in the end the 64 bits.
-/

namespace ExtKtrace.Bpf.Perf
set_option autoImplicit false

/-- `a + b`; `none` is the panic of a build with overflow checks. -/
def addUsize (overflowChecks : Bool) (a b : UInt64) : Option UInt64 :=
  if overflowChecks ∧ 2 ^ 64 ≤ a.toNat + b.toNat then none else some (a + b)

/-- `a - b` -/
def subUsize (overflowChecks : Bool) (a b : UInt64) : Option UInt64 :=
  if overflowChecks ∧ a.toNat < b.toNat then none else some (a - b)

section
variable {overflowChecks : Bool} {a b : UInt64}

theorem addUsize_of_lt (h : a.toNat + b.toNat < 2 ^ 64) :
    addUsize overflowChecks a b = some (a + b) :=
  if_neg fun hover => Nat.not_le.mpr h hover.2

theorem subUsize_of_le (h : b.toNat ≤ a.toNat) : subUsize overflowChecks a b = some (a - b) :=
  if_neg fun hunder => Nat.not_lt.mpr h hunder.2

end

namespace RingPage

def canWriteIn (overflowChecks : Bool) (page : RingPage) (dataSize dataTail dataHead : UInt64) :
    Option Bool := do
  let free ← subUsize overflowChecks page.dataRegionSize dataHead
  let capacity ← addUsize overflowChecks free dataTail
  return dataSize ≤ capacity

def writeAnyIn (overflowChecks : Bool) (data : Bytes) (dataHead : UInt64) :
    Call BpfError RingPage Unit := do
  let dataRegionLen := (← Call.self).dataRegionSize
  let dataLen : UInt64 := .ofNat data.length
  let start := dataHead % dataRegionLen
  let stop := (← Call.orPanic (addUsize overflowChecks dataHead dataLen)) % dataRegionLen
  if start < stop then
    copyRange start stop data
  else
    let firstLen ← Call.orPanic (subUsize overflowChecks dataRegionLen start)
    let (first, rest) ← Call.orPanic (splitAt data firstLen)
    let middle ← Call.orPanic (addUsize overflowChecks start firstLen)
    copyRange start middle first
    copyRange 0 stop rest

/-- For positions in order no intermediate value leaves the range, and the answer is right. -/
def InRange (page : RingPage) (dataTail dataHead : UInt64) : Prop :=
  ∀ dataSize, page.canWriteIn true dataSize dataTail dataHead =
    some (decide (dataSize.toNat ≤ page.region - (dataHead.toNat - dataTail.toNat)))

variable {page : RingPage}

/-- Without checks the difference comes round, and round again with the sum. -/
theorem canWriteIn_unchecked (dataSize dataTail dataHead : UInt64) :
    page.canWriteIn false dataSize dataTail dataHead =
      some (page.canWrite dataSize dataTail dataHead) := rfl

/-- The region's size is taken away from before the tail is added back. -/
theorem inRange_iff {dataTail dataHead : UInt64} (hord : dataTail ≤ dataHead)
    (hbound : dataHead.toNat ≤ dataTail.toNat + page.region) :
    page.InRange dataTail dataHead ↔ dataHead ≤ page.dataRegionSize := by
  have hlt := page.region_lt
  have hregion : page.dataRegionSize.toNat = page.region := rfl
  rw [UInt64.le_iff_toNat_le, hregion]
  constructor
  · intro h
    by_contra hpast
    have hpanics : page.canWriteIn true 0 dataTail dataHead = none := by
      unfold canWriteIn subUsize
      rw [if_pos ⟨rfl, Nat.not_le.mp hpast⟩]
      rfl
    rw [h 0] at hpanics
    cases hpanics
  · intro hle dataSize
    have hfree : (page.dataRegionSize - dataHead).toNat = page.region - dataHead.toNat :=
      UInt64.toNat_sub_of_le _ _ (UInt64.le_iff_toNat_le.mpr hle)
    have htail := UInt64.le_iff_toNat_le.mp hord
    unfold canWriteIn
    rw [subUsize_of_le hle, Option.bind_eq_bind, Option.bind_some, addUsize_of_lt (by omega)]
    exact congrArg some (page.canWrite_eq hord hbound dataSize)

/-- Only the sum with the head can overflow: the pieces are cut at the end of the region. -/
theorem exec_writeAnyIn (overflowChecks : Bool) {data : Bytes} (hlen : data.length < 2 ^ 64)
    (dataHead : UInt64) :
    (writeAnyIn overflowChecks data dataHead).exec page =
      if overflowChecks ∧ 2 ^ 64 ≤ dataHead.toNat + data.length then none
      else (writeAny data dataHead).exec page := by
  have hpos := page.region_pos
  have hlt := page.region_lt
  have hregion : page.dataRegionSize.toNat = page.region := rfl
  have hstart : (dataHead % page.dataRegionSize).toNat < page.region := by
    rw [UInt64.toNat_mod]
    exact Nat.mod_lt _ (by omega)
  have hfirst : (page.dataRegionSize - dataHead % page.dataRegionSize).toNat =
      page.region - (dataHead % page.dataRegionSize).toNat :=
    UInt64.toNat_sub_of_le _ _ (UInt64.le_iff_toNat_le.mpr (Nat.le_of_lt hstart))
  have hsize : (UInt64.ofNat data.length).toNat = data.length := by
    rw [UInt64.toNat_ofNat', Nat.mod_eq_of_lt hlen]
  have hsum : addUsize overflowChecks dataHead (.ofNat data.length) =
      if overflowChecks ∧ 2 ^ 64 ≤ dataHead.toNat + data.length then none
      else some (dataHead + .ofNat data.length) := by
    unfold addUsize
    rw [hsize]
  unfold writeAnyIn
  rw [Call.exec_bind_ok (Call.exec_self page)]
  dsimp only
  rw [hsum]
  split
  · rfl
  · unfold writeAny
    rw [Call.exec_bind_ok (Call.exec_self page), Call.exec_bind_ok (Call.exec_orPanic _ _)]
    dsimp only
    split
    · rfl
    · rw [subUsize_of_le (Nat.le_of_lt hstart), Call.exec_bind_ok (Call.exec_orPanic _ _),
        addUsize_of_lt (by omega)]
      rfl

/-- The bytes lie around the region from the head on, and everything else is as it was. -/
structure CopiesAround (page : RingPage) (data : Bytes) (dataHead : UInt64) (page' : RingPage) :
    Prop where
  stores : ∀ (i : Nat) (hi : i < data.length),
    page'.data ((dataHead.toNat + i) % page.region) = data[i]
  others : ∀ j, (∀ i < data.length, (dataHead.toNat + i) % page.region ≠ j) →
    page'.data j = page.data j
  control_page : ∀ control, ∀ k < 4096, memory control page' k = memory control page k
  page : page'.toRegion = page.toRegion ∧ page'.lost = page.lost

theorem Stores.copiesAround {data : Bytes} {dataHead : UInt64} {page' : RingPage}
    (hlen : data.length ≤ page.region) (h : Stores page data dataHead page') :
    CopiesAround page data dataHead page' := by
  obtain ⟨rfl, -⟩ := h
  constructor
  · intro i hi
    exact Circular.write_at hlen hi
  · intro j hj
    apply Circular.write_of_not_covers
    rintro ⟨i, hi, rfl⟩
    exact hj i hi rfl
  · intro control k hk
    unfold memory
    rw [if_pos hk, if_pos hk]
    rfl
  · exact ⟨rfl, rfl⟩

/-- In either build: `write_any` copies around the region exactly if there is something to copy
and the position behind it is in range, or comes round with the region. -/
theorem writeAny_copies_around_iff (overflowChecks : Bool) (page : RingPage) (data : Bytes)
    (dataHead : UInt64) (hlen : data.length ≤ page.region) :
    (∃ page', (writeAnyIn overflowChecks data dataHead).exec page = some (.ok (), page') ∧
      CopiesAround page data dataHead page') ↔
        data ≠ [] ∧ (dataHead.toNat + data.length < 2 ^ 64 ∨
          overflowChecks = false ∧ page.region ∣ 2 ^ 64) := by
  have hlt := page.region_lt
  have hsize : data.length < 2 ^ 64 := Nat.lt_of_le_of_lt hlen hlt
  have hback := @writeAny_comesBack page data dataHead
  rw [ends_iff hsize, List.length_pos_iff] at hback
  rw [exec_writeAnyIn overflowChecks hsize]
  constructor
  · rintro ⟨page', hexec, -⟩
    split at hexec
    · cases hexec
    · rename_i hchecks
      obtain ⟨hne, -, hends⟩ := hback.mp ⟨_, _, hexec⟩
      refine ⟨hne, ?_⟩
      rcases hends with hbelow | hdvd
      · exact .inl hbelow
      · cases overflowChecks with
        | false => exact .inr ⟨rfl, hdvd⟩
        | true => exact .inl (Nat.not_le.mp fun hover => hchecks ⟨rfl, hover⟩)
  · rintro ⟨hne, hends⟩
    have hchecks : ¬ (overflowChecks = true ∧ 2 ^ 64 ≤ dataHead.toNat + data.length) := by
      rintro ⟨hon, hover⟩
      rcases hends with hbelow | ⟨hoff, -⟩
      · omega
      · rw [hon] at hoff
        cases hoff
    obtain ⟨r, page', hexec⟩ := hback.mpr ⟨hne, hlen, hends.imp id And.right⟩
    obtain ⟨rfl, hstores⟩ := writeAny_inv hexec
    exact ⟨page', by rw [if_neg hchecks, hexec], hstores.copiesAround hlen⟩

theorem writeAny_copies_around_one : ∃ page, init (fun _ => 0) 8192 = some page ∧
    ((∃ page', (writeAnyIn true [7] 4095).exec page = some (.ok (), page') ∧
      CopiesAround page [7] 4095 page') ↔
        [7] ≠ ([] : Bytes) ∧ ((4095 : UInt64).toNat + 1 < 2 ^ 64 ∨
          true = false ∧ page.region ∣ 2 ^ 64)) := by
  obtain ⟨page, hinit, hregion⟩ := init_two_pages
  exact ⟨page, hinit, writeAny_copies_around_iff true page [7] 4095 (by simp [hregion])⟩

/-- Nothing to copy is a panic: the first piece is as long as what is left of the region. -/
theorem writeAny_empty_panics :
    ¬ ∀ (overflowChecks : Bool) (page : RingPage) (data : Bytes) (dataHead : UInt64),
      data.length ≤ page.region →
      ∃ page', (writeAnyIn overflowChecks data dataHead).exec page = some (.ok (), page') ∧
        CopiesAround page data dataHead page' := by
  intro h
  obtain ⟨page, -, -⟩ := init_two_pages
  obtain ⟨page', hexec, -⟩ := h false page [] 0 (Nat.zero_le _)
  rw [@exec_writeAnyIn page false [] (Nat.two_pow_pos 64), if_neg (by simp)] at hexec
  exact absurd rfl (List.length_pos_iff.mp (writeAny_comesBack.mp ⟨_, _, hexec⟩).1)

end RingPage

/-- For any two positions in order the arithmetic of `can_write` stays in range, with the right
answer, exactly if the head is at most the size of the region; so it is in every state of an honest
run. -/
theorem canWrite_in_range_iff (page : RingPage) :
    (∀ dataTail dataHead : UInt64, dataTail ≤ dataHead →
      dataHead.toNat ≤ dataTail.toNat + page.region →
      (page.InRange dataTail dataHead ↔ dataHead ≤ page.dataRegionSize)) ∧
    ∀ (bytes : Nat → UInt8) (size : UInt64), RingPage.init bytes size = some page →
      ∀ s : System, Machine.Reachable (· = System.start page) BoundedStep s →
        s.page.dataTail ≤ s.page.dataHead ∧
        s.page.dataHead.toNat ≤ s.page.dataTail.toNat + s.page.region ∧
        (s.page.InRange s.page.dataTail s.page.dataHead ↔
          s.page.dataHead ≤ s.page.dataRegionSize) := by
  constructor
  · intro dataTail dataHead hord hbound
    exact RingPage.inRange_iff hord hbound
  · intro bytes size hinit s hs
    obtain ⟨hframed, hbelow⟩ := framed_of_reachable hinit hs
    have hframing := hframed.framing hbelow
    exact ⟨hframing.ordered, hframing.bounded,
      RingPage.inRange_iff hframing.ordered hframing.bounded⟩

theorem canWrite_in_range_two_pages : ∃ page, RingPage.init (fun _ => 0) 8192 = some page ∧
    (page.InRange 4096 8192 ↔ (8192 : UInt64) ≤ page.dataRegionSize) ∧
    (page.InRange page.dataTail page.dataHead ↔ page.dataHead ≤ page.dataRegionSize) := by
  obtain ⟨page, hinit, hregion⟩ := init_two_pages
  refine ⟨page, hinit, (canWrite_in_range_iff page).1 4096 8192 (by decide) ?_, ?_⟩
  · rw [hregion]
    exact Nat.le_refl 8192
  · exact ((canWrite_in_range_iff page).2 _ _ hinit (System.start page) (.start rfl)).2.2

/-- Two events of 4080 bytes, each read, and the head is past a region of 4096. -/
theorem canWrite_underflows :
    ¬ ∀ (bytes : Nat → UInt8) (size : UInt64) (page : RingPage),
      RingPage.init bytes size = some page →
      ∀ s : System, Machine.Reachable (· = System.start page) BoundedStep s →
        s.page.InRange s.page.dataTail s.page.dataHead := by
  intro h
  obtain ⟨data, hlen⟩ : ∃ data : Bytes, data.length = 4080 := ⟨_, List.length_replicate (a := 0)⟩
  obtain ⟨page, hinit, hregion⟩ := init_two_pages
  obtain ⟨s, hs, hframed, hsize, hqueue⟩ := reach_pages hlen hinit hregion 2 (by decide)
  have hbelow : s.queue.head < 2 ^ 64 := by
    rw [hqueue]
    exact (by decide : 4096 * 2 < 2 ^ 64)
  have hframing := hframed.framing hbelow
  have hin := (RingPage.inRange_iff hframing.ordered hframing.bounded).mp (h _ _ page hinit s hs)
  have hhead : s.page.dataHead = 8192 := by
    rw [hframed.head, hqueue]
    rfl
  rw [hhead, UInt64.le_iff_toNat_le] at hin
  have hle : 8192 ≤ s.page.region := hin
  omega

end ExtKtrace.Bpf.Perf
