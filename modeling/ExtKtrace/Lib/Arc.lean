import ExtKtrace.Lib.Tally

/-!
# Reference counted cells

A heap of cells with a strong count each. `Owned` says that the counts are the numbers of
references there are, whoever holds them; every operation moves one reference.
-/

namespace ExtKtrace
set_option autoImplicit false

universe u

structure Arcs (α : Type u) where
  cells : Table Nat (Nat × α)
  next : Nat

namespace Arcs
variable {α : Type u}

def empty : Arcs α := ⟨∅, 0⟩

def strong (h : Arcs α) (i : Nat) : Nat := (h.cells.lookup i).elim 0 Prod.fst

/-- What a live cell holds. -/
def value (h : Arcs α) (i : Nat) : Option α := (h.cells.lookup i).map Prod.snd

def alloc (h : Arcs α) (v : α) : Nat × Arcs α :=
  (h.next, ⟨h.cells.insert h.next (1, v), h.next + 1⟩)

def clone (h : Arcs α) (i : Nat) : Arcs α :=
  match h.cells.lookup i with
  | none => h
  | some (n, v) => { h with cells := h.cells.insert i (n + 1, v) }

/-- Give one reference up. With the last one the cell goes, and its value is handed out for its
destructor to run. -/
def drop (h : Arcs α) (i : Nat) : Option α × Arcs α :=
  match h.cells.lookup i with
  | none => (none, h)
  | some (n, v) =>
    if n ≤ 1 then (some v, { h with cells := h.cells.erase i })
    else (none, { h with cells := h.cells.insert i (n - 1, v) })

/-- Write through a shared reference (interior mutability). -/
def modify (h : Arcs α) (i : Nat) (f : α → α) : Arcs α :=
  match h.cells.lookup i with
  | none => h
  | some (n, v) => { h with cells := h.cells.insert i (n, f v) }

/-- The sum of a weight over the values of the live cells. -/
def tally (w : α → Nat) (h : Arcs α) : Nat := Table.tally (fun c => w c.2) h.cells

/-- The counts are the numbers of references. -/
structure Owned (h : Arcs α) (refs : Nat → Nat) : Prop where
  strong : ∀ i, h.strong i = refs i
  positive : ∀ i c, h.cells.lookup i = some c → 0 < c.1
  fresh : ∀ i, h.next ≤ i → h.cells.lookup i = none

/-- One reference to cell `i`. -/
def one (i j : Nat) : Nat := if j = i then 1 else 0

@[simp] theorem one_self (i : Nat) : one i i = 1 := by simp [one]

theorem one_ne {i j : Nat} (h : j ≠ i) : one i j = 0 := by simp [one, h]

@[simp] theorem strong_empty (i : Nat) : (empty : Arcs α).strong i = 0 := rfl

@[simp] theorem value_empty (i : Nat) : (empty : Arcs α).value i = none := rfl

theorem owned_empty : Owned (empty : Arcs α) fun _ => 0 :=
  ⟨fun _ => rfl, fun _ _ h => by simp [empty] at h, fun _ _ => rfl⟩

@[simp] theorem tally_empty (w : α → Nat) : tally w (empty : Arcs α) = 0 := rfl

section Values
variable (h : Arcs α) (v : α) (f : α → α) (i j : Nat)

@[simp] theorem alloc_fst : (h.alloc v).1 = h.next := rfl

theorem value_alloc :
    (h.alloc v).2.value j = if j = h.next then some v else h.value j := by
  unfold value alloc
  by_cases hj : j = h.next
  · subst hj
    simp
  · simp [hj]

@[simp] theorem value_clone : (h.clone i).value j = h.value j := by
  unfold value clone
  split
  · rfl
  · rename_i n v hi
    by_cases hj : j = i
    · subst hj
      simp [hi]
    · simp [hj]

theorem value_modify :
    (h.modify i f).value j = if j = i then (h.value i).map f else h.value j := by
  unfold value modify
  by_cases hj : j = i
  · subst hj
    split
    · rename_i hi
      simp [hi]
    · rename_i n v hi
      simp [hi]
  · split <;> simp [hj]

@[simp] theorem strong_modify : (h.modify i f).strong j = h.strong j := by
  unfold strong modify
  split
  · rfl
  · rename_i n v hi
    by_cases hj : j = i
    · subst hj
      simp [hi]
    · simp [hj]

/-- What is there after a drop was there before. -/
theorem value_of_drop {v : α} (hv : (h.drop i).2.value j = some v) : h.value j = some v := by
  unfold drop at hv
  split at hv
  · exact hv
  · rename_i n x hi
    split at hv
    · by_cases hj : j = i
      · subst hj
        simp [value] at hv
      · simpa [value, AList.lookup_erase_ne hj] using hv
    · by_cases hj : j = i
      · subst hj
        simpa [value, hi] using hv
      · simpa [value, hj] using hv

theorem tally_clone (w : α → Nat) : tally w (h.clone i) = tally w h := by
  unfold tally clone
  split
  · rfl
  · rename_i n v hi
    have hsum := Table.tally_insert (fun c : Nat × α => w c.2) i (n + 1, v) h.cells
    rw [hi] at hsum
    exact Nat.add_right_cancel hsum

theorem tally_modify {w : α → Nat} (hw : ∀ v, w (f v) = w v) :
    tally w (h.modify i f) = tally w h := by
  unfold tally modify
  split
  · rfl
  · rename_i n v hi
    have hsum := Table.tally_insert (fun c : Nat × α => w c.2) i (n, f v) h.cells
    rw [hi] at hsum
    simp only [Option.elim_some, hw] at hsum
    exact Nat.add_right_cancel hsum

end Values

namespace Owned
variable {h : Arcs α} {refs refs' : Nat → Nat} {i : Nat} {v : α}

theorem value_isSome (o : Owned h refs) : (h.value i).isSome ↔ 0 < refs i := by
  rw [← o.strong i]
  unfold Arcs.value Arcs.strong
  cases hi : h.cells.lookup i with
  | none => simp
  | some c =>
    have hpos := o.positive i c hi
    simp [hpos]

theorem live (o : Owned h refs) (hi : 0 < refs i) : ∃ v, h.value i = some v :=
  Option.isSome_iff_exists.mp (o.value_isSome.mpr hi)

theorem refs_pos (o : Owned h refs) (hv : h.value i = some v) : 0 < refs i :=
  o.value_isSome.mp (by rw [hv]; rfl)

theorem congr (o : Owned h refs) (hr : ∀ j, refs' j = refs j) : Owned h refs' :=
  ⟨fun j => (o.strong j).trans (hr j).symm, o.positive, o.fresh⟩

theorem next_unused (o : Owned h refs) : h.value h.next = none := by
  simp [Arcs.value, o.fresh h.next (Nat.le_refl _)]

theorem refs_next (o : Owned h refs) : refs h.next = 0 := by
  rw [← o.strong]
  simp [Arcs.strong, o.fresh h.next (Nat.le_refl _)]

theorem alloc (o : Owned h refs) (v : α) (hr : ∀ j, refs' j = refs j + one h.next j) :
    Owned (h.alloc v).2 refs' where
  strong j := by
    rw [hr j]
    by_cases hj : j = h.next
    · subst hj
      have h0 := o.refs_next
      simp [Arcs.alloc, Arcs.strong, h0]
    · have hs := o.strong j
      simp only [Arcs.strong] at hs
      simp [Arcs.alloc, Arcs.strong, hj, one_ne hj, hs]
  positive j c hc := by
    by_cases hj : j = h.next
    · subst hj
      simp only [Arcs.alloc, AList.lookup_insert, Option.some.injEq] at hc
      simp [← hc]
    · simp only [Arcs.alloc, AList.lookup_insert_ne hj] at hc
      exact o.positive j c hc
  fresh j hj := by
    have hle : h.next + 1 ≤ j := hj
    have hne : j ≠ h.next := by omega
    simp only [Arcs.alloc, AList.lookup_insert_ne hne]
    exact o.fresh j (by omega)

theorem tally_alloc (o : Owned h refs) (w : α → Nat) (v : α) :
    tally w (h.alloc v).2 = tally w h + w v := by
  unfold tally Arcs.alloc
  exact Table.tally_insert_new (o.fresh _ (Nat.le_refl _))

theorem exists_cell (hv : h.value i = some v) : ∃ n, h.cells.lookup i = some (n, v) := by
  unfold Arcs.value at hv
  obtain ⟨⟨n, w⟩, hc, rfl⟩ := Option.map_eq_some_iff.mp hv
  exact ⟨n, hc⟩

/-- Replacing the count in a cell is all `clone` and a `drop` that is not the last do. -/
theorem recount (o : Owned h refs) {n m : Nat} (hi : h.cells.lookup i = some (n, v)) (hm : 0 < m)
    (hr : ∀ j, j ≠ i → refs' j = refs j) (hri : refs' i = m) :
    Owned { h with cells := h.cells.insert i (m, v) } refs' where
  strong j := by
    by_cases hj : j = i
    · subst hj
      simp [Arcs.strong, hri]
    · have hs := o.strong j
      simp only [Arcs.strong] at hs
      simp [Arcs.strong, hj, hr j hj, hs]
  positive j c hc := by
    by_cases hj : j = i
    · subst hj
      simp only [AList.lookup_insert, Option.some.injEq] at hc
      simp [← hc, hm]
    · simp only [AList.lookup_insert_ne hj] at hc
      exact o.positive j c hc
  fresh j hj := by
    have hjn : j ≠ i := by
      rintro rfl
      have hnone := o.fresh j hj
      rw [hi] at hnone
      cases hnone
    simp only [AList.lookup_insert_ne hjn]
    exact o.fresh j hj

theorem clone (o : Owned h refs) (hv : h.value i = some v)
    (hr : ∀ j, refs' j = refs j + one i j) : Owned (h.clone i) refs' := by
  obtain ⟨n, hi⟩ := exists_cell hv
  have hs := o.strong i
  simp only [Arcs.strong, hi, Option.elim_some] at hs
  have hri : refs' i = n + 1 := by
    rw [hr i, one_self, ← hs]
  unfold Arcs.clone
  rw [hi]
  exact o.recount hi (Nat.succ_pos n) (fun j hj => by rw [hr j, one_ne hj]; rfl) hri

theorem modify (o : Owned h refs) (i : Nat) (f : α → α) : Owned (h.modify i f) refs where
  strong j := (strong_modify h f i j).trans (o.strong j)
  positive j c hc := by
    unfold Arcs.modify at hc
    split at hc
    · exact o.positive j c hc
    · rename_i n v hi
      by_cases hj : j = i
      · subst hj
        simp only [AList.lookup_insert, Option.some.injEq] at hc
        simpa [← hc] using o.positive j _ hi
      · simp only [AList.lookup_insert_ne hj] at hc
        exact o.positive j c hc
  fresh j hj := by
    unfold Arcs.modify at hj ⊢
    split at hj
    · exact o.fresh j hj
    · rename_i n v hi
      have hjn : j ≠ i := by
        rintro rfl
        have hnone := o.fresh j hj
        rw [hi] at hnone
        cases hnone
      simp only [AList.lookup_insert_ne hjn]
      exact o.fresh j hj

/-- A reference that is not the last. -/
theorem drop_shared (o : Owned h refs) (hr : ∀ j, refs j = refs' j + one i j)
    (hpos : 0 < refs' i) :
    (h.drop i).1 = none ∧ Owned (h.drop i).2 refs' ∧ (∀ j, (h.drop i).2.value j = h.value j) ∧
      ∀ w : α → Nat, tally w (h.drop i).2 = tally w h := by
  have hri := hr i
  rw [one_self] at hri
  obtain ⟨v, hv⟩ := o.live (i := i) (by omega)
  obtain ⟨n, hi⟩ := exists_cell hv
  have hs := o.strong i
  simp only [Arcs.strong, hi, Option.elim_some] at hs
  have hn : ¬ n ≤ 1 := by omega
  have hdrop : h.drop i = (none, { h with cells := h.cells.insert i (n - 1, v) }) := by
    simp [Arcs.drop, hi, hn]
  rw [hdrop]
  refine ⟨rfl, ?_, ?_, ?_⟩
  · refine o.recount hi (by omega) ?_ (by omega)
    intro j hj
    rw [hr j, one_ne hj]
    rfl
  · intro j
    by_cases hj : j = i
    · subst hj
      simp [Arcs.value, hi]
    · simp [Arcs.value, hj]
  · intro w
    have hsum := Table.tally_insert (fun c : Nat × α => w c.2) i (n - 1, v) h.cells
    rw [hi] at hsum
    simp only [Option.elim_some] at hsum
    simp only [Arcs.tally]
    omega

/-- The last reference: the value is handed out and the cell is gone. -/
theorem drop_last (o : Owned h refs) (hr : ∀ j, refs j = refs' j + one i j) (h0 : refs' i = 0)
    (hv : h.value i = some v) :
    (h.drop i).1 = some v ∧ Owned (h.drop i).2 refs' ∧
      (∀ j, (h.drop i).2.value j = if j = i then none else h.value j) ∧
      ∀ w : α → Nat, tally w (h.drop i).2 + w v = tally w h := by
  have hri := hr i
  rw [one_self, h0] at hri
  obtain ⟨n, hi⟩ := exists_cell hv
  have hs := o.strong i
  simp only [Arcs.strong, hi, Option.elim_some] at hs
  have hn : n ≤ 1 := by omega
  have hdrop : h.drop i = (some v, { h with cells := h.cells.erase i }) := by
    simp [Arcs.drop, hi, hn]
  rw [hdrop]
  refine ⟨rfl, ⟨?_, ?_, ?_⟩, ?_, ?_⟩
  · intro j
    by_cases hj : j = i
    · subst hj
      simp [Arcs.strong, h0]
    · have hsj := o.strong j
      rw [hr j, one_ne hj] at hsj
      simp only [Arcs.strong] at hsj
      simp [Arcs.strong, AList.lookup_erase_ne hj, hsj]
  · intro j c hc
    by_cases hj : j = i
    · subst hj
      simp at hc
    · simp only [AList.lookup_erase_ne hj] at hc
      exact o.positive j c hc
  · intro j hj
    by_cases hji : j = i
    · subst hji
      simp
    · simp only [AList.lookup_erase_ne hji]
      exact o.fresh j hj
  · intro j
    by_cases hj : j = i
    · subst hj
      simp [Arcs.value]
    · simp [Arcs.value, AList.lookup_erase_ne hj, hj]
  · intro w
    have hsum := Table.tally_erase (fun c : Nat × α => w c.2) i h.cells
    rw [hi] at hsum
    simpa [Arcs.tally] using hsum

end Owned

theorem le_tally {h : Arcs α} {w : α → Nat} {i : Nat} {v : α} (hv : h.value i = some v) :
    w v ≤ tally w h := by
  obtain ⟨n, hi⟩ := Owned.exists_cell hv
  exact Table.le_tally (w := fun c : Nat × α => w c.2) hi

theorem exists_of_tally_pos {h : Arcs α} {w : α → Nat} (hpos : 0 < tally w h) :
    ∃ i v, h.value i = some v ∧ 0 < w v := by
  obtain ⟨i, c, hi, hw⟩ := Table.exists_of_tally_pos hpos
  exact ⟨i, c.2, by simp [value, hi], hw⟩

theorem one_pos {i j : Nat} (h : 0 < one i j) : j = i := by
  by_contra hne
  rw [one_ne hne] at h
  cases h

end Arcs

end ExtKtrace
