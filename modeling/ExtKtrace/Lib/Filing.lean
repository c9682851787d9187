import ExtKtrace.Lib.Tally

/-!
# Lists filed by key

A map from keys to lists that holds the members of one list, each under its key and in
order, and never an empty list.
-/

namespace ExtKtrace.Filing
set_option autoImplicit false

universe u v
variable {κ : Type u} {α : Type v} [DecidableEq κ] [DecidableEq α]

omit [DecidableEq α] in
/-- Append to the list of a key, which starts empty. -/
def push (m : Table κ (List α)) (k : κ) (x : α) : Table κ (List α) :=
  m.insert k ((m.lookup k).getD [] ++ [x])

/-- Take `x` out of the list of a key, and the list out of the map when nothing is left. -/
def removeOne (m : Table κ (List α)) (k : κ) (x : α) : Table κ (List α) :=
  let m := match m.lookup k with
    | none => m
    | some l => m.insert k (l.filter fun y => y ≠ x)
  if ((m.lookup k).map List.length).getD 0 = 0 then m.erase k else m

omit [DecidableEq α] in
/-- Move the list of a key to another key, over the list that is there. -/
def rekey (m : Table κ (List α)) (old new : κ) : Table κ (List α) :=
  match m.lookup old with
  | none => m
  | some l => (m.erase old).insert new l

omit [DecidableEq κ] [DecidableEq α] in
/-- What a map without empty lists keeps for a list. -/
def stored : List α → Option (List α)
  | [] => none
  | x :: l => some (x :: l)

def Files (m : Table κ (List α)) (key : α → κ) (l : List α) : Prop :=
  ∀ k, m.lookup k = stored (l.filter fun x => key x = k)

/-- A weight summed over all members of all lists. -/
def occ (w : α → Nat) (m : Table κ (List α)) : Nat := Table.tally (fun l => (l.map w).sum) m

omit [DecidableEq κ] [DecidableEq α] in
@[simp] theorem stored_eq_none {l : List α} : stored l = none ↔ l = [] := by
  cases l <;> simp [stored]

omit [DecidableEq κ] [DecidableEq α] in
theorem stored_eq_some {l l' : List α} : stored l = some l' ↔ l = l' ∧ l ≠ [] := by
  cases l <;> simp [stored]

omit [DecidableEq κ] [DecidableEq α] in
theorem stored_of_ne {l : List α} (h : l ≠ []) : stored l = some l :=
  stored_eq_some.mpr ⟨rfl, h⟩

omit [DecidableEq κ] [DecidableEq α] in
@[simp] theorem stored_getD (l : List α) : (stored l).getD [] = l := by
  cases l <;> rfl

omit [DecidableEq α] in
theorem lookup_push (m : Table κ (List α)) (k k' : κ) (x : α) :
    (push m k x).lookup k' =
      if k' = k then some ((m.lookup k).getD [] ++ [x]) else m.lookup k' := by
  unfold push
  by_cases h : k' = k
  · subst h
    simp
  · simp [h]

theorem lookup_removeOne (m : Table κ (List α)) (k k' : κ) (x : α) :
    (removeOne m k x).lookup k' =
      if k' = k then (m.lookup k).bind fun l => stored (l.filter fun y => y ≠ x)
      else m.lookup k' := by
  unfold removeOne
  by_cases h : k' = k
  · subst h
    cases hk : m.lookup k' with
    | none => simp [hk]
    | some l =>
      simp only [AList.lookup_insert, Option.map_some, Option.getD_some, Option.bind_some,
        if_true, List.length_eq_zero_iff]
      split
      · rename_i hnil
        rw [AList.lookup_erase, hnil]
        rfl
      · rename_i hne
        rw [AList.lookup_insert, stored_of_ne hne]
  · cases hk : m.lookup k with
    | none => simp [hk, h, AList.lookup_erase_ne h]
    | some l =>
      simp only [AList.lookup_insert, Option.map_some, Option.getD_some, h, if_false]
      split
      · rw [AList.lookup_erase_ne h, AList.lookup_insert_ne h]
      · rw [AList.lookup_insert_ne h]

omit [DecidableEq α] in
theorem lookup_rekey {m : Table κ (List α)} {old new : κ} {l : List α} (h : m.lookup old = some l)
    (k : κ) :
    (rekey m old new).lookup k =
      if k = new then some l else if k = old then none else m.lookup k := by
  unfold rekey
  rw [h]
  by_cases hn : k = new
  · subst hn
    simp
  · by_cases ho : k = old
    · subst ho
      simp [hn]
    · simp [hn, ho, AList.lookup_erase_ne ho]

section Occ
variable (w : α → Nat) (m : Table κ (List α))

omit [DecidableEq κ] [DecidableEq α] in
@[simp] theorem occ_empty : occ w (∅ : Table κ (List α)) = 0 := rfl

omit [DecidableEq α] in
theorem occ_push (k : κ) (x : α) : occ w (push m k x) = occ w m + w x := by
  have hsum := Table.tally_insert (fun l : List α => (l.map w).sum) k
    ((m.lookup k).getD [] ++ [x]) m
  unfold occ push
  cases hk : m.lookup k with
  | none =>
    rw [hk] at hsum
    simpa using hsum
  | some l =>
    rw [hk] at hsum
    simp only [Option.elim_some, Option.getD_some, List.map_append, List.sum_append,
      List.map_cons, List.map_nil, List.sum_cons, List.sum_nil] at hsum ⊢
    omega

omit [DecidableEq α] in
theorem occ_erase (k : κ) :
    occ w (m.erase k) + (((m.lookup k).getD []).map w).sum = occ w m := by
  have hsum := Table.tally_erase (fun l : List α => (l.map w).sum) k m
  unfold occ
  cases hk : m.lookup k with
  | none =>
    rw [hk] at hsum
    simpa using hsum
  | some l =>
    rw [hk] at hsum
    simpa using hsum

omit [DecidableEq κ] in
theorem sum_filter_ne (x : α) (l : List α) :
    ((l.filter fun y => y ≠ x).map w).sum + ((l.filter fun y => y = x).map w).sum =
      (l.map w).sum := by
  induction l with
  | nil => rfl
  | cons y l ih =>
    by_cases h : y = x
    · simp only [h, ne_eq, not_true_eq_false, decide_false, Bool.false_eq_true,
        not_false_eq_true, List.filter_cons_of_neg, decide_true, List.filter_cons_of_pos,
        List.map_cons, List.sum_cons] at ih ⊢
      omega
    · simp only [h, ne_eq, not_false_eq_true, decide_true, List.filter_cons_of_pos,
        decide_false, Bool.false_eq_true, List.filter_cons_of_neg, List.map_cons,
        List.sum_cons] at ih ⊢
      omega

/-- The members that `removeOne` takes out. -/
def removed (k : κ) (x : α) : List α := ((m.lookup k).getD []).filter fun y => y = x

theorem occ_removeOne (k : κ) (x : α) :
    occ w (removeOne m k x) + ((removed m k x).map w).sum = occ w m := by
  unfold removeOne removed
  cases hk : m.lookup k with
  | none =>
    have herase := occ_erase w m k
    rw [hk] at herase
    simpa [hk] using herase
  | some l =>
    have hfilter := sum_filter_ne w x l
    have hins := Table.tally_insert (fun l : List α => (l.map w).sum) k
      (l.filter fun y => y ≠ x) m
    rw [hk] at hins
    simp only [Option.elim_some] at hins
    simp only [AList.lookup_insert, Option.map_some, Option.getD_some, List.length_eq_zero_iff]
    split
    · rename_i hnil
      have herase := occ_erase w (m.insert k (l.filter fun y => y ≠ x)) k
      rw [AList.lookup_insert, Option.getD_some, hnil] at herase
      rw [hnil] at hfilter hins
      simp only [List.map_nil, List.sum_nil] at herase hfilter hins
      rw [hnil]
      simp only [occ] at herase ⊢
      omega
    · simp only [occ]
      omega

/-- The list that `rekey` writes over. -/
def overwritten (old new : κ) : List α :=
  match m.lookup old with
  | none => []
  | some _ => ((m.erase old).lookup new).getD []

omit [DecidableEq α] in
theorem occ_rekey (old new : κ) :
    occ w (rekey m old new) + ((overwritten m old new).map w).sum = occ w m := by
  unfold rekey overwritten
  cases ho : m.lookup old with
  | none => simp
  | some l =>
    have herase := Table.tally_erase (fun l : List α => (l.map w).sum) old m
    have hins := Table.tally_insert (fun l : List α => (l.map w).sum) new l (m.erase old)
    rw [ho] at herase
    simp only [Option.elim_some] at herase
    cases hn : (m.erase old).lookup new with
    | none =>
      rw [hn] at hins
      simp only [Option.elim_none] at hins
      simp only [occ, Option.getD_none, List.map_nil, List.sum_nil]
      omega
    | some l' =>
      rw [hn] at hins
      simp only [Option.elim_some] at hins
      simp only [occ, Option.getD_some]
      omega

end Occ

namespace Files
variable {m : Table κ (List α)} {key key' : α → κ} {l : List α}

omit [DecidableEq α] in
theorem empty (key : α → κ) : Files (∅ : Table κ (List α)) key [] := fun _ => rfl

omit [DecidableEq α] in
theorem congr (h : Files m key l) (hkey : ∀ x ∈ l, key' x = key x) : Files m key' l := by
  intro k
  rw [h k]
  congr 1
  apply List.filter_congr
  intro x hx
  rw [hkey x hx]

omit [DecidableEq α] in
theorem lookup_key (h : Files m key l) {x : α} (hx : x ∈ l) :
    m.lookup (key x) = some (l.filter fun y => key y = key x) := by
  rw [h (key x)]
  apply stored_of_ne
  intro hnil
  have hmem : x ∈ l.filter fun y => key y = key x := by simp [hx]
  rw [hnil] at hmem
  cases hmem

omit [DecidableEq α] in
theorem mem_of_lookup (h : Files m key l) {k : κ} {l' : List α} (hk : m.lookup k = some l')
    {x : α} (hx : x ∈ l') : x ∈ l ∧ key x = k := by
  rw [h k] at hk
  obtain ⟨rfl, -⟩ := stored_eq_some.mp hk
  simpa using hx

omit [DecidableEq α] in
theorem ne_nil (h : Files m key l) {k : κ} {l' : List α} (hk : m.lookup k = some l') :
    l' ≠ [] := by
  rw [h k] at hk
  obtain ⟨rfl, hne⟩ := stored_eq_some.mp hk
  exact hne

omit [DecidableEq α] in
theorem lookup_isSome (h : Files m key l) (k : κ) :
    (m.lookup k).isSome ↔ ∃ x ∈ l, key x = k := by
  rw [h k, ← Option.ne_none_iff_isSome, Ne, stored_eq_none, List.filter_eq_nil_iff]
  simp

omit [DecidableEq α] in
theorem push (h : Files m key l) (x : α) : Files (push m (key x) x) key (l ++ [x]) := by
  intro k
  rw [lookup_push, h (key x), h k, stored_getD, List.filter_append]
  by_cases hk : k = key x
  · subst hk
    rw [if_pos rfl, List.filter_cons_of_pos (by simp), List.filter_nil]
    exact (stored_of_ne (by simp)).symm
  · have hne : ¬ key x = k := fun e => hk e.symm
    simp [hk, hne]

theorem removeOne (h : Files m key l) (x : α) :
    Files (removeOne m (key x) x) key (l.filter fun y => y ≠ x) := by
  intro k
  rw [lookup_removeOne, h (key x), h k]
  by_cases hk : k = key x
  · subst hk
    rw [if_pos rfl, List.filter_filter]
    cases hl : l.filter fun y => key y = key x with
    | nil =>
      show none = stored _
      symm
      rw [stored_eq_none, List.filter_eq_nil_iff]
      rw [List.filter_eq_nil_iff] at hl
      intro y hy hyx
      rw [Bool.and_eq_true] at hyx
      exact hl y hy hyx.1
    | cons y ys =>
      show stored (List.filter _ (y :: ys)) = _
      rw [← hl, List.filter_filter]
      congr 1
      apply List.filter_congr
      intro z _
      rw [Bool.and_comm]
  · rw [if_neg hk, List.filter_filter]
    congr 1
    apply List.filter_congr
    intro y _
    by_cases hy : key y = k
    · have hyx : y ≠ x := by
        rintro rfl
        exact hk hy.symm
      simp [hy, hyx]
    · simp [hy]

omit [DecidableEq α] in
/-- Members of one key move to another that no member has. -/
theorem rekey (h : Files m key l) {old new : κ} (hnew : ∀ x ∈ l, key x ≠ new)
    (hkey : ∀ x ∈ l, key' x = if key x = old then new else key x)
    (hold : ∃ x ∈ l, key x = old) : Files (rekey m old new) key' l := by
  obtain ⟨z, hz, rfl⟩ := hold
  intro k
  rw [lookup_rekey (h.lookup_key hz), h k]
  have hne : key z ≠ new := hnew z hz
  by_cases hk : k = new
  · subst hk
    have hfilter : (l.filter fun x => key' x = k) = l.filter fun x => key x = key z := by
      apply List.filter_congr
      intro x hx
      rw [hkey x hx]
      by_cases hxz : key x = key z
      · simp [hxz]
      · simp [hxz, hnew x hx]
    rw [if_pos rfl, hfilter, ← h.lookup_key hz, h (key z)]
  · rw [if_neg hk]
    by_cases hkz : k = key z
    · subst hkz
      rw [if_pos rfl]
      symm
      rw [stored_eq_none, List.filter_eq_nil_iff]
      intro x hx
      rw [hkey x hx]
      by_cases hxz : key x = key z
      · simpa [hxz] using fun e : new = key z => hne e.symm
      · simp [hxz]
    · rw [if_neg hkz]
      congr 1
      apply List.filter_congr
      intro x hx
      rw [hkey x hx]
      by_cases hxz : key x = key z
      · have h1 : ¬ key z = k := fun e => hkz e.symm
        have h2 : ¬ new = k := fun e => hk e.symm
        simp [hxz, h1, h2]
      · simp [hxz]

omit [DecidableEq α] in
/-- A list goes to a key that nothing is filed under. -/
theorem overwritten_eq_nil (h : Files m key l) {old new : κ} (hnew : ∀ x ∈ l, key x ≠ new) :
    overwritten m old new = [] := by
  have hnone : m.lookup new = none := by
    rw [h new, stored_eq_none, List.filter_eq_nil_iff]
    intro x hx
    simp [hnew x hx]
  unfold overwritten
  cases m.lookup old with
  | none => rfl
  | some l' =>
    by_cases hno : new = old
    · subst hno
      simp
    · simp [AList.lookup_erase_ne hno, hnone]

end Files

end ExtKtrace.Filing
