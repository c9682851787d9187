import Mathlib.Data.List.Sort

/-!
# Stable sorting

A sort that keeps the order of equal elements, and where the elements of one key lie in a list.
-/

namespace ExtKtrace.StableSort
set_option autoImplicit false

universe u v
variable {α β : Type u} {κ : Type v}

def sortBy (cmp : α → α → Ordering) (l : List α) : List α :=
  l.insertionSort fun a b => (cmp a b).isLE = true

section ByKey
variable [Ord κ]

def sortByKey (key : α → κ) (l : List α) : List α := sortBy (fun a b => compare (key a) (key b)) l

def SortedBy (key : α → κ) (l : List α) : Prop :=
  l.Pairwise fun a b => (compare (key a) (key b)).isLE = true

/-- The second list is the first in ascending order of the keys, the elements of each key in
the order that they had. -/
structure IsStableSort [DecidableEq κ] (key : α → κ) (l m : List α) : Prop where
  sorted : SortedBy key m
  stable : ∀ k, m.filter (fun a => key a = k) = l.filter fun a => key a = k

theorem perm_sortBy (cmp : α → α → Ordering) (l : List α) : (sortBy cmp l).Perm l :=
  List.perm_insertionSort _ l

theorem perm_sortByKey (key : α → κ) (l : List α) : (sortByKey key l).Perm l := perm_sortBy _ l

theorem sorted_sortByKey [Std.TransOrd κ] (key : α → κ) (l : List α) :
    SortedBy key (sortByKey key l) := by
  have htotal : Std.Total fun a b : α => (compare (key a) (key b)).isLE = true :=
    ⟨fun a b => by
      have hswap : compare (key b) (key a) = (compare (key a) (key b)).swap :=
        Std.OrientedCmp.eq_swap
      rw [hswap]
      cases compare (key a) (key b) <;> simp⟩
  have htrans : IsTrans α fun a b : α => (compare (key a) (key b)).isLE = true :=
    ⟨fun a b c => Std.TransCmp.isLE_trans⟩
  exact List.pairwise_insertionSort _ l

/-- Inserting puts an element before those of its key. -/
theorem filter_orderedInsert [DecidableEq κ] [Std.LawfulEqOrd κ] (key : α → κ) (a : α)
    (m : List α) (k : κ) :
    (m.orderedInsert (fun a b => (compare (key a) (key b)).isLE = true) a).filter
      (fun b => key b = k) = (a :: m).filter fun b => key b = k := by
  induction m with
  | nil => rfl
  | cons b m ih =>
    by_cases hab : (compare (key a) (key b)).isLE = true
    · rw [List.orderedInsert_cons_of_le _ m hab]
    · have hne : ¬ (key a = k ∧ key b = k) := by
        rintro ⟨ha, hb⟩
        have hkk : compare k k = .eq := Std.ReflCmp.compare_self
        rw [ha, hb, hkk] at hab
        exact hab rfl
      rw [List.orderedInsert_of_not_le _ m hab, List.filter_cons, ih]
      by_cases ha : key a = k
      · have hb : key b ≠ k := fun hb => hne ⟨ha, hb⟩
        simp [ha, hb]
      · simp [ha, List.filter_cons]

theorem stable_sortByKey [DecidableEq κ] [Std.LawfulEqOrd κ] (key : α → κ) (l : List α) (k : κ) :
    (sortByKey key l).filter (fun a => key a = k) = l.filter fun a => key a = k := by
  induction l with
  | nil => rfl
  | cons a l ih =>
    refine (filter_orderedInsert key a (sortByKey key l) k).trans ?_
    rw [List.filter_cons, List.filter_cons, ih]

theorem isStableSort_sortByKey [DecidableEq κ] [Std.TransOrd κ] [Std.LawfulEqOrd κ] (key : α → κ)
    (l : List α) : IsStableSort key l (sortByKey key l) where
  sorted := sorted_sortByKey key l
  stable := stable_sortByKey key l

theorem sortByKey_eq_self {key : α → κ} {l : List α} (h : SortedBy key l) : sortByKey key l = l :=
  List.Pairwise.insertionSort_eq h

/-- Sorting positions by what is at them sorts the list. -/
theorem map_sortByKey (f : α → β) (key : β → κ) (l : List α) :
    (sortByKey (fun a => key (f a)) l).map f = sortByKey key (l.map f) :=
  List.map_insertionSort _ _ f l fun _ _ _ _ => Iff.rfl

theorem SortedBy.getElem {key : α → κ} {l : List α} (h : SortedBy key l) {i j : Nat} (hij : i < j)
    (hj : j < l.length) : (compare (key l[i]) (key l[j])).isLE = true :=
  List.pairwise_iff_getElem.mp h i j _ hj hij

end ByKey

theorem head?_filter {p : α → Bool} {l : List α} {i : Nat} (hi : i < l.length) (hp : p l[i] = true)
    (hbefore : ∀ j (hj : j < i), p l[j] = false) : (l.filter p).head? = some l[i] := by
  rw [List.head?_filter, List.find?_eq_some_iff_getElem]
  exact ⟨hp, i, hi, rfl, fun j hj => by rw [hbefore j hj]; rfl⟩

theorem getLast?_filter {p : α → Bool} {l : List α} {i : Nat} (hi : i < l.length)
    (hp : p l[i] = true) (hafter : ∀ j (hj : j < l.length), i < j → p l[j] = false) :
    (l.filter p).getLast? = some l[i] := by
  have hpos : l.length - 1 - i < l.reverse.length := by
    rw [List.length_reverse]
    omega
  have hback : l.length - 1 - (l.length - 1 - i) = i := by omega
  rw [List.getLast?_filter, List.find?_eq_some_iff_getElem]
  refine ⟨hp, l.length - 1 - i, hpos, ?_, ?_⟩
  · simp only [List.getElem_reverse, hback]
  · intro j hj
    rw [List.getElem_reverse, hafter _ _ (by omega)]
    rfl

/-- When the elements of a kind are those from one position to another, they are that part of
the list. -/
theorem filter_eq_take_drop {p : α → Bool} {l : List α} {low high : Nat} (hhigh : high < l.length)
    (h : ∀ j (hj : j < l.length), p l[j] = true ↔ low ≤ j ∧ j ≤ high) :
    l.filter p = (l.take (high + 1)).drop low := by
  have hin : ((l.take (high + 1)).drop low).filter p = (l.take (high + 1)).drop low := by
    rw [List.filter_eq_self]
    intro a ha
    obtain ⟨j, hj, rfl⟩ := List.mem_iff_getElem.mp ha
    rw [List.length_drop, List.length_take] at hj
    rw [List.getElem_drop, List.getElem_take]
    exact (h _ _).mpr (by omega)
  have hbefore : (l.take low).filter p = [] := by
    rw [List.filter_eq_nil_iff]
    intro a ha
    obtain ⟨j, hj, rfl⟩ := List.mem_iff_getElem.mp ha
    rw [List.length_take] at hj
    rw [List.getElem_take]
    exact fun hp => absurd ((h _ _).mp hp).1 (by omega)
  have hafter : (l.drop (high + 1)).filter p = [] := by
    rw [List.filter_eq_nil_iff]
    intro a ha
    obtain ⟨j, hj, rfl⟩ := List.mem_iff_getElem.mp ha
    rw [List.getElem_drop]
    exact fun hp => absurd ((h _ _).mp hp).2 (by omega)
  by_cases hle : low ≤ high + 1
  · have hsplit : l = l.take low ++ (l.take (high + 1)).drop low ++ l.drop (high + 1) := by
      have htake : (l.take (high + 1)).take low = l.take low := by
        rw [List.take_take, Nat.min_eq_left hle]
      rw [← htake, List.take_append_drop, List.take_append_drop]
    conv_lhs => rw [hsplit]
    rw [List.filter_append, List.filter_append, hbefore, hin, hafter, List.nil_append,
      List.append_nil]
  · have hnil : (l.take (high + 1)).drop low = [] := by
      rw [List.drop_eq_nil_iff, List.length_take]
      omega
    rw [hnil, List.filter_eq_nil_iff]
    intro a ha
    obtain ⟨j, hj, rfl⟩ := List.mem_iff_getElem.mp ha
    exact fun hp => absurd ((h j hj).mp hp) (by omega)

end ExtKtrace.StableSort
