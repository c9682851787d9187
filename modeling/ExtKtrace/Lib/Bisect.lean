import Mathlib.Logic.Basic

/-!
# Binary search

Two searches over positions: the last position of a lower part, by halving an interval whose
start is in it, and a position that compares equal, by halving a closed interval.
-/

namespace ExtKtrace.Bisect
set_option autoImplicit false

def bisect (p : Nat → Bool) (low high : Nat) : Nat :=
  if high - low > 1 then
    let mid := low + (high - low) / 2
    if p mid then bisect p mid high else bisect p low mid
  else low
termination_by high - low
decreasing_by all_goals omega

/-- The search ends between two neighbours that it has told apart. -/
theorem bisect_spec (p : Nat → Bool) {low high : Nat} (h : low < high) :
    low ≤ bisect p low high ∧ bisect p low high < high ∧
      (bisect p low high = low ∨ p (bisect p low high) = true) ∧
      (bisect p low high + 1 = high ∨ p (bisect p low high + 1) = false) := by
  fun_induction bisect p low high with
  | case1 low high hgt mid hmid ih =>
    obtain ⟨h1, h2, h3, h4⟩ := ih (by omega)
    refine ⟨by omega, h2, Or.inr ?_, h4⟩
    rcases h3 with h3 | h3
    · rw [h3]
      exact hmid
    · exact h3
  | case2 low high hgt mid hmid ih =>
    obtain ⟨h1, h2, h3, h4⟩ := ih (by omega)
    refine ⟨h1, by omega, h3, Or.inr ?_⟩
    rcases h4 with h4 | h4
    · rw [h4]
      exact Bool.eq_false_iff.mpr hmid
    · exact h4
  | case3 low high hle => exact ⟨Nat.le_refl _, h, Or.inl rfl, Or.inl (by omega)⟩

def probe (cmp : Nat → Ordering) (low high : Nat) : Option Nat :=
  if low ≤ high then
    let mid := low + (high - low) / 2
    match cmp mid with
    | .eq => some mid
    | .lt => if mid = 0 then none else probe cmp low (mid - 1)
    | .gt => probe cmp (mid + 1) high
  else none
termination_by high + 1 - low
decreasing_by all_goals omega

theorem probe_eq_some {cmp : Nat → Ordering} {low high mid : Nat}
    (h : probe cmp low high = some mid) : low ≤ mid ∧ mid ≤ high ∧ cmp mid = .eq := by
  fun_induction probe cmp low high with
  | case1 low high hle m heq =>
    have hm := Option.some.inj h
    exact ⟨by omega, by omega, hm ▸ heq⟩
  | case2 => cases h
  | case3 low high hle m hlt hm ih =>
    obtain ⟨h1, h2, h3⟩ := ih h
    exact ⟨h1, by omega, h3⟩
  | case4 low high hle m hgt ih =>
    obtain ⟨h1, h2, h3⟩ := ih h
    exact ⟨by omega, h2, h3⟩
  | case5 => cases h

/-- What is looked for is below the later positions of one that it is below, and above the
earlier positions of one that it is above. -/
structure Ascending (cmp : Nat → Ordering) (n : Nat) : Prop where
  lt : ∀ i j, i < j → j < n → cmp i = .lt → cmp j = .lt
  gt : ∀ i j, i < j → j < n → cmp j = .gt → cmp i = .gt

theorem probe_eq_none {cmp : Nat → Ordering} {n low high : Nat} (hcmp : Ascending cmp n)
    (hhigh : high < n) (h : probe cmp low high = none) (i : Nat) (hlow : low ≤ i) (hi : i ≤ high) :
    cmp i ≠ .eq := by
  fun_induction probe cmp low high with
  | case1 => cases h
  | case2 low high hle m hlt hm =>
    intro heq
    by_cases h0 : i = m
    · rw [h0, hlt] at heq
      cases heq
    · rw [hcmp.lt m i (by omega) (by omega) hlt] at heq
      cases heq
  | case3 low high hle m hlt hm ih =>
    by_cases hle : i ≤ m - 1
    · exact ih (by omega) h hlow hle
    · intro heq
      by_cases h0 : i = m
      · rw [h0, hlt] at heq
        cases heq
      · rw [hcmp.lt m i (by omega) (by omega) hlt] at heq
        cases heq
  | case4 low high hle m hgt ih =>
    by_cases hle : m + 1 ≤ i
    · exact ih hhigh h hle hi
    · intro heq
      by_cases h0 : i = m
      · rw [h0, hgt] at heq
        cases heq
      · rw [hcmp.gt i m (by omega) (by omega) hgt] at heq
        cases heq
  | case5 => omega

end ExtKtrace.Bisect
