import Mathlib.Data.List.Basic

/-!
# What has happened

A past-time operator on finite histories, the oldest entry first. What holds of a history is
read off its last entry and the history before it.
-/

namespace ExtKtrace.Past
set_option autoImplicit false

universe u v w
variable {α : Type u} {p q r : α → Prop}

/-- `p` held of some entry, and `q` of none since. -/
def Since (p q : α → Prop) (l : List α) : Prop :=
  ∃ before a after, l = before ++ a :: after ∧ p a ∧ ∀ b ∈ after, ¬ q b

/-- Where `r` holds, there has been a `q` since the last `p`. -/
def Answered (p q r : α → Prop) (l : List α) : Prop :=
  ∀ before a after, l = before ++ a :: after → r a → ¬ Since p q before

/-- A list that ends in `x`, taken apart at some entry. -/
theorem concat_eq_split {l before after : List α} {x a : α} (h : l ++ [x] = before ++ a :: after) :
    (after = [] ∧ a = x ∧ before = l) ∨ ∃ rest, after = rest ++ [x] ∧ l = before ++ a :: rest := by
  rcases List.eq_nil_or_concat' after with rfl | ⟨rest, y, rfl⟩
  · obtain ⟨hl, hx⟩ := List.append_inj' h rfl
    exact .inl ⟨rfl, (List.singleton_inj.mp hx).symm, hl.symm⟩
  · have hjoin : l ++ [x] = (before ++ a :: rest) ++ [y] := by
      rw [h, List.append_assoc, List.cons_append]
    obtain ⟨hl, hx⟩ := List.append_inj' hjoin rfl
    cases List.singleton_inj.mp hx
    exact .inr ⟨rest, rfl, hl⟩

theorem not_since_nil : ¬ Since p q [] := by
  rintro ⟨before, a, after, h, -⟩
  exact absurd (congrArg List.length h) (by simp)

theorem since_concat (l : List α) (x : α) :
    Since p q (l ++ [x]) ↔ p x ∨ (Since p q l ∧ ¬ q x) := by
  constructor
  · rintro ⟨before, a, after, h, hp, hq⟩
    rcases concat_eq_split h with ⟨-, rfl, -⟩ | ⟨rest, rfl, rfl⟩
    · exact .inl hp
    · refine .inr ⟨⟨before, a, rest, rfl, hp, ?_⟩, hq x (by simp)⟩
      exact fun b hb => hq b (List.mem_append_left _ hb)
  · rintro (hp | ⟨⟨before, a, after, rfl, hp, hq⟩, hx⟩)
    · exact ⟨l, x, [], rfl, hp, fun b hb => absurd hb List.not_mem_nil⟩
    · refine ⟨before, a, after ++ [x], by simp, hp, ?_⟩
      intro b hb
      rcases List.mem_append.mp hb with hold | hlast
      · exact hq b hold
      · rw [List.mem_singleton.mp hlast]
        exact hx

theorem Since.append {l m : List α} (h : Since p q l) (hm : ∀ a ∈ m, ¬ q a) :
    Since p q (l ++ m) := by
  obtain ⟨before, a, after, rfl, hp, hq⟩ := h
  refine ⟨before, a, after ++ m, by simp, hp, ?_⟩
  intro b hb
  rcases List.mem_append.mp hb with hold | hnew
  · exact hq b hold
  · exact hm b hnew

theorem answered_nil : Answered p q r [] := by
  intro before a after h
  exact absurd (congrArg List.length h) (by simp)

theorem answered_concat (l : List α) (x : α) :
    Answered p q r (l ++ [x]) ↔ Answered p q r l ∧ (r x → ¬ Since p q l) := by
  constructor
  · intro h
    constructor
    · rintro before a after rfl
      exact h before a (after ++ [x]) (by simp)
    · exact h l x [] rfl
  · rintro ⟨hold, hlast⟩ before a after h
    rcases concat_eq_split h with ⟨-, rfl, rfl⟩ | ⟨rest, -, hl⟩
    · exact hlast
    · exact hold before a rest hl

section Latest
variable {κ : Type v} {ν : Type w} {key : α → κ} {value : α → Option ν} {k : κ} {v : ν}

/-- The last entry of the key gives it this value. -/
def Latest (key : α → κ) (value : α → Option ν) (k : κ) (v : ν) : List α → Prop :=
  Since (fun a => key a = k ∧ value a = some v) fun a => key a = k

theorem not_latest_nil : ¬ Latest key value k v [] := not_since_nil

theorem latest_concat (l : List α) (x : α) : Latest key value k v (l ++ [x]) ↔
    (key x = k ∧ value x = some v) ∨ (Latest key value k v l ∧ key x ≠ k) := since_concat l x

end Latest

end ExtKtrace.Past
