import Mathlib.Order.Basic

/-!
# Runs that stutter

A machine that takes several steps of its own for one step of what it imitates, while others take
theirs in between. The number of steps left until the next imitated one is bounded.
-/

namespace ExtKtrace
set_option autoImplicit false

universe u v
variable {σ : Type u} {τ : Type v}

/-- A run with `n` steps of the machine's own. -/
inductive Runs (own other : σ → σ → Prop) : Nat → σ → σ → Prop where
  | refl (s : σ) : Runs own other 0 s s
  | own {n : Nat} {s t u : σ} : Runs own other n s t → own t u → Runs own other (n + 1) s u
  | other {n : Nat} {s t u : σ} : Runs own other n s t → other t u → Runs own other n s u

/-- Nobody else takes a step. -/
def Alone (_ _ : σ) : Prop := False

namespace Runs
variable {own other : σ → σ → Prop}

theorem single {s t : σ} (h : own s t) : Runs own other 1 s t := .own (.refl s) h

theorem trans {n m : Nat} {s t u : σ} (h : Runs own other n s t) (h' : Runs own other m t u) :
    Runs own other (n + m) s u := by
  induction h' with
  | refl _ => exact h
  | own _ hstep ih => exact .own (ih h) hstep
  | other _ hstep ih => exact .other (ih h) hstep

theorem invariant {I : σ → Prop} (hown : ∀ s t, I s → own s t → I t)
    (hother : ∀ s t, I s → other s t → I t) {n : Nat} {s t : σ} (h : Runs own other n s t)
    (hs : I s) : I t := by
  induction h with
  | refl _ => exact hs
  | own _ hstep ih => exact hown _ _ (ih hs) hstep
  | other _ hstep ih => exact hother _ _ (ih hs) hstep

/-- `imitates s t k`: the machine in `s` is `k` steps past the imitated state `t`, and never more
than `b`. -/
theorem paced {next : τ → τ → Prop} {imitates : σ → τ → Nat → Prop} {good : τ → Prop} {b : Nat}
    (hown : ∀ s s' t k, good t → imitates s t k → own s s' →
      (k < b ∧ imitates s' t (k + 1)) ∨ ∃ t', next t t' ∧ imitates s' t' 0)
    (hother : ∀ s s' t k, good t → imitates s t k → other s s' → imitates s' t k)
    {t : τ} (hgood : ∀ m t', Runs next Alone m t t' → good t') {n : Nat} {s s' : σ}
    (hrun : Runs own other n s s') (hst : imitates s t 0) :
    ∃ m t' k, Runs next Alone m t t' ∧ imitates s' t' k ∧ m + k ≤ n ∧ n ≤ (b + 1) * m + k ∧
      k ≤ b := by
  induction hrun with
  | refl _ => exact ⟨0, t, 0, .refl t, hst, by omega, by omega, by omega⟩
  | own _ hstep ih =>
    obtain ⟨m, t', k, hnext, him, hle, hpace, hk⟩ := ih hst
    rcases hown _ _ t' k (hgood m t' hnext) him hstep with ⟨hlt, him'⟩ | ⟨u, hu, him'⟩
    · exact ⟨m, t', k + 1, hnext, him', by omega, by omega, by omega⟩
    · refine ⟨m + 1, u, 0, .own hnext hu, him', ?_, ?_, Nat.zero_le b⟩
      · omega
      · rw [Nat.mul_succ]
        omega
  | other _ hstep ih =>
    obtain ⟨m, t', k, hnext, him, hle, hpace, hk⟩ := ih hst
    exact ⟨m, t', k, hnext, hother _ _ t' k (hgood m t' hnext) him hstep, hle, hpace, hk⟩

end Runs

end ExtKtrace
