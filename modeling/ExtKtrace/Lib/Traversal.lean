import Mathlib.Data.List.Infix

/-!
# Traversals that a visitor may stop

A visitor is shown the entries of a list one after another. It answers each time, may change what it
carries along, and a stopping answer ends the traversal.
-/

namespace ExtKtrace.Traversal
set_option autoImplicit false

universe u
variable {ε γ ρ : Type u}

structure Visit (ε ρ : Type u) where
  entry : ε
  answer : ρ

section
variable (stops : ρ → Prop) [DecidablePred stops] (visit : ε → γ → ρ × γ)

/-- The visits that are made, and what the visitor carries in the end. -/
def traverse : List ε → γ → List (Visit ε ρ) × γ
  | [], ctx => ([], ctx)
  | e :: rest, ctx =>
    let res := visit e ctx
    if stops res.1 then ([⟨e, res.1⟩], res.2)
    else
      let behind := traverse rest res.2
      (⟨e, res.1⟩ :: behind.1, behind.2)

/-- The visitor stops at some entry. -/
def Stops (l : List ε) (ctx : γ) : Prop := ∃ v ∈ (traverse stops visit l ctx).1, stops v.answer

instance (l : List ε) (ctx : γ) : Decidable (Stops stops visit l ctx) :=
  inferInstanceAs (Decidable (∃ v ∈ (traverse stops visit l ctx).1, stops v.answer))

variable {stops visit} {e : ε} {l : List ε} {ctx : γ}

theorem traverse_cons_stop (h : stops (visit e ctx).1) :
    traverse stops visit (e :: l) ctx = ([⟨e, (visit e ctx).1⟩], (visit e ctx).2) := if_pos h

theorem traverse_cons_go (h : ¬ stops (visit e ctx).1) :
    traverse stops visit (e :: l) ctx =
      (⟨e, (visit e ctx).1⟩ :: (traverse stops visit l (visit e ctx).2).1,
        (traverse stops visit l (visit e ctx).2).2) := if_neg h

theorem not_stops_nil : ¬ Stops stops visit [] ctx := by
  rintro ⟨v, hv, -⟩
  exact List.not_mem_nil hv

theorem stops_cons : Stops stops visit (e :: l) ctx ↔
    stops (visit e ctx).1 ∨ Stops stops visit l (visit e ctx).2 := by
  unfold Stops
  by_cases h : stops (visit e ctx).1
  · rw [traverse_cons_stop h]
    exact iff_of_true ⟨_, List.mem_singleton_self _, h⟩ (.inl h)
  · rw [traverse_cons_go h, List.exists_mem_cons_iff]

theorem traverse_starts (l : List ε) (ctx : γ) :
    (traverse stops visit l ctx).1.map Visit.entry <+: l := by
  induction l generalizing ctx with
  | nil => exact List.prefix_rfl
  | cons e l ih =>
    by_cases h : stops (visit e ctx).1
    · rw [traverse_cons_stop h]
      exact ⟨l, rfl⟩
    · rw [traverse_cons_go h]
      exact (List.prefix_cons_inj e).mpr (ih _)

/-- Nothing comes behind a stopping answer. -/
theorem traverse_stops (l : List ε) (ctx : γ) {before after : List (Visit ε ρ)} {v : Visit ε ρ}
    (hsplit : (traverse stops visit l ctx).1 = before ++ v :: after) (hv : stops v.answer) :
    after = [] := by
  induction l generalizing ctx before with
  | nil => exact absurd hsplit.symm (by simp [traverse])
  | cons e l ih =>
    by_cases h : stops (visit e ctx).1
    · rw [traverse_cons_stop h] at hsplit
      rcases List.cons_eq_append_iff.mp hsplit with ⟨-, hcons⟩ | ⟨rest, -, hnil⟩
      · exact (List.cons.inj hcons).2
      · exact absurd hnil.symm (by simp)
    · rw [traverse_cons_go h] at hsplit
      rcases List.cons_eq_append_iff.mp hsplit with ⟨-, hcons⟩ | ⟨rest, -, hrest⟩
      · obtain ⟨rfl, -⟩ := List.cons.inj hcons
        exact absurd hv h
      · exact ih _ hrest

/-- Without a stopping answer every entry is visited. -/
theorem traverse_all (l : List ε) (ctx : γ) (h : ¬ Stops stops visit l ctx) :
    (traverse stops visit l ctx).1.map Visit.entry = l := by
  induction l generalizing ctx with
  | nil => rfl
  | cons e l ih =>
    rw [stops_cons, not_or] at h
    rw [traverse_cons_go h.1, List.map_cons, ih _ h.2]

theorem Stops.append (h : Stops stops visit l ctx) (l' : List ε) :
    Stops stops visit (l ++ l') ctx := by
  induction l generalizing ctx with
  | nil => exact absurd h not_stops_nil
  | cons e l ih =>
    rw [List.cons_append, stops_cons]
    rcases stops_cons.mp h with hnow | hlater
    · exact .inl hnow
    · exact .inr (ih hlater)

theorem length_pos_of_stops (h : Stops stops visit l ctx) :
    0 < (traverse stops visit l ctx).1.length := by
  obtain ⟨v, hv, -⟩ := h
  exact List.length_pos_of_mem hv

theorem length_traverse_le (l : List ε) (ctx : γ) :
    (traverse stops visit l ctx).1.length ≤ l.length := by
  rw [← List.length_map]
  exact (traverse_starts l ctx).length_le

end

/-- The same visitor, which writes down its visits. -/
def recording (visit : ε → γ → ρ × γ) (e : ε) (ctx : γ × List (Visit ε ρ)) :
    ρ × γ × List (Visit ε ρ) :=
  let res := visit e ctx.1
  (res.1, res.2, ctx.2 ++ [⟨e, res.1⟩])

section
variable {stops : ρ → Prop} [DecidablePred stops] {visit : ε → γ → ρ × γ}

theorem traverse_recording (l : List ε) (ctx : γ) (log : List (Visit ε ρ)) :
    traverse stops (recording visit) l (ctx, log) =
      ((traverse stops visit l ctx).1,
        (traverse stops visit l ctx).2, log ++ (traverse stops visit l ctx).1) := by
  induction l generalizing ctx log with
  | nil => simp only [traverse, List.append_nil]
  | cons e l ih =>
    by_cases h : stops (visit e ctx).1
    · have hrecording : stops (recording visit e (ctx, log)).1 := h
      rw [traverse_cons_stop h, traverse_cons_stop hrecording]
      rfl
    · have hrecording : ¬ stops (recording visit e (ctx, log)).1 := h
      rw [traverse_cons_go h, traverse_cons_go hrecording]
      simp only [recording, ih, List.append_assoc, List.singleton_append]

theorem stops_recording {l : List ε} {ctx : γ} {log : List (Visit ε ρ)} :
    Stops stops (recording visit) l (ctx, log) ↔ Stops stops visit l ctx := by
  unfold Stops
  rw [traverse_recording]

end

end ExtKtrace.Traversal
