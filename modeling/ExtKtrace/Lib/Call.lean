import Mathlib.Logic.Basic

/-!
# Methods on mutable state

A call of a method that changes its receiver in place, returns `Result` and may panic.
An early return keeps the state reached so far; a panic (`none`) ends the run.
-/

namespace ExtKtrace
set_option autoImplicit false

universe u

abbrev Call (ε σ α : Type u) := ExceptT ε (StateT σ Option) α

namespace Call
variable {ε σ τ α β : Type u}

/-- Run a call: `none` for a panic, else the result and the state left behind. -/
def exec (c : Call ε σ α) (s : σ) : Option (Except ε α × σ) := c s

/-- The `?` operator on a value already computed. -/
def ofExcept (r : Except ε α) : Call ε σ α := fun s => some (r, s)

/-- A step that panics on `none`. -/
def orPanic (r : Option α) : Call ε σ α := fun s => r.map fun a => (.ok a, s)

/-- `if p { return Err(e); }` -/
def errorIf (p : Prop) [Decidable p] (e : ε) : Call ε σ PUnit :=
  fun s => some (if p then .error e else .ok ⟨⟩, s)

/-- `map_err`. -/
def mapErr {δ : Type u} (f : δ → ε) (c : Call δ σ α) : Call ε σ α := fun s =>
  (exec c s).map fun r => (r.1.mapError f, r.2)

/-- A call whose error is looked at instead of passed on. -/
def attempt {δ : Type u} (c : Call δ σ α) : Call ε σ (Except δ α) := fun s =>
  (exec c s).map fun r => (.ok r.1, r.2)

/-- The call with its value packed in another one. -/
def mapOk (f : α → β) (c : Call ε σ α) : Call ε σ β := fun s =>
  (exec c s).map fun r => (r.1.map f, r.2)

/-- Read the receiver. -/
def self : Call ε σ σ := fun s => some (.ok s, s)

/-- Change the receiver. -/
def update (f : σ → σ) : Call ε σ PUnit := fun s => some (.ok ⟨⟩, f s)

/-- A panic, or a recursion deeper than the depth given. -/
def stuck : Call ε σ α := fun _ => none

/-- A call on one field of the receiver. -/
def focus (get : σ → τ) (set : τ → σ → σ) (c : Call ε τ α) : Call ε σ α := fun s =>
  (exec c (get s)).map fun r => (r.1, set r.2 s)

@[simp] theorem exec_pure (a : α) (s : σ) :
    exec (pure a : Call ε σ α) s = some (.ok a, s) := rfl

@[simp] theorem exec_throw (e : ε) (s : σ) :
    exec (throw e : Call ε σ α) s = some (.error e, s) := rfl

@[simp] theorem exec_ofExcept (r : Except ε α) (s : σ) :
    exec (ofExcept r) s = some (r, s) := rfl

@[simp] theorem exec_orPanic (r : Option α) (s : σ) :
    exec (orPanic r : Call ε σ α) s = r.map fun a => (.ok a, s) := rfl

@[simp] theorem exec_self (s : σ) : exec (self : Call ε σ σ) s = some (.ok s, s) := rfl

@[simp] theorem exec_update (f : σ → σ) (s : σ) :
    exec (update f : Call ε σ PUnit) s = some (.ok ⟨⟩, f s) := rfl

@[simp] theorem exec_stuck (s : σ) : exec (stuck : Call ε σ α) s = none := rfl

@[simp] theorem exec_focus (get : σ → τ) (set : τ → σ → σ) (c : Call ε τ α) (s : σ) :
    exec (focus get set c) s = (exec c (get s)).map fun r => (r.1, set r.2 s) := rfl

@[simp] theorem mapError_ok {δ : Type u} (f : δ → ε) (a : α) :
    (.ok a : Except δ α).mapError f = .ok a := rfl

@[simp] theorem mapError_error {δ : Type u} (f : δ → ε) (e : δ) :
    (.error e : Except δ α).mapError f = .error (f e) := rfl

@[simp] theorem exec_attempt {δ : Type u} (c : Call δ σ α) (s : σ) :
    exec (attempt c : Call ε σ (Except δ α)) s = (exec c s).map fun r => (.ok r.1, r.2) := rfl

@[simp] theorem exec_mapOk (f : α → β) (c : Call ε σ α) (s : σ) :
    exec (mapOk f c) s = (exec c s).map fun r => (r.1.map f, r.2) := rfl

theorem exec_bind (c : Call ε σ α) (f : α → Call ε σ β) (s : σ) :
    exec (c >>= f) s = (exec c s).bind fun r =>
      match r.1 with
      | .error e => some (.error e, r.2)
      | .ok a => exec (f a) r.2 := by
  show StateT.bind c (ExceptT.bindCont f) s = _
  unfold StateT.bind exec
  cases c s with
  | none => rfl
  | some r =>
    obtain ⟨r, s'⟩ := r
    cases r <;> rfl

theorem exec_bind_ok {c : Call ε σ α} {f : α → Call ε σ β} {s s' : σ} {a : α}
    (h : exec c s = some (.ok a, s')) : exec (c >>= f) s = exec (f a) s' := by
  rw [exec_bind, h]
  rfl

theorem exec_bind_error {c : Call ε σ α} {f : α → Call ε σ β} {s s' : σ} {e : ε}
    (h : exec c s = some (.error e, s')) : exec (c >>= f) s = some (.error e, s') := by
  rw [exec_bind, h]
  rfl

theorem exec_errorIf_bind (p : Prop) [Decidable p] (e : ε) (f : PUnit → Call ε σ β) (s : σ) :
    exec (errorIf p e >>= f) s = if p then some (.error e, s) else exec (f ⟨⟩) s := by
  have hcheck : exec (errorIf p e : Call ε σ PUnit) s = some (if p then .error e else .ok ⟨⟩, s) :=
    rfl
  rw [exec_bind, hcheck]
  split <;> rfl

/-- An outcome with an error in it. -/
def Failed (x : Option (Except ε α × σ)) : Prop := ∃ e s, x = some (.error e, s)

/-- The call comes back with an error. -/
def Fails (c : Call ε σ α) (s : σ) : Prop := Failed (exec c s)

/-- When the call comes back with an error, what `view` shows of the receiver is as before. -/
def AtomicOn {ω : Type u} (view : σ → ω) (c : Call ε σ α) (s : σ) : Prop :=
  ∀ e s', exec c s = some (.error e, s') → view s' = view s

@[simp] theorem failed_error (e : ε) (s : σ) :
    Failed (some ((.error e : Except ε α), s)) ↔ True := by
  simp [Failed]

@[simp] theorem failed_ok (a : α) (s : σ) : ¬ Failed (some ((.ok a : Except ε α), s)) := by
  simp [Failed]

@[simp] theorem failed_map_ok (f : β → α) (g : β → σ) (x : Option β) :
    ¬ Failed (x.map fun b => ((.ok (f b) : Except ε α), g b)) := by
  rintro ⟨e, s, h⟩
  cases x <;> simp at h

theorem failed_ite {p : Prop} [Decidable p] {x y : Option (Except ε α × σ)} :
    Failed (if p then x else y) ↔ (p ∧ Failed x) ∨ (¬ p ∧ Failed y) := by
  split <;> simp [*]

/-- A check in front of a call is one more reason to fail. -/
theorem failed_check {p : Prop} [Decidable p] {e : ε} {s : σ} {y : Option (Except ε α × σ)} :
    Failed (if p then some (.error e, s) else y) ↔ p ∨ Failed y := by
  split
  · rename_i h
    exact iff_of_true ((failed_error e s).mpr trivial) (.inl h)
  · rename_i h
    exact (or_iff_right h).symm

theorem map_ok_ne_error {f : β → α} {g : β → σ} {x : Option β} {e : ε} {s : σ} :
    (x.map fun b => ((.ok (f b) : Except ε α), g b)) ≠ some (.error e, s) := by
  cases x <;> simp

theorem AtomicOn.of_same {ω : Type u} {view : σ → ω} {c : Call ε σ α} {s : σ}
    (h : ∀ e s', exec c s = some (.error e, s') → s' = s) : AtomicOn view c s :=
  fun e s' he => congrArg view (h e s' he)

theorem atomicOn_ofExcept_bind {ω : Type u} {view : σ → ω} {r : Except ε α}
    {f : α → Call ε σ β} {s : σ} :
    AtomicOn view (ofExcept r >>= f) s ↔ ∀ a, r = .ok a → AtomicOn view (f a) s := by
  unfold AtomicOn
  cases r with
  | error e =>
    rw [exec_bind_error (exec_ofExcept _ s)]
    simp
  | ok a =>
    rw [exec_bind_ok (exec_ofExcept _ s)]
    simp

theorem atomicOn_self_bind {ω : Type u} {view : σ → ω} {f : σ → Call ε σ β} {s : σ} :
    AtomicOn view (self >>= f) s ↔ AtomicOn view (f s) s := by
  unfold AtomicOn
  rw [exec_bind_ok (exec_self s)]

theorem fails_ofExcept_bind {r : Except ε α} {f : α → Call ε σ β} {s : σ} :
    Fails (ofExcept r >>= f) s ↔ (∃ e, r = .error e) ∨ ∃ a, r = .ok a ∧ Fails (f a) s := by
  unfold Fails
  cases r with
  | error e =>
    rw [exec_bind_error (exec_ofExcept _ s)]
    simp
  | ok a =>
    rw [exec_bind_ok (exec_ofExcept _ s)]
    simp

theorem fails_self_bind {f : σ → Call ε σ β} {s : σ} : Fails (self >>= f) s ↔ Fails (f s) s := by
  unfold Fails
  rw [exec_bind_ok (exec_self s)]

/-- A call on a receiver that stands behind a larger one. -/
def within (wrap : τ → σ) (c : Call ε τ α) (t : τ) : Option (Except ε α × σ) :=
  (exec c t).map fun r => (r.1, wrap r.2)

theorem within_eq_some {wrap : τ → σ} {c : Call ε τ α} {t : τ} {r : Except ε α} {s : σ} :
    within wrap c t = some (r, s) ↔ ∃ t', exec c t = some (r, t') ∧ s = wrap t' := by
  unfold within
  cases exec c t with
  | none => simp
  | some x =>
    obtain ⟨x, t'⟩ := x
    simp only [Option.map_some, Option.some.injEq, Prod.mk.injEq]
    constructor
    · rintro ⟨rfl, rfl⟩
      exact ⟨t', ⟨rfl, rfl⟩, rfl⟩
    · rintro ⟨u, ⟨rfl, rfl⟩, rfl⟩
      exact ⟨rfl, rfl⟩

theorem failed_within (wrap : τ → σ) (c : Call ε τ α) (t : τ) :
    Failed (within wrap c t) ↔ Fails c t := by
  constructor
  · rintro ⟨e, s, h⟩
    obtain ⟨t', hexec, -⟩ := within_eq_some.mp h
    exact ⟨e, t', hexec⟩
  · rintro ⟨e, t', hexec⟩
    exact ⟨e, wrap t', within_eq_some.mpr ⟨t', hexec, rfl⟩⟩

theorem fails_mapOk {f : α → β} {c : Call ε σ α} {s : σ} : Fails (mapOk f c) s ↔ Fails c s := by
  unfold Fails Failed
  show (∃ e t, (exec c s).map _ = _) ↔ _
  cases exec c s with
  | none => simp
  | some r =>
    obtain ⟨r, t⟩ := r
    cases r <;> simp [Except.map]

theorem fails_mapErr {δ : Type u} {f : δ → ε} {c : Call δ σ α} {s : σ} :
    Fails (mapErr f c) s ↔ Fails c s := by
  unfold Fails Failed
  show (∃ e t, (exec c s).map _ = _) ↔ _
  cases exec c s with
  | none => simp
  | some r =>
    obtain ⟨r, t⟩ := r
    cases r <;> simp

theorem fails_focus {get : σ → τ} {set : τ → σ → σ} {c : Call ε τ α} {s : σ} :
    Fails (focus get set c) s ↔ Fails c (get s) := by
  unfold Fails Failed
  rw [exec_focus]
  cases exec c (get s) with
  | none => simp
  | some r =>
    obtain ⟨r, t⟩ := r
    simp

theorem fails_bind {c : Call ε σ α} {f : α → Call ε σ β} {s : σ} :
    Fails (c >>= f) s ↔ Fails c s ∨ ∃ a s', exec c s = some (.ok a, s') ∧ Fails (f a) s' := by
  unfold Fails Failed
  rw [exec_bind]
  cases exec c s with
  | none => simp
  | some r =>
    obtain ⟨r, t⟩ := r
    cases r with
    | error e => simp
    | ok a =>
      simp only [Option.bind_some, Option.some.injEq, Prod.mk.injEq, reduceCtorEq, false_and,
        exists_false, false_or]
      constructor
      · exact fun h => ⟨a, t, ⟨rfl, rfl⟩, h⟩
      · rintro ⟨_, _, ⟨⟨⟩, rfl⟩, h⟩
        exact h

theorem fails_errorIf_bind {p : Prop} [Decidable p] {e : ε} {f : PUnit → Call ε σ β} {s : σ} :
    Fails (errorIf p e >>= f) s ↔ p ∨ Fails (f ⟨⟩) s := by
  unfold Fails
  rw [exec_errorIf_bind, failed_ite]
  by_cases hp : p <;> simp [hp]

theorem fails_throw (e : ε) (s : σ) : Fails (throw e : Call ε σ α) s := ⟨e, s, rfl⟩

/-- A check that returns nothing. -/
theorem fails_check_bind {r : Except ε PUnit} {f : PUnit → Call ε σ β} {s : σ} :
    Fails (ofExcept r >>= f) s ↔ r ≠ .ok ⟨⟩ ∨ Fails (f ⟨⟩) s := by
  rw [fails_ofExcept_bind]
  cases r with
  | error e => simp
  | ok a =>
    simp only [reduceCtorEq, exists_false, false_or, ne_eq, not_true_eq_false]
    constructor
    · rintro ⟨_, -, h⟩
      exact h
    · exact fun h => ⟨⟨⟩, trivial, h⟩

theorem fails_ofExcept {r : Except ε α} {s : σ} :
    Fails (ofExcept r) s ↔ ∃ e, r = .error e := by
  unfold Fails Failed
  rw [exec_ofExcept]
  simp

/-- A call that never comes back with an error. -/
def Infallible (c : Call ε σ α) : Prop := ∀ s, ¬ Fails c s

namespace Infallible

theorem pure (a : α) : Infallible (pure a : Call ε σ α) := fun _ => failed_ok _ _

theorem self : Infallible (self : Call ε σ σ) := fun _ => failed_ok _ _

theorem update (f : σ → σ) : Infallible (update f : Call ε σ PUnit) := fun _ => failed_ok _ _

theorem orPanic (r : Option α) : Infallible (orPanic r : Call ε σ α) := by
  intro s
  unfold Fails
  rw [exec_orPanic]
  exact failed_map_ok _ _ _

theorem stuck : Infallible (stuck : Call ε σ α) := by
  rintro s ⟨e, s', h⟩
  cases h

theorem bind {c : Call ε σ α} {f : α → Call ε σ β} (hc : Infallible c)
    (hf : ∀ a, Infallible (f a)) : Infallible (c >>= f) := by
  intro s h
  rcases fails_bind.mp h with h | ⟨a, s', -, h⟩
  · exact hc s h
  · exact hf a s' h

theorem ite {p : Prop} [Decidable p] {c d : Call ε σ α} (hc : Infallible c) (hd : Infallible d) :
    Infallible (if p then c else d) := by
  split
  · exact hc
  · exact hd

/-- What comes after the last check does not fail. -/
theorem fails_bind {c : Call ε σ α} {f : α → Call ε σ β} (hf : ∀ a, Infallible (f a)) {s : σ} :
    Fails (c >>= f) s ↔ Fails c s := by
  rw [Call.fails_bind]
  constructor
  · rintro (h | ⟨a, s', -, h⟩)
    · exact h
    · exact absurd h (hf a s')
  · exact Or.inl

end Infallible

/-- A call that never changes a part of the receiver. -/
def Keeps {ω : Type u} (view : σ → ω) (c : Call ε σ α) : Prop :=
  ∀ s r s', exec c s = some (r, s') → view s' = view s

namespace Keeps
variable {ω : Type u} {view : σ → ω}

theorem pure (a : α) : Keeps view (pure a : Call ε σ α) := by
  intro s r s' h
  cases h
  rfl

theorem throw (e : ε) : Keeps view (throw e : Call ε σ α) := by
  intro s r s' h
  cases h
  rfl

theorem self : Keeps view (self : Call ε σ σ) := by
  intro s r s' h
  cases h
  rfl

theorem stuck : Keeps view (stuck : Call ε σ α) := by
  intro s r s' h
  cases h

theorem orPanic (r : Option α) : Keeps view (orPanic r : Call ε σ α) := by
  intro s x s' h
  rw [exec_orPanic] at h
  obtain ⟨a, -, heq⟩ := Option.map_eq_some_iff.mp h
  cases heq
  rfl

theorem update {f : σ → σ} (hf : ∀ s, view (f s) = view s) :
    Keeps view (update f : Call ε σ PUnit) := by
  intro s r s' h
  cases h
  exact hf s

theorem bind {c : Call ε σ α} {f : α → Call ε σ β} (hc : Keeps view c)
    (hf : ∀ a, Keeps view (f a)) : Keeps view (c >>= f) := by
  intro s r s' h
  rw [exec_bind] at h
  obtain ⟨⟨x | a, s₁⟩, h₁, h₂⟩ := Option.bind_eq_some_iff.mp h
  · cases h₂
    exact hc s _ _ h₁
  · exact (hf a s₁ r s' h₂).trans (hc s _ _ h₁)

theorem ite {p : Prop} [Decidable p] {c d : Call ε σ α} (hc : Keeps view c) (hd : Keeps view d) :
    Keeps view (if p then c else d) := by
  split
  · exact hc
  · exact hd

end Keeps

/-- What the call returns when it comes back well. -/
def Returns (c : Call ε σ α) (s : σ) (a : α) : Prop := ∃ s', exec c s = some (.ok a, s')

theorem returns_focus {get : σ → τ} {set : τ → σ → σ} {c : Call ε τ α} {s : σ} {a : α} :
    Returns (focus get set c) s a ↔ Returns c (get s) a := by
  unfold Returns
  rw [exec_focus]
  cases exec c (get s) with
  | none => simp
  | some r =>
    obtain ⟨r, t⟩ := r
    simp

theorem attempt_returns_error {δ : Type u} {c : Call δ σ α} {s : σ} :
    (∃ e, Returns (attempt c : Call ε σ (Except δ α)) s (.error e)) ↔ Fails c s := by
  unfold Returns Fails Failed
  show (∃ e t, (exec c s).map _ = _) ↔ _
  cases exec c s with
  | none => simp
  | some r =>
    obtain ⟨r, t⟩ := r
    simp

theorem Infallible.attempt {δ : Type u} (c : Call δ σ α) :
    Infallible (attempt c : Call ε σ (Except δ α)) := fun _ => failed_map_ok _ _ _

/-- What comes next may fail on the value alone. -/
theorem fails_bind_value {c : Call ε σ α} {f : α → Call ε σ β} {P : α → Prop}
    (hf : ∀ a s, Fails (f a) s ↔ P a) {s : σ} :
    Fails (c >>= f) s ↔ Fails c s ∨ ∃ a, Returns c s a ∧ P a := by
  rw [fails_bind]
  simp only [hf, Returns]
  constructor
  · rintro (h | ⟨a, s', hexec, ha⟩)
    · exact Or.inl h
    · exact Or.inr ⟨a, ⟨s', hexec⟩, ha⟩
  · rintro (h | ⟨a, ⟨s', hexec⟩, ha⟩)
    · exact Or.inl h
    · exact Or.inr ⟨a, s', hexec, ha⟩

theorem returns_within {wrap : τ → σ} {c : Call ε τ α} {d : Call ε σ α} {t : τ} {a : α}
    (hd : exec d (wrap t) = within wrap c t) : Returns d (wrap t) a ↔ Returns c t a := by
  unfold Returns
  rw [hd]
  constructor
  · rintro ⟨s, h⟩
    obtain ⟨t', hexec, -⟩ := within_eq_some.mp h
    exact ⟨t', hexec⟩
  · rintro ⟨t', hexec⟩
    exact ⟨wrap t', within_eq_some.mpr ⟨t', hexec, rfl⟩⟩

/-- The call does not panic. -/
def ComesBack (c : Call ε σ α) (s : σ) : Prop := ∃ r s', exec c s = some (r, s')

theorem comesBack_bind_ok {c : Call ε σ α} {f : α → Call ε σ β} {s s' : σ} {a : α}
    (h : exec c s = some (.ok a, s')) : ComesBack (c >>= f) s ↔ ComesBack (f a) s' := by
  unfold ComesBack
  rw [exec_bind_ok h]

theorem comesBack_self_bind {f : σ → Call ε σ β} {s : σ} :
    ComesBack (self >>= f) s ↔ ComesBack (f s) s := comesBack_bind_ok (exec_self s)

theorem comesBack_update_bind {f : σ → σ} {g : PUnit → Call ε σ β} {s : σ} :
    ComesBack (update f >>= g) s ↔ ComesBack (g ⟨⟩) (f s) := comesBack_bind_ok (exec_update f s)

theorem comesBack_pure (a : α) (s : σ) : ComesBack (pure a : Call ε σ α) s := ⟨_, _, rfl⟩

theorem comesBack_update (f : σ → σ) (s : σ) : ComesBack (update f : Call ε σ PUnit) s :=
  ⟨_, _, rfl⟩

/-- A call comes back up to the point where it panics. -/
theorem ComesBack.left {c : Call ε σ α} {f : α → Call ε σ β} {s : σ} (h : ComesBack (c >>= f) s) :
    ComesBack c s := by
  obtain ⟨r, s', hexec⟩ := h
  rw [exec_bind] at hexec
  obtain ⟨⟨r₁, s₁⟩, hfirst, -⟩ := Option.bind_eq_some_iff.mp hexec
  exact ⟨r₁, s₁, hfirst⟩

/-- A step that only reads off a value panics when there is none. -/
theorem comesBack_orPanic_bind {r : Option α} {f : α → Call ε σ β} {s : σ} :
    ComesBack (orPanic r >>= f) s ↔ ∃ a, r = some a ∧ ComesBack (f a) s := by
  cases r with
  | none =>
    constructor
    · intro h
      obtain ⟨r, s', hexec⟩ := h.left
      cases hexec
    · rintro ⟨a, h, -⟩
      cases h
  | some a =>
    apply (comesBack_bind_ok (exec_orPanic (some a) s)).trans
    constructor
    · exact fun h => ⟨a, rfl, h⟩
    · rintro ⟨_, ⟨⟩, h⟩
      exact h

/-- From a state with `P` the call comes back, and the value it returns and the state it leaves
have `Q`. -/
def Ensures (P : σ → Prop) (c : Call ε σ α) (Q : α → σ → Prop) : Prop :=
  ∀ s, P s → ∃ r s', exec c s = some (r, s') ∧ ∀ a, r = .ok a → Q a s'

namespace Ensures
variable {P P' : σ → Prop} {Q R : α → σ → Prop} {T : β → σ → Prop}

theorem bind {c : Call ε σ α} {f : α → Call ε σ β} (hc : Ensures P c Q)
    (hf : ∀ a, Ensures (Q a) (f a) T) : Ensures P (c >>= f) T := by
  intro s hs
  obtain ⟨r, s₁, hexec, hr⟩ := hc s hs
  rcases r with e | a
  · refine ⟨.error e, s₁, exec_bind_error hexec, ?_⟩
    intro b hb
    cases hb
  · obtain ⟨r', s', hexec', hr'⟩ := hf a s₁ (hr a rfl)
    exact ⟨r', s', (exec_bind_ok hexec).trans hexec', hr'⟩

theorem of_exec {c : Call ε σ α} (h : ∀ s, P s → ∃ a s', exec c s = some (.ok a, s') ∧ Q a s') :
    Ensures P c Q := by
  intro s hs
  obtain ⟨a, s', hexec, hq⟩ := h s hs
  refine ⟨.ok a, s', hexec, ?_⟩
  intro b hb
  cases hb
  exact hq

theorem pure {a : α} (h : ∀ s, P s → Q a s) : Ensures P (pure a : Call ε σ α) Q :=
  of_exec fun s hs => ⟨a, s, rfl, h s hs⟩

theorem mono {c : Call ε σ α} (h : Ensures P c Q) (hP : ∀ s, P' s → P s)
    (hQ : ∀ a s, Q a s → R a s) : Ensures P' c R := by
  intro s hs
  obtain ⟨r, s', hexec, hr⟩ := h s (hP s hs)
  exact ⟨r, s', hexec, fun a ha => hQ a s' (hr a ha)⟩

theorem throw (e : ε) : Ensures P (throw e : Call ε σ α) Q := by
  intro s _
  refine ⟨.error e, s, rfl, ?_⟩
  intro a ha
  cases ha

theorem of_false {c : Call ε σ α} (h : ∀ s, ¬ P s) : Ensures P c Q :=
  fun s hs => absurd hs (h s)

theorem orPanic {r : Option α} (h : ∀ s, P s → ∃ a, r = some a ∧ Q a s) :
    Ensures P (orPanic r : Call ε σ α) Q := by
  refine of_exec fun s hs => ?_
  obtain ⟨a, rfl, hq⟩ := h s hs
  exact ⟨a, s, rfl, hq⟩

theorem ite {p : Prop} [Decidable p] {c d : Call ε σ α} (hc : p → Ensures P c Q)
    (hd : ¬ p → Ensures P d Q) : Ensures P (if p then c else d) Q := by
  split
  · exact hc ‹p›
  · exact hd ‹¬ p›

/-- The receiver read is the state the rest runs on. -/
theorem self_bind {f : σ → Call ε σ β} (h : ∀ s, P s → Ensures (· = s) (f s) T) :
    Ensures P (self >>= f) T := by
  intro s hs
  rw [exec_bind_ok (exec_self s)]
  exact h s hs s rfl

theorem update {f : σ → σ} {Q : PUnit → σ → Prop} (h : ∀ s, P s → Q ⟨⟩ (f s)) :
    Ensures P (update f : Call ε σ PUnit) Q :=
  of_exec fun s hs => ⟨⟨⟩, f s, rfl, h s hs⟩

end Ensures

end Call

end ExtKtrace
