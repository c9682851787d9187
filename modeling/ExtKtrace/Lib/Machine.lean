import Mathlib.Logic.Relation

/-!
# Runs of machines

Two shapes of run: a deterministic machine that may stop (`none`) and answers every input,
and a transition relation. Each has one induction, stated here once.
-/

namespace ExtKtrace.Machine
set_option autoImplicit false

universe u v w x
variable {σ : Type u} {τ : Type v} {ι : Type w} {ω : Type x}

/-- Feed a list of inputs; `none` as soon as one step stops. -/
def run (step : σ → ι → Option (ω × σ)) : σ → List ι → Option (List ω × σ)
  | s, [] => some ([], s)
  | s, i :: is =>
    match step s i with
    | none => none
    | some (o, s') => (run step s' is).map fun r => (o :: r.1, r.2)

theorem run_invariant {step : σ → ι → Option (ω × σ)} {Inv : σ → Prop}
    (hstep : ∀ s i o s', Inv s → step s i = some (o, s') → Inv s') (is : List ι) {s : σ}
    (hs : Inv s) {os : List ω} {s' : σ} (hrun : run step s is = some (os, s')) : Inv s' := by
  induction is generalizing s os with
  | nil =>
    cases hrun
    exact hs
  | cons i is ih =>
    unfold run at hrun
    split at hrun
    · cases hrun
    · rename_i o s₁ hnext
      obtain ⟨⟨os', s₂⟩, hrest, heq⟩ := Option.map_eq_some_iff.mp hrun
      cases heq
      exact ih (hstep s i o s₁ hs hnext) hrest

/-- `step` answers the inputs with `A` as the total machine `spec` does, and keeps the states
related. -/
def RefinesOn (A : ι → Prop) (R : σ → τ → Prop) (step : σ → ι → Option (ω × σ))
    (spec : τ → ι → ω × τ) : Prop :=
  ∀ s t i, A i → R s t → ∃ s', step s i = some ((spec t i).1, s') ∧ R s' (spec t i).2

def Refines (R : σ → τ → Prop) (step : σ → ι → Option (ω × σ)) (spec : τ → ι → ω × τ) : Prop :=
  ∀ s t i, R s t → ∃ s', step s i = some ((spec t i).1, s') ∧ R s' (spec t i).2

def specRun (spec : τ → ι → ω × τ) : τ → List ι → List ω × τ
  | t, [] => ([], t)
  | t, i :: is =>
    let r := specRun spec (spec t i).2 is
    ((spec t i).1 :: r.1, r.2)

section Refinement
variable {R : σ → τ → Prop} {step : σ → ι → Option (ω × σ)} {spec : τ → ι → ω × τ}

theorem RefinesOn.run {A : ι → Prop} (h : RefinesOn A R step spec) {is : List ι}
    (his : ∀ i ∈ is, A i) {s : σ} {t : τ} (hst : R s t) :
    ∃ s', Machine.run step s is = some ((specRun spec t is).1, s') ∧
      R s' (specRun spec t is).2 := by
  induction is generalizing s t with
  | nil => exact ⟨s, rfl, hst⟩
  | cons i is ih =>
    obtain ⟨hi, hrest⟩ := List.forall_mem_cons.mp his
    obtain ⟨s₁, hstep, hs₁⟩ := h s t i hi hst
    obtain ⟨s', hrun, hs'⟩ := ih hrest hs₁
    exact ⟨s', by simp [Machine.run, specRun, hstep, hrun], hs'⟩

theorem Refines.run (h : Refines R step spec) (is : List ι) {s : σ} {t : τ} (hst : R s t) :
    ∃ s', Machine.run step s is = some ((specRun spec t is).1, s') ∧
      R s' (specRun spec t is).2 :=
  RefinesOn.run (A := fun _ => True) (fun s t i _ => h s t i) (fun _ _ => trivial) hst

end Refinement

/-- No step of a run stops, and each has `P`. -/
def AllSteps (step : σ → ι → Option (ω × σ)) (P : σ → ι → ω → σ → Prop) : σ → List ι → Prop
  | _, [] => True
  | s, i :: is => ∃ o s', step s i = some (o, s') ∧ P s i o s' ∧ AllSteps step P s' is

/-- What is the same for every step from a state with the invariant is the same for a run. -/
theorem allSteps_congr {step : σ → ι → Option (ω × σ)} {Inv : σ → Prop}
    {P Q : σ → ι → ω → σ → Prop}
    (h : ∀ s i, Inv s → ∃ o s', step s i = some (o, s') ∧ Inv s' ∧ (P s i o s' ↔ Q s i o s'))
    (is : List ι) {s : σ} (hs : Inv s) : AllSteps step P s is ↔ AllSteps step Q s is := by
  induction is generalizing s with
  | nil => exact Iff.rfl
  | cons i is ih =>
    obtain ⟨o, s', hstep, hs', hiff⟩ := h s i hs
    constructor
    · rintro ⟨o₁, s₁, hstep₁, hP, hrest⟩
      cases hstep.symm.trans hstep₁
      exact ⟨o, s', hstep, hiff.mp hP, (ih hs').mp hrest⟩
    · rintro ⟨o₁, s₁, hstep₁, hQ, hrest⟩
      cases hstep.symm.trans hstep₁
      exact ⟨o, s', hstep, hiff.mpr hQ, (ih hs').mpr hrest⟩

/-- `C` holds of every state that a run comes to and of the input that waits there. -/
def Along (step : σ → ι → Option (ω × σ)) (C : σ → ι → Prop) : σ → List ι → Prop
  | _, [] => True
  | s, i :: is => C s i ∧ ∀ o s', step s i = some (o, s') → Along step C s' is

/-- What the steps keep under a condition, a run keeps whose steps all meet it. -/
theorem run_invariant_along {step : σ → ι → Option (ω × σ)} {Inv : σ → Prop} {C : σ → ι → Prop}
    (hstep : ∀ s i o s', Inv s → C s i → step s i = some (o, s') → Inv s') (is : List ι) {s : σ}
    (hs : Inv s) (hC : Along step C s is) {os : List ω} {s' : σ}
    (hrun : run step s is = some (os, s')) : Inv s' := by
  induction is generalizing s os with
  | nil =>
    cases hrun
    exact hs
  | cons i is ih =>
    unfold run at hrun
    split at hrun
    · cases hrun
    · rename_i o s₁ hnext
      obtain ⟨⟨os', s₂⟩, hrest, heq⟩ := Option.map_eq_some_iff.mp hrun
      cases heq
      exact ih (hstep s i o s₁ hs hC.1 hnext) (hC.2 o s₁ hnext) hrest

theorem along_congr {step : σ → ι → Option (ω × σ)} {Inv : σ → Prop} {C D : σ → ι → Prop}
    (hstep : ∀ s i o s', Inv s → step s i = some (o, s') → Inv s')
    (h : ∀ s i, Inv s → (C s i ↔ D s i)) (is : List ι) {s : σ} (hs : Inv s) :
    Along step C s is ↔ Along step D s is := by
  induction is generalizing s with
  | nil => exact Iff.rfl
  | cons i is ih =>
    apply and_congr (h s i hs)
    constructor
    · intro hrest o s' hnext
      exact (ih (hstep s i o s' hs hnext)).mp (hrest o s' hnext)
    · intro hrest o s' hnext
      exact (ih (hstep s i o s' hs hnext)).mpr (hrest o s' hnext)

/-- When `C` says exactly which steps do not stop and have `P`, it says so of runs. -/
theorem allSteps_iff_along {step : σ → ι → Option (ω × σ)} {P : σ → ι → ω → σ → Prop}
    {C : σ → ι → Prop} (h : ∀ s i, (∃ o s', step s i = some (o, s') ∧ P s i o s') ↔ C s i)
    (is : List ι) (s : σ) : AllSteps step P s is ↔ Along step C s is := by
  induction is generalizing s with
  | nil => exact Iff.rfl
  | cons i is ih =>
    constructor
    · rintro ⟨o, s', hstep, hP, hrest⟩
      refine ⟨(h s i).mp ⟨o, s', hstep, hP⟩, ?_⟩
      intro o₁ s₁ hstep₁
      cases hstep.symm.trans hstep₁
      exact (ih s').mp hrest
    · rintro ⟨hC, hrest⟩
      obtain ⟨o, s', hstep, hP⟩ := (h s i).mpr hC
      exact ⟨o, s', hstep, hP, (ih s').mpr (hrest o s' hstep)⟩

/-- When the steps that do not stop and have `P` can be told by their inputs alone, so can runs. -/
theorem allSteps_iff_forall {step : σ → ι → Option (ω × σ)} {P : σ → ι → ω → σ → Prop}
    {C : ι → Prop} (h : ∀ s i, (∃ o s', step s i = some (o, s') ∧ P s i o s') ↔ C i)
    (is : List ι) (s : σ) : AllSteps step P s is ↔ ∀ i ∈ is, C i := by
  induction is generalizing s with
  | nil => exact iff_of_true trivial fun i hi => absurd hi List.not_mem_nil
  | cons i is ih =>
    rw [List.forall_mem_cons]
    constructor
    · rintro ⟨o, s', hstep, hP, hrest⟩
      exact ⟨(h s i).mp ⟨o, s', hstep, hP⟩, (ih s').mp hrest⟩
    · rintro ⟨hC, hrest⟩
      obtain ⟨o, s', hstep, hP⟩ := (h s i).mpr hC
      exact ⟨o, s', hstep, hP, (ih s').mpr hrest⟩

/-- The states a transition relation reaches from an initial one. -/
def Reachable (init : σ → Prop) (step : σ → σ → Prop) (s : σ) : Prop :=
  ∃ s₀, init s₀ ∧ Relation.ReflTransGen step s₀ s

section Reachable
variable {init : σ → Prop} {step : σ → σ → Prop}

theorem Reachable.start {s : σ} (h : init s) : Reachable init step s := ⟨s, h, .refl⟩

theorem Reachable.next {s s' : σ} (hs : Reachable init step s) (h : step s s') :
    Reachable init step s' := by
  obtain ⟨s₀, h₀, hrun⟩ := hs
  exact ⟨s₀, h₀, hrun.tail h⟩

theorem Reachable.mono {step' : σ → σ → Prop} (h : ∀ s s', step s s' → step' s s') {s : σ}
    (hs : Reachable init step s) : Reachable init step' s := by
  obtain ⟨s₀, h₀, hrun⟩ := hs
  exact ⟨s₀, h₀, Relation.ReflTransGen.mono h _ _ hrun⟩

theorem Reachable.invariant {Inv : σ → Prop} (hinit : ∀ s, init s → Inv s)
    (hstep : ∀ s s', Inv s → step s s' → Inv s') {s : σ} (hs : Reachable init step s) :
    Inv s := by
  obtain ⟨s₀, h₀, hrun⟩ := hs
  induction hrun with
  | refl => exact hinit s₀ h₀
  | tail _ h ih => exact hstep _ _ ih h

end Reachable

end ExtKtrace.Machine
