import Mathlib.Logic.Basic

/-!
# Outcomes

What a call without state ends in: a fault that unwinds, an error it returns, or a value.
-/

namespace ExtKtrace
set_option autoImplicit false

universe u

abbrev Outcome (φ ε α : Type u) := ExceptT ε (Except φ) α

namespace Outcome
variable {φ ε α β : Type u}

def result (c : Outcome φ ε α) : Except φ (Except ε α) := c

def fault (f : φ) : Outcome φ ε α := (.error f : Except φ (Except ε α))

/-- A value that is an error already, or a fault. -/
def ofResult (r : Except φ (Except ε α)) : Outcome φ ε α := r

@[simp] theorem result_pure (a : α) : result (pure a : Outcome φ ε α) = .ok (.ok a) := rfl

@[simp] theorem result_throw (e : ε) : result (throw e : Outcome φ ε α) = .ok (.error e) := rfl

@[simp] theorem result_fault (f : φ) : result (fault f : Outcome φ ε α) = .error f := rfl

@[simp] theorem result_ofResult (r : Except φ (Except ε α)) :
    result (ofResult r : Outcome φ ε α) = r := rfl

theorem result_bind (c : Outcome φ ε α) (f : α → Outcome φ ε β) :
    result (c >>= f) = match result c with
      | .error x => .error x
      | .ok (.error e) => .ok (.error e)
      | .ok (.ok a) => result (f a) := by
  show Except.bind c (ExceptT.bindCont f) = _
  unfold result
  rcases c with x | e | a <;> rfl

theorem result_bind_ok {c : Outcome φ ε α} {f : α → Outcome φ ε β} {a : α}
    (h : result c = .ok (.ok a)) : result (c >>= f) = result (f a) := by
  rw [result_bind, h]

end Outcome

end ExtKtrace
