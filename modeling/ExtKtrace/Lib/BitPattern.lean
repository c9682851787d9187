import Mathlib.Logic.Basic

/-!
# Words with fixed bits

A row of an encoding table fixes some bits of a word and leaves the others to the operands. How
two rows are related can be read off their fixed bits alone.
-/

namespace ExtKtrace
set_option autoImplicit false

variable {w : Nat}

structure BitPattern (w : Nat) where
  /-- The bits that are fixed. -/
  mask : BitVec w
  value : BitVec w
  fixed : value &&& mask = value := by decide

namespace BitPattern

def Matches (p : BitPattern w) (x : BitVec w) : Prop := x &&& p.mask = p.value

instance (p : BitPattern w) (x : BitVec w) : Decidable (p.Matches x) :=
  inferInstanceAs (Decidable (_ = _))

/-- `q` fixes no bit that `p` does not, and none of them otherwise. -/
def Within (p q : BitPattern w) : Prop := q.mask &&& p.mask = q.mask ∧ p.value &&& q.mask = q.value

instance (p q : BitPattern w) : Decidable (p.Within q) := inferInstanceAs (Decidable (_ ∧ _))

/-- Some bit is fixed by both, and differently. -/
def Apart (p q : BitPattern w) : Prop := p.value &&& q.mask ≠ q.value &&& p.mask

instance (p q : BitPattern w) : Decidable (p.Apart q) := inferInstanceAs (Decidable (_ ≠ _))

/-- A single word. -/
def exactly (x : BitVec w) : BitPattern w := ⟨BitVec.allOnes w, x, BitVec.and_allOnes⟩

variable {p q : BitPattern w} {x : BitVec w}

theorem matches_exactly {y : BitVec w} : (exactly y).Matches x ↔ x = y := by
  unfold Matches exactly
  rw [BitVec.and_allOnes]

theorem Within.matches (h : p.Within q) (hx : p.Matches x) : q.Matches x := by
  obtain ⟨hmask, hvalue⟩ := h
  unfold Matches at hx ⊢
  calc x &&& q.mask = x &&& (q.mask &&& p.mask) := by rw [hmask]
    _ = x &&& p.mask &&& q.mask := by rw [BitVec.and_comm q.mask, BitVec.and_assoc]
    _ = q.value := by rw [hx, hvalue]

/-- The bits that both patterns fix cannot be read in two ways. -/
theorem Apart.not_matches (h : p.Apart q) (hx : p.Matches x) : ¬ q.Matches x := by
  intro hq
  apply h
  unfold Matches at hx hq
  rw [← hx, ← hq, BitVec.and_assoc, BitVec.and_assoc, BitVec.and_comm p.mask]

/-- A word of `p` matches one of the patterns. -/
theorem exists_matches {qs : List (BitPattern w)} (h : ∃ q ∈ qs, p.Within q) (hx : p.Matches x) :
    ∃ q ∈ qs, q.Matches x := by
  obtain ⟨q, hq, hwithin⟩ := h
  exact ⟨q, hq, hwithin.matches hx⟩

/-- No word of `p` matches any of the patterns. -/
theorem forall_not_matches {qs : List (BitPattern w)} (h : ∀ q ∈ qs, p.Apart q)
    (hx : p.Matches x) : ∀ q ∈ qs, ¬ q.Matches x :=
  fun q hq => (h q hq).not_matches hx

end BitPattern

end ExtKtrace
