import Mathlib.Data.Nat.Basic

/-!
# Slots of one size in a flat list

Slot `i` is the `n` elements from position `i * n` on. Slots are disjoint, so overwriting one
leaves the others as they were.
-/

namespace ExtKtrace.Slots
set_option autoImplicit false

universe u
variable {α : Type u} {n i j : Nat}

def slot (n : Nat) (xs : List α) (i : Nat) : List α := (xs.take (i * n + n)).drop (i * n)

def setSlot (n : Nat) (xs : List α) (i : Nat) (v : List α) : List α :=
  xs.take (i * n) ++ v ++ xs.drop (i * n + n)

/-- A slot ends before a later one begins. -/
theorem stop_le_start (hij : i < j) : i * n + n ≤ j * n := by
  rw [← Nat.succ_mul]
  exact Nat.mul_le_mul_right n hij

theorem stop_le_of_lt {k : Nat} (hi : i < k) : i * n + n ≤ n * k := by
  rw [Nat.mul_comm n k]
  exact stop_le_start hi

theorem apart_of_ne (hij : i ≠ j) : i * n + n ≤ j * n ∨ j * n + n ≤ i * n := by
  rcases Nat.lt_or_gt_of_ne hij with h | h
  · exact Or.inl (stop_le_start h)
  · exact Or.inr (stop_le_start h)

theorem length_slot {xs : List α} (hi : i * n + n ≤ xs.length) : (slot n xs i).length = n := by
  simp only [slot, List.length_drop, List.length_take]
  omega

theorem length_setSlot {xs v : List α} (hi : i * n + n ≤ xs.length) (hv : v.length = n) :
    (setSlot n xs i v).length = xs.length := by
  simp only [setSlot, List.length_append, List.length_take, List.length_drop]
  omega

theorem slot_replicate {a : α} {len : Nat} (hi : i * n + n ≤ len) :
    slot n (List.replicate len a) i = List.replicate n a := by
  rw [slot, List.take_replicate, List.drop_replicate]
  congr 1
  omega

theorem slot_setSlot_self {xs v : List α} (hi : i * n + n ≤ xs.length) (hv : v.length = n) :
    slot n (setSlot n xs i v) i = v := by
  have hstart : (xs.take (i * n)).length = i * n := by
    rw [List.length_take]
    omega
  have hstop : (xs.take (i * n) ++ v).length = i * n + n := by
    rw [List.length_append, hstart, hv]
  rw [slot, setSlot, List.take_left' hstop, List.drop_left' hstart]

theorem getElem?_setSlot_outside {xs v : List α} {k : Nat} (hi : i * n + n ≤ xs.length)
    (hv : v.length = n) (hk : k < i * n ∨ i * n + n ≤ k) : (setSlot n xs i v)[k]? = xs[k]? := by
  have hstart : (xs.take (i * n)).length = i * n := by
    rw [List.length_take]
    omega
  have hstop : (xs.take (i * n) ++ v).length = i * n + n := by
    rw [List.length_append, hstart, hv]
  rcases hk with hk | hk
  · rw [setSlot, List.append_assoc, List.getElem?_append_left (by omega),
      List.getElem?_take_of_lt hk]
  · rw [setSlot, List.getElem?_append_right (by omega), hstop, List.getElem?_drop]
    congr 1
    omega

theorem slot_setSlot_of_ne {xs v : List α} (hi : i * n + n ≤ xs.length) (hv : v.length = n)
    (hij : i ≠ j) : slot n (setSlot n xs i v) j = slot n xs j := by
  apply List.ext_getElem?
  intro k
  simp only [slot, List.getElem?_drop, List.getElem?_take]
  split
  · have hout : j * n + k < i * n ∨ i * n + n ≤ j * n + k := by
      rcases apart_of_ne (n := n) hij with h | h <;> omega
    rw [getElem?_setSlot_outside hi hv hout]
  · rfl

section
universe v
variable {β : Type v} {f : β → List α}

theorem length_flatMap (hf : ∀ b, (f b).length = n) (l : List β) :
    (l.flatMap f).length = l.length * n := by
  induction l with
  | nil => rw [List.flatMap_nil, List.length_nil, List.length_nil, Nat.zero_mul]
  | cons b l ih =>
    rw [List.flatMap_cons, List.length_append, hf, ih, List.length_cons, Nat.add_mul, Nat.one_mul,
      Nat.add_comm]

theorem getElem?_flatMap (hn : 0 < n) (hf : ∀ b, (f b).length = n) (l : List β) (k : Nat) :
    (l.flatMap f)[k]? = l[k / n]?.bind fun b => (f b)[k % n]? := by
  induction l generalizing k with
  | nil => rw [List.flatMap_nil, List.getElem?_nil, List.getElem?_nil, Option.bind_none]
  | cons b l ih =>
    rw [List.flatMap_cons]
    rcases Nat.lt_or_ge k n with hfirst | hlater
    · have hlt : k < (f b).length := by
        rw [hf]
        exact hfirst
      rw [List.getElem?_append_left hlt, Nat.div_eq_of_lt hfirst, Nat.mod_eq_of_lt hfirst,
        List.getElem?_cons_zero, Option.bind_some]
    · have hle : (f b).length ≤ k := by
        rw [hf]
        exact hlater
      have hdiv : k / n = (k - n) / n + 1 := Nat.div_eq_sub_div hn hlater
      rw [List.getElem?_append_right hle, hf, ih, hdiv, List.getElem?_cons_succ,
        Nat.mod_eq_sub_mod hlater]

end

end ExtKtrace.Slots
