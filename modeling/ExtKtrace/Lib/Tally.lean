import Mathlib.Algebra.GroupWithZero.Nat
import Mathlib.Data.List.AList

/-!
# Sums over finite maps

A weight on values, summed over the entries of a map: what one insertion or removal adds to
it or takes away.
-/

namespace ExtKtrace
set_option autoImplicit false

universe u v

/-- A finite map, as the list of its entries. -/
abbrev Table (κ : Type u) (β : Type v) := AList fun _ : κ => β

namespace Table
variable {κ : Type u} {β : Type v}

def tally (w : β → Nat) (m : Table κ β) : Nat := (m.entries.map fun e => w e.2).sum

@[simp] theorem tally_empty (w : β → Nat) : tally w (∅ : Table κ β) = 0 := rfl

variable [DecidableEq κ]

theorem sum_kerase (w : β → Nat) (k : κ) (l : List (Sigma fun _ : κ => β)) :
    ((l.kerase k).map fun e => w e.2).sum + (l.dlookup k).elim 0 w =
      (l.map fun e => w e.2).sum := by
  induction l with
  | nil => simp
  | cons e l ih =>
    by_cases h : k = e.1
    · subst h
      rw [List.kerase_cons_eq rfl, List.dlookup_cons_eq]
      simp [Nat.add_comm]
    · rw [List.kerase_cons_ne h, List.dlookup_cons_ne _ _ h]
      simp only [List.map_cons, List.sum_cons]
      omega

theorem tally_erase (w : β → Nat) (k : κ) (m : Table κ β) :
    tally w (m.erase k) + (m.lookup k).elim 0 w = tally w m :=
  sum_kerase w k m.entries

theorem tally_insert (w : β → Nat) (k : κ) (b : β) (m : Table κ β) :
    tally w (m.insert k b) + (m.lookup k).elim 0 w = tally w m + w b := by
  have h := sum_kerase w k m.entries
  simp only [tally, AList.entries_insert, List.map_cons, List.sum_cons]
  show w b + _ + (m.entries.dlookup k).elim 0 w = _
  omega

theorem tally_insert_new {w : β → Nat} {k : κ} {b : β} {m : Table κ β} (h : m.lookup k = none) :
    tally w (m.insert k b) = tally w m + w b := by
  have hsum := tally_insert w k b m
  simpa [h] using hsum

theorem le_tally {w : β → Nat} {k : κ} {b : β} {m : Table κ β} (h : m.lookup k = some b) :
    w b ≤ tally w m := by
  have hsum := tally_erase w k m
  rw [h] at hsum
  simp only [Option.elim_some] at hsum
  omega

/-- A value that weighs something is somewhere in a map whose tally is not zero. -/
theorem exists_of_tally_pos {w : β → Nat} {m : Table κ β} (h : 0 < tally w m) :
    ∃ k b, m.lookup k = some b ∧ 0 < w b := by
  obtain ⟨n, hn, hpos⟩ := List.sum_pos_iff_exists_pos_nat.mp h
  obtain ⟨⟨k, b⟩, hmem, rfl⟩ := List.mem_map.mp hn
  exact ⟨k, b, List.mem_dlookup m.nodupKeys hmem, hpos⟩

end Table

end ExtKtrace
