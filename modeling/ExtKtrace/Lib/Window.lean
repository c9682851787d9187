import Mathlib.Algebra.GroupWithZero.Nat
import Mathlib.Data.List.Basic
import Mathlib.Order.Lattice

/-!
# What is left of a log

A bounded queue as its owner sees it: the log of all that was ever put in, and how much of its
beginning is gone. Nothing leaves from any other place.
-/

namespace ExtKtrace
set_option autoImplicit false

universe u
variable {α : Type u}

structure Window (α : Type u) where
  log : List α
  gone : Nat
  gone_le : gone ≤ log.length

namespace Window

theorem nothing_gone : 0 ≤ ([] : List α).length := Nat.zero_le _

def empty : Window α := ⟨[], 0, nothing_gone⟩

def contents (w : Window α) : List α := w.log.drop w.gone

/-- All but the newest `n` are gone. -/
def keep (n : Nat) (w : Window α) : Window α where
  log := w.log
  gone := max w.gone (w.log.length - n)
  gone_le := by have := w.gone_le; omega

/-- One more entry, of which no more than the newest `n` are kept. -/
def put (n : Nat) (a : α) (w : Window α) : Window α :=
  keep n { log := w.log ++ [a], gone := w.gone,
           gone_le := by have := w.gone_le; rw [List.length_append]; omega }

/-- The oldest that is left goes. -/
def take (w : Window α) : Window α where
  log := w.log
  gone := min (w.gone + 1) w.log.length
  gone_le := Nat.min_le_right _ _

def clear (w : Window α) : Window α := ⟨w.log, w.log.length, Nat.le_refl _⟩

@[simp] theorem contents_empty : (empty : Window α).contents = [] := rfl

theorem length_contents (w : Window α) : w.contents.length = w.log.length - w.gone := by
  rw [contents, List.length_drop]

theorem contents_keep (n : Nat) (w : Window α) :
    (w.keep n).contents = w.contents.drop (w.contents.length - n) := by
  have hle := w.gone_le
  have hgone : max w.gone (w.log.length - n) = w.gone + (w.log.length - w.gone - n) := by omega
  rw [length_contents, contents, contents, List.drop_drop]
  exact congrArg (List.drop · w.log) hgone

theorem length_keep_le (n : Nat) (w : Window α) : (w.keep n).contents.length ≤ n := by
  rw [contents_keep, List.length_drop]
  omega

theorem contents_put (n : Nat) (a : α) (w : Window α) :
    (w.put n a).contents = (w.contents ++ [a]).drop (w.contents.length + 1 - n) := by
  rw [put, contents_keep]
  simp only [contents, List.length_append, List.length_singleton, List.length_drop]
  rw [List.drop_append_of_le_length w.gone_le]
  have := w.gone_le
  congr 1
  omega

theorem length_put_le (n : Nat) (a : α) (w : Window α) : (w.put n a).contents.length ≤ n :=
  length_keep_le n _

theorem contents_take (w : Window α) : w.take.contents = w.contents.tail := by
  have hle := w.gone_le
  rw [contents, contents, List.tail_drop]
  show w.log.drop (min (w.gone + 1) w.log.length) = w.log.drop (w.gone + 1)
  rcases Nat.lt_or_ge w.gone w.log.length with h | h
  · rw [Nat.min_eq_left h]
  · rw [Nat.min_eq_right (by omega), List.drop_length, List.drop_eq_nil_of_le (by omega)]

@[simp] theorem contents_clear (w : Window α) : w.clear.contents = [] := List.drop_length

section Map
variable {β : Type u} (f : α → β)

def map (w : Window α) : Window β where
  log := w.log.map f
  gone := w.gone
  gone_le := by rw [List.length_map]; exact w.gone_le

theorem contents_map (w : Window α) : (w.map f).contents = w.contents.map f := List.map_drop.symm

theorem map_keep (n : Nat) (w : Window α) : (w.keep n).map f = (w.map f).keep n := by
  simp only [map, keep, List.length_map]

theorem map_put (n : Nat) (a : α) (w : Window α) : (w.put n a).map f = (w.map f).put n (f a) := by
  rw [put, map_keep, put]
  simp only [map, List.map_append, List.map_singleton]

theorem map_take (w : Window α) : w.take.map f = (w.map f).take := by
  simp only [map, take, List.length_map]

theorem map_clear (w : Window α) : w.clear.map f = (w.map f).clear := by
  simp only [map, clear, List.length_map]

end Map

end Window

end ExtKtrace
