import Mathlib.Data.Finset.Card

/-!
# Partial maps of bounded size

A finite partial map together with the set of keys it is defined on and the bound on its
size, so that a map past its capacity cannot be built.
-/

namespace ExtKtrace
set_option autoImplicit false

universe u v

structure BoundedMap (κ : Type u) (ν : Type v) (cap : Nat) where
  get : κ → Option ν
  dom : Finset κ
  mem_dom : ∀ k, k ∈ dom ↔ (get k).isSome
  card_le : dom.card ≤ cap

namespace BoundedMap
variable {κ : Type u} {ν : Type v} {cap : Nat}

def empty (κ : Type u) (ν : Type v) (cap : Nat) : BoundedMap κ ν cap where
  get _ := none
  dom := ∅
  mem_dom k := by simp
  card_le := by simp

theorem not_mem_dom {m : BoundedMap κ ν cap} {k : κ} : k ∉ m.dom ↔ m.get k = none := by
  simp [m.mem_dom]

@[simp] theorem empty_get (k : κ) : (empty κ ν cap).get k = none := rfl

@[simp] theorem empty_dom : (empty κ ν cap).dom = ∅ := rfl

variable [DecidableEq κ]

def erase (m : BoundedMap κ ν cap) (k : κ) : BoundedMap κ ν cap where
  get := Function.update m.get k none
  dom := m.dom.erase k
  mem_dom k' := by
    by_cases h : k' = k
    · subst h
      simp
    · simp [h, m.mem_dom]
  card_le := (Finset.card_erase_le).trans m.card_le

/-- Replacing a key never needs room; a new key does. -/
def insert? (m : BoundedMap κ ν cap) (k : κ) (v : ν) : Option (BoundedMap κ ν cap) :=
  if h : (insert k m.dom).card ≤ cap then
    some {
      get := Function.update m.get k (some v)
      dom := insert k m.dom
      mem_dom := by
        intro k'
        by_cases hk : k' = k
        · subst hk
          simp
        · simp [hk, m.mem_dom]
      card_le := h }
  else none

theorem insert?_eq_none {m : BoundedMap κ ν cap} {k : κ} {v : ν} :
    m.insert? k v = none ↔ m.get k = none ∧ cap ≤ m.dom.card := by
  unfold insert?
  by_cases hk : k ∈ m.dom
  · have hget : m.get k ≠ none := fun h => not_mem_dom.mpr h hk
    simp [hk, m.card_le, hget]
  · have hfull : (insert k m.dom).card ≤ cap ↔ ¬ cap ≤ m.dom.card := by
      rw [Finset.card_insert_of_notMem hk]
      omega
    simp [hfull, not_mem_dom.mp hk]

theorem insert?_get {m m' : BoundedMap κ ν cap} {k : κ} {v : ν} (h : m.insert? k v = some m') :
    m'.get = Function.update m.get k (some v) := by
  unfold insert? at h
  split at h
  · cases h
    rfl
  · cases h

theorem insert?_dom {m m' : BoundedMap κ ν cap} {k : κ} {v : ν} (h : m.insert? k v = some m') :
    m'.dom = insert k m.dom := by
  unfold insert? at h
  split at h
  · cases h
    rfl
  · cases h

@[simp] theorem erase_get (m : BoundedMap κ ν cap) (k : κ) :
    (m.erase k).get = Function.update m.get k none := rfl

@[simp] theorem erase_dom (m : BoundedMap κ ν cap) (k : κ) : (m.erase k).dom = m.dom.erase k := rfl

end BoundedMap

end ExtKtrace
