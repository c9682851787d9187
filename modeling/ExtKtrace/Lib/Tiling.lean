import Mathlib.Data.List.Basic

/-!
# Spans laid end to end

A span is a start and a length. A list of spans tiles an interval when each span starts
where the one before it ends.
-/

namespace ExtKtrace.Tiling
set_option autoImplicit false

def Tiles : Nat → List (Nat × Nat) → Nat → Prop
  | p, [], q => p = q
  | p, s :: ss, q => s.1 = p ∧ Tiles (p + s.2) ss q

@[simp] theorem tiles_nil {p q : Nat} : Tiles p [] q ↔ p = q := Iff.rfl

@[simp] theorem tiles_cons {p q : Nat} {s : Nat × Nat} {ss : List (Nat × Nat)} :
    Tiles p (s :: ss) q ↔ s.1 = p ∧ Tiles (p + s.2) ss q := Iff.rfl

theorem tiles_append {p q : Nat} {ss ts : List (Nat × Nat)} :
    Tiles p (ss ++ ts) q ↔ ∃ m, Tiles p ss m ∧ Tiles m ts q := by
  induction ss generalizing p with
  | nil => simp
  | cons s ss ih =>
    simp only [List.cons_append, tiles_cons, ih]
    constructor
    · rintro ⟨hs, m, hss, hts⟩
      exact ⟨m, ⟨hs, hss⟩, hts⟩
    · rintro ⟨m, ⟨hs, hss⟩, hts⟩
      exact ⟨hs, m, hss, hts⟩

theorem Tiles.concat {p q n : Nat} {ss : List (Nat × Nat)} (h : Tiles p ss q) :
    Tiles p (ss ++ [(q, n)]) (q + n) :=
  tiles_append.mpr ⟨q, h, rfl, rfl⟩

/-- What comes behind the spans of a shorter interval. -/
theorem Tiles.rest {p q r : Nat} {ss ts : List (Nat × Nat)} (h : Tiles p ss q)
    (hall : Tiles p (ss ++ ts) r) : Tiles q ts r := by
  induction ss generalizing p with
  | nil =>
    have heq : p = q := h
    exact heq ▸ hall
  | cons s ss ih => exact ih h.2 hall.2

theorem Tiles.le {p q : Nat} {ss : List (Nat × Nat)} (h : Tiles p ss q) : p ≤ q := by
  induction ss generalizing p with
  | nil => exact Nat.le_of_eq h
  | cons s ss ih =>
    have hrest := ih h.2
    omega

/-- Every span lies inside the interval. -/
theorem Tiles.mem {p q : Nat} {ss : List (Nat × Nat)} (h : Tiles p ss q) {s : Nat × Nat}
    (hs : s ∈ ss) : p ≤ s.1 ∧ s.1 + s.2 ≤ q := by
  obtain ⟨as, bs, rfl⟩ := List.append_of_mem hs
  obtain ⟨m, has, hrest⟩ := tiles_append.mp h
  obtain ⟨hstart, hbs⟩ := hrest
  have hle := has.le
  have hle' := hbs.le
  omega

/-- Spans come in the order of their starts and do not overlap. -/
theorem Tiles.pairwise {p q : Nat} {ss : List (Nat × Nat)} (h : Tiles p ss q) :
    ss.Pairwise fun s t => s.1 + s.2 ≤ t.1 := by
  induction ss generalizing p with
  | nil => exact List.Pairwise.nil
  | cons s ss ih =>
    refine List.Pairwise.cons ?_ (ih h.2)
    intro t ht
    have hmem := (h.2.mem ht).1
    have hstart := h.1
    omega

/-- Spans of aligned length start at aligned places. -/
theorem Tiles.dvd {d p q : Nat} {ss : List (Nat × Nat)} (h : Tiles p ss q) (hp : d ∣ p)
    (hss : ∀ s ∈ ss, d ∣ s.2) : d ∣ q ∧ ∀ s ∈ ss, d ∣ s.1 := by
  induction ss generalizing p with
  | nil =>
    have heq : p = q := h
    refine ⟨heq ▸ hp, ?_⟩
    intro s hs
    cases hs
  | cons s ss ih =>
    have hnext : d ∣ p + s.2 := Nat.dvd_add hp (hss s List.mem_cons_self)
    obtain ⟨hq, hrest⟩ := ih h.2 hnext fun t ht => hss t (List.mem_cons_of_mem s ht)
    refine ⟨hq, ?_⟩
    intro t ht
    rcases List.mem_cons.mp ht with rfl | hmem
    · exact h.1 ▸ hp
    · exact hrest t hmem

end ExtKtrace.Tiling
