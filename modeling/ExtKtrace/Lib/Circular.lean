import Mathlib.Data.Nat.ModEq
import Mathlib.Logic.Function.Basic

/-!
# Buffers addressed modulo their size

A window of cells starts at an unbounded position and may run over the end of the buffer.
Windows that lie within one buffer size of each other touch no common cell.
-/

namespace ExtKtrace.Circular
set_option autoImplicit false

universe u
variable {α : Type u} {N : Nat}

/-- The window of `n` cells at position `p` contains cell `i`. -/
def Covers (N p n i : Nat) : Prop := ∃ k, k < n ∧ (p + k) % N = i

/-- Two windows without a common cell. -/
def Apart (N p n q m : Nat) : Prop := ∀ i, Covers N p n i → ¬ Covers N q m i

def read (N : Nat) (cells : Nat → α) (p : Nat) : Nat → List α
  | 0 => []
  | n + 1 => cells (p % N) :: read N cells (p + 1) n

def write (N : Nat) (cells : Nat → α) (p : Nat) : List α → Nat → α
  | [] => cells
  | x :: xs => write N (Function.update cells (p % N) x) (p + 1) xs

theorem Covers.head (p n : Nat) : Covers N p (n + 1) (p % N) :=
  ⟨0, Nat.succ_pos n, rfl⟩

theorem Covers.tail {p n i : Nat} (h : Covers N (p + 1) n i) : Covers N p (n + 1) i := by
  obtain ⟨k, hk, rfl⟩ := h
  exact ⟨k + 1, by omega, by rw [Nat.add_right_comm, Nat.add_assoc]⟩

theorem Covers.sub {p n o m i : Nat} (h : Covers N (p + o) n i) (hm : o + n ≤ m) :
    Covers N p m i := by
  obtain ⟨k, hk, rfl⟩ := h
  exact ⟨o + k, by omega, by rw [Nat.add_assoc]⟩

/-- The masked index of a position covers the same cells. -/
theorem covers_mod {p n i : Nat} : Covers N (p % N) n i ↔ Covers N p n i := by
  unfold Covers
  simp only [Nat.mod_add_mod]

theorem Apart.symm {p n q m : Nat} (h : Apart N p n q m) : Apart N q m p n :=
  fun i hq hp => h i hp hq

theorem Apart.sub_right {p n q m o m' : Nat} (h : Apart N p n q m) (hm : o + m' ≤ m) :
    Apart N p n (q + o) m' :=
  fun i hp hq => h i hp (hq.sub hm)

theorem Apart.sub_left {p n q m o l : Nat} (h : Apart N p n q m) (hn : o + l ≤ n) :
    Apart N (p + o) l q m :=
  (h.symm.sub_right hn).symm

/-- Two positions less than a buffer size apart are different cells. -/
theorem mod_ne_of_lt {a b : Nat} (hab : a < b) (hb : b < a + N) : a % N ≠ b % N := by
  intro h
  have hdvd : N ∣ b - a := (Nat.modEq_iff_dvd' (Nat.le_of_lt hab)).mp h
  have hle : N ≤ b - a := Nat.le_of_dvd (by omega) hdvd
  omega

/-- A window that ends behind its start does not run over the end of the buffer. -/
theorem ends_at_iff_of_lt {start stop n : Nat} (hlt : start < stop) (hstop : stop < N) :
    start + n = stop ↔ 0 < n ∧ n ≤ N ∧ stop = (start + n) % N := by
  constructor
  · intro heq
    refine ⟨by omega, by omega, ?_⟩
    rw [heq, Nat.mod_eq_of_lt hstop]
  · rintro ⟨-, hle, heq⟩
    rcases Nat.lt_or_ge (start + n) N with hone | htwo
    · rw [heq, Nat.mod_eq_of_lt hone]
    · -- it would run over the end, and end before it starts
      rw [Nat.mod_eq_sub_mod htwo, Nat.mod_eq_of_lt (by omega)] at heq
      omega

/-- A window that does not end behind its start runs over the end of the buffer. -/
theorem ends_at_iff_of_le {start stop n : Nat} (hle : stop ≤ start) (hstart : start < N) :
    (N - start ≤ n ∧ n - (N - start) = stop) ↔ 0 < n ∧ n ≤ N ∧ stop = (start + n) % N := by
  constructor
  · rintro ⟨hlong, heq⟩
    have hsum : start + n = N + stop := by omega
    refine ⟨by omega, by omega, ?_⟩
    rw [hsum, Nat.add_mod_left, Nat.mod_eq_of_lt (by omega)]
  · rintro ⟨hpos, hn, heq⟩
    rcases Nat.lt_or_ge (start + n) N with hone | htwo
    · rw [Nat.mod_eq_of_lt hone] at heq
      omega
    · rw [Nat.mod_eq_sub_mod htwo, Nat.mod_eq_of_lt (by omega)] at heq
      omega

/-- Windows one after the other, the second ending before the first comes round again. -/
theorem apart_of_le {p n q m : Nat} (hpq : p + n ≤ q) (hq : q + m ≤ p + N) :
    Apart N p n q m := by
  rintro i ⟨k, hk, rfl⟩ ⟨l, hl, heq⟩
  exact mod_ne_of_lt (a := p + k) (b := q + l) (by omega) (by omega) heq.symm

/-- The second window runs into the first one coming round again. -/
theorem not_apart_of_lap {p n q m : Nat} (hn : 0 < n) (hq : q ≤ p + N) (hm : p + N < q + m) :
    ¬ Apart N p n q m := by
  intro h
  refine h (p % N) ⟨0, hn, rfl⟩ ⟨p + N - q, by omega, ?_⟩
  rw [show q + (p + N - q) = p + N by omega, Nat.add_mod_right]

@[simp] theorem length_read (cells : Nat → α) (p n : Nat) : (read N cells p n).length = n := by
  induction n generalizing p with
  | zero => rfl
  | succ n ih => simp [read, ih]

/-- Only the position modulo the size matters. -/
theorem read_of_mod_eq {cells : Nat → α} {p q n : Nat} (hq : q % N = p % N) :
    read N cells q n = read N cells p n := by
  induction n generalizing p q with
  | zero => rfl
  | succ n ih =>
    have hnext : (q + 1) % N = (p + 1) % N := by
      rw [Nat.add_mod, hq, ← Nat.add_mod]
    simp only [read, hq]
    rw [ih hnext]

theorem write_of_mod_eq {cells : Nat → α} {p q : Nat} {xs : List α} (hq : q % N = p % N) :
    write N cells q xs = write N cells p xs := by
  induction xs generalizing cells p q with
  | nil => rfl
  | cons x xs ih =>
    have hnext : (q + 1) % N = (p + 1) % N := by
      rw [Nat.add_mod, hq, ← Nat.add_mod]
    simp only [write, hq]
    rw [ih hnext]

theorem read_append (cells : Nat → α) (p a b : Nat) :
    read N cells p (a + b) = read N cells p a ++ read N cells (p + a) b := by
  induction a generalizing p with
  | zero => simp [read]
  | succ a ih =>
    rw [Nat.succ_add]
    simp only [read, List.cons_append, ih]
    rw [Nat.add_assoc, Nat.add_comm 1 a]

theorem write_append (cells : Nat → α) (p : Nat) (xs ys : List α) :
    write N cells p (xs ++ ys) = write N (write N cells p xs) (p + xs.length) ys := by
  induction xs generalizing cells p with
  | nil => rfl
  | cons x xs ih =>
    simp only [List.cons_append, write, ih, List.length_cons]
    rw [Nat.add_assoc, Nat.add_comm 1]

theorem read_congr {cells cells' : Nat → α} {p n : Nat}
    (h : ∀ i, Covers N p n i → cells i = cells' i) : read N cells p n = read N cells' p n := by
  induction n generalizing p with
  | zero => rfl
  | succ n ih =>
    simp only [read]
    rw [h _ (Covers.head p n), ih fun i hi => h i hi.tail]

/-- Equal windows have equal beginnings. -/
theorem read_eq_of_le {cells cells' : Nat → α} {p n m : Nat} (hnm : n ≤ m)
    (h : read N cells p m = read N cells' p m) : read N cells p n = read N cells' p n := by
  obtain ⟨k, rfl⟩ := Nat.exists_eq_add_of_le hnm
  rw [read_append, read_append] at h
  exact (List.append_inj h (by simp)).1

/-- Cells outside the window keep their content. -/
theorem write_of_not_covers {cells : Nat → α} {p : Nat} {xs : List α} {i : Nat}
    (h : ¬ Covers N p xs.length i) : write N cells p xs i = cells i := by
  induction xs generalizing cells p with
  | nil => rfl
  | cons x xs ih =>
    have hne : i ≠ p % N := by
      intro heq
      exact h (heq ▸ Covers.head p xs.length)
    simp only [write]
    rw [ih fun hc => h hc.tail, Function.update_of_ne hne]

theorem read_write_apart {cells : Nat → α} {p n q : Nat} {xs : List α}
    (h : Apart N p n q xs.length) : read N (write N cells q xs) p n = read N cells p n :=
  read_congr fun i hi => write_of_not_covers (h i hi)

theorem read_write {cells : Nat → α} {p : Nat} {xs : List α} (h : xs.length ≤ N) :
    read N (write N cells p xs) p xs.length = xs := by
  induction xs generalizing cells p with
  | nil => rfl
  | cons x xs ih =>
    rw [List.length_cons] at h
    have hfirst : ¬ Covers N (p + 1) xs.length (p % N) := by
      rintro ⟨k, hk, heq⟩
      exact mod_ne_of_lt (N := N) (a := p) (b := p + 1 + k) (by omega) (by omega) heq.symm
    simp only [List.length_cons, read, write]
    rw [write_of_not_covers hfirst, Function.update_self, ih (by omega)]

theorem getElem?_read (cells : Nat → α) (p : Nat) {n i : Nat} (hi : i < n) :
    (read N cells p n)[i]? = some (cells ((p + i) % N)) := by
  induction n generalizing p i with
  | zero => exact absurd hi (Nat.not_lt_zero i)
  | succ n ih =>
    rw [read]
    cases i with
    | zero => rfl
    | succ i =>
      rw [List.getElem?_cons_succ, ih (p + 1) (Nat.lt_of_succ_lt_succ hi), Nat.add_assoc,
        Nat.add_comm 1]

/-- The cells of the window, one by one. -/
theorem write_at {cells : Nat → α} {p : Nat} {xs : List α} (h : xs.length ≤ N) {i : Nat}
    (hi : i < xs.length) : write N cells p xs ((p + i) % N) = xs[i] := by
  have hread := getElem?_read (N := N) (write N cells p xs) p hi
  rw [read_write h, List.getElem?_eq_getElem hi] at hread
  exact (Option.some.inj hread).symm

/-- Part of a list overwritten. -/
def splice (xs : List α) (o : Nat) (ys : List α) : List α :=
  xs.take o ++ ys ++ xs.drop (o + ys.length)

theorem length_splice {xs ys : List α} {o : Nat} (h : o + ys.length ≤ xs.length) :
    (splice xs o ys).length = xs.length := by
  simp only [splice, List.length_append, List.length_take, List.length_drop]
  omega

theorem splice_append (xs ys zs : List α) (o : Nat) :
    splice (xs ++ ys) (xs.length + o) zs = xs ++ splice ys o zs := by
  unfold splice
  rw [List.take_length_add_append, Nat.add_assoc, List.drop_length_add_append]
  simp only [List.append_assoc]

/-- A store inside a window, seen by a reader of the window. -/
theorem read_write_inside {cells : Nat → α} {p n o : Nat} {xs : List α}
    (hin : o + xs.length ≤ n) (hn : n ≤ N) :
    read N (write N cells (p + o) xs) p n = splice (read N cells p n) o xs := by
  obtain ⟨r, rfl⟩ : ∃ r, n = o + xs.length + r := ⟨n - (o + xs.length), by omega⟩
  rw [read_append, read_append, read_append, read_append, read_write (by omega)]
  have hbefore : Apart N p o (p + o) xs.length := apart_of_le (by omega) (by omega)
  have hafter : Apart N (p + (o + xs.length)) r (p + o) xs.length :=
    (apart_of_le (by omega) (by omega)).symm
  rw [read_write_apart hbefore, read_write_apart hafter]
  simp [splice, List.drop_append]

end ExtKtrace.Circular
