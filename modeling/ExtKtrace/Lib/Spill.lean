import Mathlib.Data.List.Nodup
import Mathlib.Logic.Function.Basic

/-!
# Registers that are saved and loaded again

Registers and a memory of words. A list of registers with offsets from an address is stored there
or loaded from there; offsets are apart, and no register is loaded twice. A stack is the case in
which the offsets go down by one word at a time.
-/

namespace ExtKtrace.Spill
set_option autoImplicit false

variable {R : Type}

/-- The word at every address. -/
abbrev Words := UInt64 → UInt64

structure State (R : Type) where
  reg : R → UInt64
  mem : Words

namespace State

def write (s : State R) (a v : UInt64) : State R := { s with mem := Function.update s.mem a v }

@[simp] theorem reg_write (s : State R) (a v : UInt64) : (s.write a v).reg = s.reg := rfl

@[simp] theorem write_mem_self (s : State R) (a v : UInt64) : (s.write a v).mem a = v :=
  Function.update_self ..

theorem write_mem_of_ne (s : State R) {a b : UInt64} (h : b ≠ a) (v : UInt64) :
    (s.write a v).mem b = s.mem b :=
  Function.update_of_ne h ..

/-- Store registers at offsets from an address. -/
def spill (p : UInt64) (l : List (R × UInt64)) (s : State R) : State R :=
  l.foldl (fun s e => s.write (p + e.2) (s.reg e.1)) s

section Spill
variable (p : UInt64) (l : List (R × UInt64)) (s : State R)

@[simp] theorem spill_cons (e : R × UInt64) :
    s.spill p (e :: l) = (s.write (p + e.2) (s.reg e.1)).spill p l := rfl

@[simp] theorem spill_reg : (s.spill p l).reg = s.reg := by
  induction l generalizing s with
  | nil => rfl
  | cons e l ih => rw [spill_cons, ih, reg_write]

theorem spill_mem_other {a : UInt64} (h : ∀ e ∈ l, a ≠ p + e.2) :
    (s.spill p l).mem a = s.mem a := by
  induction l generalizing s with
  | nil => rfl
  | cons e l ih =>
    rw [spill_cons, ih _ fun e' he' => h e' (List.mem_cons_of_mem e he')]
    exact s.write_mem_of_ne (h e List.mem_cons_self) _

theorem spill_mem (hl : (l.map Prod.snd).Nodup) {r : R} {off : UInt64} (h : (r, off) ∈ l) :
    (s.spill p l).mem (p + off) = s.reg r := by
  induction l generalizing s with
  | nil => cases h
  | cons e l ih =>
    rw [List.map_cons, List.nodup_cons] at hl
    rw [spill_cons]
    rcases List.mem_cons.mp h with rfl | h
    · have hother : ∀ e ∈ l, p + off ≠ p + e.2 := by
        intro e he heq
        have hoff := (UInt64.add_right_inj p).mp heq
        exact hl.1 (List.mem_map.mpr ⟨e, he, hoff.symm⟩)
      rw [spill_mem_other p l _ hother, write_mem_self]
    · rw [ih _ hl.2 h, reg_write]

end Spill

variable [DecidableEq R]

def set (s : State R) (r : R) (v : UInt64) : State R :=
  { s with reg := Function.update s.reg r v }

@[simp] theorem mem_set (s : State R) (r : R) (v : UInt64) : (s.set r v).mem = s.mem := rfl

@[simp] theorem set_reg_self (s : State R) (r : R) (v : UInt64) : (s.set r v).reg r = v :=
  Function.update_self ..

theorem set_reg_of_ne (s : State R) {r q : R} (h : q ≠ r) (v : UInt64) :
    (s.set r v).reg q = s.reg q :=
  Function.update_of_ne h ..

theorem set_set (s : State R) (r : R) (v w : UInt64) : (s.set r v).set r w = s.set r w := by
  unfold set
  rw [Function.update_idem]

theorem set_comm (s : State R) {r q : R} (h : r ≠ q) (v w : UInt64) :
    (s.set r v).set q w = (s.set q w).set r v := by
  unfold set
  rw [Function.update_comm h]

theorem set_reg_eq (s : State R) {r : R} {v : UInt64} (h : s.reg r = v) : s.set r v = s := by
  unfold set
  rw [← h, Function.update_eq_self]

/-- Load registers from offsets from an address. -/
def fill (p : UInt64) (l : List (R × UInt64)) (s : State R) : State R :=
  l.foldl (fun s e => s.set e.1 (s.mem (p + e.2))) s

section Fill
variable (p : UInt64) (l : List (R × UInt64)) (s : State R)

@[simp] theorem fill_cons (e : R × UInt64) :
    s.fill p (e :: l) = (s.set e.1 (s.mem (p + e.2))).fill p l := rfl

@[simp] theorem fill_mem : (s.fill p l).mem = s.mem := by
  induction l generalizing s with
  | nil => rfl
  | cons e l ih => rw [fill_cons, ih, mem_set]

theorem fill_reg_other {r : R} (h : r ∉ l.map Prod.fst) : (s.fill p l).reg r = s.reg r := by
  induction l generalizing s with
  | nil => rfl
  | cons e l ih =>
    rw [List.map_cons, List.mem_cons, not_or] at h
    rw [fill_cons, ih _ h.2, set_reg_of_ne _ h.1]

theorem fill_reg (hl : (l.map Prod.fst).Nodup) {r : R} {off : UInt64} (h : (r, off) ∈ l) :
    (s.fill p l).reg r = s.mem (p + off) := by
  induction l generalizing s with
  | nil => cases h
  | cons e l ih =>
    rw [List.map_cons, List.nodup_cons] at hl
    rw [fill_cons]
    rcases List.mem_cons.mp h with rfl | h
    · rw [fill_reg_other p l _ hl.1, set_reg_self]
    · rw [ih _ hl.2 h, mem_set]

variable {r : R} (v : UInt64) (h : r ∉ l.map Prod.fst)
include h

theorem spill_set : (s.set r v).spill p l = (s.spill p l).set r v := by
  induction l generalizing s with
  | nil => rfl
  | cons e l ih =>
    rw [List.map_cons, List.mem_cons, not_or] at h
    rw [spill_cons, spill_cons, set_reg_of_ne _ (Ne.symm h.1)]
    exact ih (s.write (p + e.2) (s.reg e.1)) h.2

theorem fill_set : (s.set r v).fill p l = (s.fill p l).set r v := by
  induction l generalizing s with
  | nil => rfl
  | cons e l ih =>
    rw [List.map_cons, List.mem_cons, not_or] at h
    rw [fill_cons, fill_cons, mem_set, set_comm _ h.1]
    exact ih (s.set e.1 (s.mem (p + e.2))) h.2

end Fill

def push (sp : R) (v : UInt64) (s : State R) : State R :=
  (s.write (s.reg sp - 8) v).set sp (s.reg sp - 8)

def pop (sp r : R) (s : State R) : State R := (s.set sp (s.reg sp + 8)).set r (s.mem (s.reg sp))

def pushAll (sp : R) (l : List R) (s : State R) : State R :=
  l.foldl (fun s r => s.push sp (s.reg r)) s

def popAll (sp : R) (l : List R) (s : State R) : State R := l.foldl (fun s r => s.pop sp r) s

end State

/-- The offsets at which registers lie that are pushed from an offset on. -/
def pushedAt (off : UInt64) : List R → List (R × UInt64)
  | [] => []
  | r :: l => (r, off - 8) :: pushedAt (off - 8) l

/-- The offsets that registers are popped from. -/
def poppedAt (off : UInt64) : List R → List (R × UInt64)
  | [] => []
  | r :: l => (r, off) :: poppedAt (off + 8) l

def below (off : UInt64) (l : List R) : UInt64 := l.foldl (fun off _ => off - 8) off

def above (off : UInt64) (l : List R) : UInt64 := l.foldl (fun off _ => off + 8) off

theorem pushedAt_fst (off : UInt64) (l : List R) : (pushedAt off l).map Prod.fst = l := by
  induction l generalizing off with
  | nil => rfl
  | cons r l ih => rw [pushedAt, List.map_cons, ih]

theorem poppedAt_fst (off : UInt64) (l : List R) : (poppedAt off l).map Prod.fst = l := by
  induction l generalizing off with
  | nil => rfl
  | cons r l ih => rw [poppedAt, List.map_cons, ih]

namespace State
variable [DecidableEq R]

theorem push_eq (s : State R) (sp : R) (p off v : UInt64) (htop : s.reg sp = p + off) :
    s.push sp v = (s.write (p + (off - 8)) v).set sp (p + (off - 8)) := by
  unfold push
  rw [htop, UInt64.sub_eq_add_neg, UInt64.sub_eq_add_neg, UInt64.add_assoc]

theorem pop_eq (s : State R) (sp r : R) (p off : UInt64) (hne : sp ≠ r)
    (htop : s.reg sp = p + off) :
    s.pop sp r = (s.set r (s.mem (p + off))).set sp (p + (off + 8)) := by
  unfold pop
  rw [htop, UInt64.add_assoc, set_comm _ hne]

/-- Pushing registers stores them below the stack pointer and moves it there. -/
theorem pushAll_eq (s : State R) (sp : R) (p off : UInt64) (l : List R) (hsp : sp ∉ l)
    (htop : s.reg sp = p + off) :
    s.pushAll sp l = (s.spill p (pushedAt off l)).set sp (p + below off l) := by
  induction l generalizing s off with
  | nil => exact (s.set_reg_eq htop).symm
  | cons r l ih =>
    rw [List.mem_cons, not_or] at hsp
    have hpush := s.push_eq sp p off (s.reg r) htop
    have hnot : sp ∉ (pushedAt (off - 8) l).map Prod.fst := by
      rw [pushedAt_fst]
      exact hsp.2
    have hnext := ih (s.push sp (s.reg r)) (off - 8) hsp.2 (by rw [hpush, set_reg_self])
    rw [hpush, spill_set _ _ _ _ hnot, set_set, ← hpush] at hnext
    exact hnext

/-- Popping registers loads them from the stack pointer on and moves it behind them. -/
theorem popAll_eq (s : State R) (sp : R) (p off : UInt64) (l : List R) (hsp : sp ∉ l)
    (htop : s.reg sp = p + off) :
    s.popAll sp l = (s.fill p (poppedAt off l)).set sp (p + above off l) := by
  induction l generalizing s off with
  | nil => exact (s.set_reg_eq htop).symm
  | cons r l ih =>
    rw [List.mem_cons, not_or] at hsp
    have hpop := s.pop_eq sp r p off hsp.1 htop
    have hnot : sp ∉ (poppedAt (off + 8) l).map Prod.fst := by
      rw [poppedAt_fst]
      exact hsp.2
    have hnext := ih (s.pop sp r) (off + 8) hsp.2 (by rw [hpop, set_reg_self])
    rw [hpop, fill_set _ _ _ _ hnot, set_set, ← hpop] at hnext
    exact hnext

end State

end ExtKtrace.Spill
