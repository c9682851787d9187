import ExtKtrace.Lib.Endian

/-!
# Probe points on riscv64

The instruction that a probe replaces, the slot it is executed from, and what the trap
handlers ask a probe point for (`arch/mod.rs` and `arch/rv64/mod.rs`). Addresses are natural
numbers below 2^64; a sum that can leave that range wraps as `usize` does.
-/

namespace ExtKtrace.Kprobe
set_option autoImplicit false

open Endian

abbrev Pid := Int

/-- Whose memory an address is in: a process, or the kernel for `None`. -/
abbrev Space := Option Pid

abbrev Memory := Space → Nat → UInt8

def usizeMod : Nat := 2 ^ 64

namespace Memory

/-- `copy_memory` -/
def read (m : Memory) (sp : Space) (a n : Nat) : List UInt8 :=
  (List.range n).map fun i => m sp (a + i)

/-- A write inside `set_writeable_for_address`, or through a kernel pointer. -/
def write (m : Memory) (sp : Space) (a : Nat) (bs : List UInt8) : Memory := fun sp' b =>
  if sp' = sp ∧ a ≤ b ∧ b < a + bs.length then bs.getD (b - a) 0 else m sp' b

@[simp] theorem length_read (m : Memory) (sp : Space) (a n : Nat) :
    (m.read sp a n).length = n := by
  simp [read]

theorem read_congr {m m' : Memory} {sp sp' : Space} {a n : Nat}
    (h : ∀ i, i < n → m' sp' (a + i) = m sp (a + i)) : m'.read sp' a n = m.read sp a n := by
  unfold read
  apply List.map_congr_left
  intro i hi
  exact h i (List.mem_range.mp hi)

theorem apply_of_read {m : Memory} {sp : Space} {a n i : Nat} {bs : List UInt8}
    (h : m.read sp a n = bs) (hi : i < n) : m sp (a + i) = bs.getD i 0 := by
  subst h
  simp [read, hi]

theorem write_of_outside {m : Memory} {sp sp' : Space} {a b : Nat} {bs : List UInt8}
    (h : sp' = sp → b < a ∨ a + bs.length ≤ b) : m.write sp a bs sp' b = m sp' b := by
  unfold write
  rw [if_neg]
  rintro ⟨hsp, hlo, hhi⟩
  rcases h hsp with h | h <;> omega

theorem write_inside (m : Memory) (sp : Space) {a i : Nat} {bs : List UInt8}
    (hi : i < bs.length) : m.write sp a bs sp (a + i) = bs.getD i 0 := by
  unfold write
  rw [if_pos ⟨rfl, by omega, by omega⟩, Nat.add_sub_cancel_left]

theorem read_write (m : Memory) (sp : Space) (a : Nat) (bs : List UInt8) :
    (m.write sp a bs).read sp a bs.length = bs := by
  unfold read
  apply List.ext_getElem
  · simp
  · intro i _ hi
    rw [List.getElem_map, List.getElem_range, write_inside m sp hi]
    simp [hi]

theorem read_write_of_apart {m : Memory} {sp sp' : Space} {a b n : Nat} {bs : List UInt8}
    (h : sp' = sp → b + n ≤ a ∨ a + bs.length ≤ b) :
    (m.write sp a bs).read sp' b n = m.read sp' b n := by
  apply read_congr
  intro i hi
  apply write_of_outside
  intro hsp
  rcases h hsp with h | h
  · left
    omega
  · right
    omega

theorem read_add (m : Memory) (sp : Space) (a n k : Nat) :
    m.read sp a (n + k) = m.read sp a n ++ m.read sp (a + n) k := by
  unfold read
  rw [List.range_add, List.map_append, List.map_map]
  congr 1
  apply List.map_congr_left
  intro i _
  simp [Nat.add_assoc]

end Memory

inductive ProbeInstallError where
  | invalidAddress
  | decodeFailed
  | unsupportedInstruction
  | unsafeInstruction
  | relocationFailed
  | patchFailed
  deriving DecidableEq, Repr

def ebreakInst : Nat := 0x00100073

def cEbreakInst : Nat := 0x9002

def insnLengthMask : Nat := 0x3

def insnLength32 : Nat := 0x3

inductive OpcodeTy where
  | inst16 (inst : Nat)
  | inst32 (inst : Nat)
  deriving DecidableEq

namespace OpcodeTy

/-- `original_instruction_len` -/
def len : OpcodeTy → Nat
  | inst16 _ => 2
  | inst32 _ => 4

/-- The instruction as it is written back to memory. -/
def bytes : OpcodeTy → List UInt8
  | inst16 i => toLe 2 i
  | inst32 i => toLe 4 i

/-- The breakpoint of the same length. -/
def breakBytes : OpcodeTy → List UInt8
  | inst16 _ => toLe 2 cEbreakInst
  | inst32 _ => toLe 4 ebreakInst

@[simp] theorem length_bytes (o : OpcodeTy) : o.bytes.length = o.len := by
  cases o <;> rfl

@[simp] theorem length_breakBytes (o : OpcodeTy) : o.breakBytes.length = o.len := by
  cases o <;> rfl

theorem len_pos (o : OpcodeTy) : 0 < o.len := by
  cases o <;> simp [len]

theorem len_le (o : OpcodeTy) : o.len ≤ 4 := by
  cases o <;> simp [len]

end OpcodeTy

def validateInst16 (inst : Nat) : Except ProbeInstallError Unit :=
  if inst = cEbreakInst then .error .unsupportedInstruction
  else
    let quadrant := inst &&& 0x3
    let funct3 := (inst >>> 13) &&& 0x7
    if quadrant = 0x1 ∧ (funct3 = 0x1 ∨ funct3 = 0x5 ∨ funct3 = 0x6 ∨ funct3 = 0x7) then
      .error .unsafeInstruction
    else if quadrant = 0x2 ∧ funct3 = 0x4 ∧ (inst >>> 2) &&& 0x1f = 0 then
      .error .unsupportedInstruction
    else .ok ()

def validateInst32 (inst : Nat) : Except ProbeInstallError Unit :=
  if inst &&& 0x7f ∈ [0x17, 0x67, 0x63, 0x6f, 0x0f, 0x73] then .error .unsupportedInstruction
  else .ok ()

inductive ExecMemType where
  | user (ptr : Nat)
  | kernel (ptr : Nat)
  deriving DecidableEq

def ExecMemType.asPtr : ExecMemType → Nat
  | user ptr => ptr
  | kernel ptr => ptr

/-- `alloc_exec_memory`, with the page that the allocator hands out. -/
def allocExecMemory (userPid : Space) (page : Nat) : ExecMemType :=
  if userPid.isSome then .user page else .kernel page

@[simp] theorem asPtr_allocExecMemory (sp : Space) (page : Nat) :
    (allocExecMemory sp page).asPtr = page := by
  unfold allocExecMemory
  split <;> rfl

/-- `Rv64ProbePoint` -/
structure ProbePoint where
  addr : Nat
  oldInstruction : OpcodeTy
  oldInstructionPtr : ExecMemType
  userPid : Space
  dynamicUserPtr : Nat
  deriving DecidableEq

namespace ProbePoint
variable (p : ProbePoint)

def originalInstructionLen : Nat := p.oldInstruction.len

def instructionSlotLen : Nat :=
  match p.oldInstruction with
  | .inst16 _ => 2 + 2
  | .inst32 _ => 4 + 4

def returnAddress : Nat := (p.addr + p.originalInstructionLen) % usizeMod

def singleStepAddress : Nat := p.oldInstructionPtr.asPtr

def debugAddress : Nat :=
  if p.dynamicUserPtr = 0 then p.oldInstructionPtr.asPtr + p.originalInstructionLen
  else p.dynamicUserPtr + p.originalInstructionLen

def breakAddress : Nat := p.addr

def setDynamicUserPtr (ptr : Nat) : ProbePoint := { p with dynamicUserPtr := ptr }

/-- What the slot holds: the instruction, then a breakpoint of its length. -/
def slotBytes : List UInt8 := p.oldInstruction.bytes ++ p.oldInstruction.breakBytes

theorem instructionSlotLen_eq :
    p.instructionSlotLen = p.oldInstruction.len + p.oldInstruction.len := by
  unfold instructionSlotLen
  cases p.oldInstruction <;> rfl

@[simp] theorem length_slotBytes : p.slotBytes.length = p.instructionSlotLen := by
  simp [slotBytes, instructionSlotLen_eq]

theorem setDynamicUserPtr_debugAddress {ptr : Nat} (h : ptr ≠ 0) :
    (p.setDynamicUserPtr ptr).debugAddress = ptr + p.originalInstructionLen := by
  simp [debugAddress, setDynamicUserPtr, h, originalInstructionLen]

end ProbePoint

/-- The registers the library reads and writes, and the others, which only handlers see. -/
structure PtRegs where
  epc : Nat
  ra : Nat
  s0 : Nat
  others : List Nat
  deriving DecidableEq

namespace PtRegs

def breakAddress (r : PtRegs) : Nat := r.epc

def debugAddress (r : PtRegs) : Nat := r.epc

def updatePc (r : PtRegs) (pc : Nat) : PtRegs := { r with epc := pc }

end PtRegs

def setupSingleStep (r : PtRegs) (singleStepAddress : Nat) : PtRegs :=
  r.updatePc singleStepAddress

def clearSingleStep (r : PtRegs) (singleStepAddress : Nat) : PtRegs :=
  r.updatePc singleStepAddress

/-- The instruction at an address, if a probe may replace it: what `replace_inst` reads and
checks before it patches. -/
def fetch (m : Memory) (sp : Space) (a : Nat) : Except ProbeInstallError OpcodeTy :=
  if a &&& 0x1 ≠ 0 then .error .invalidAddress
  else
    let inst := leNat (m.read sp a 2)
    if inst &&& insnLengthMask ≠ insnLength32 then
      (validateInst16 inst).map fun _ => .inst16 inst
    else if a &&& 0x3 ≠ 0 then .error .invalidAddress
    else
      let inst := leNat (m.read sp a 4)
      (validateInst32 inst).map fun _ => .inst32 inst

theorem validateInst16_cEbreak : validateInst16 cEbreakInst = .error .unsupportedInstruction :=
  rfl

theorem validateInst32_ebreak : validateInst32 ebreakInst = .error .unsupportedInstruction :=
  rfl

/-- The length of the instruction at an address, which its first two bits decide. -/
def insnLen (m : Memory) (sp : Space) (a : Nat) : Nat :=
  if leNat (m.read sp a 2) &&& insnLengthMask ≠ insnLength32 then 2 else 4

theorem insnLen_le (m : Memory) (sp : Space) (a : Nat) : insnLen m sp a ≤ 4 := by
  unfold insnLen
  split
  · exact Nat.le_of_ble_eq_true rfl
  · exact Nat.le_refl 4

theorem read_two_congr {m m' : Memory} {sp : Space} {a : Nat}
    (h : m'.read sp a (insnLen m sp a) = m.read sp a (insnLen m sp a)) :
    m'.read sp a 2 = m.read sp a 2 := by
  unfold insnLen at h
  split at h
  · exact h
  · have h1 := Memory.read_add m' sp a 2 2
    have h2 := Memory.read_add m sp a 2 2
    rw [h, h2] at h1
    exact (List.append_inj_left h1 (by simp)).symm

/-- Nothing but the bytes of the instruction decides what is found. -/
theorem fetch_congr {m m' : Memory} {sp : Space} {a : Nat}
    (h : m'.read sp a (insnLen m sp a) = m.read sp a (insnLen m sp a)) :
    fetch m' sp a = fetch m sp a := by
  have h2 := read_two_congr h
  unfold fetch
  rw [h2]
  unfold insnLen at h
  split at h
  · rename_i h16
    simp only [if_pos h16]
  · rename_i h16
    simp only [if_neg h16, h]

theorem fetch_len {m : Memory} {sp : Space} {a : Nat} {o : OpcodeTy} (h : fetch m sp a = .ok o) :
    o.len = insnLen m sp a := by
  unfold fetch at h
  unfold insnLen
  split at h
  · cases h
  · dsimp only at h
    split at h
    · rename_i h16
      rw [if_pos h16]
      cases hv : validateInst16 (leNat (m.read sp a 2)) <;> rw [hv] at h <;> cases h
      rfl
    · rename_i h16
      rw [if_neg h16]
      split at h
      · cases h
      · cases hv : validateInst32 (leNat (m.read sp a 4)) <;> rw [hv] at h <;> cases h
        rfl

/-- Where there is a breakpoint no instruction is found. -/
theorem fetch_break {m : Memory} {sp : Space} {a : Nat} {o o' : OpcodeTy}
    (h : m.read sp a o.len = o.breakBytes) : fetch m sp a ≠ .ok o' := by
  intro hf
  cases o with
  | inst16 i =>
    have h2 : m.read sp a 2 = toLe 2 cEbreakInst := h
    have hinst : leNat (m.read sp a 2) = cEbreakInst := by rw [h2, leNat_toLe_of_lt (by decide)]
    unfold fetch at hf
    split at hf
    · cases hf
    · dsimp only at hf
      rw [hinst, if_pos (by decide), validateInst16_cEbreak] at hf
      cases hf
  | inst32 i =>
    have h4 : m.read sp a 4 = toLe 4 ebreakInst := h
    have hinst : leNat (m.read sp a 4) = ebreakInst := by rw [h4, leNat_toLe_of_lt (by decide)]
    have h2 : leNat (m.read sp a 2) = 0x73 := by
      have hadd := Memory.read_add m sp a 2 2
      rw [h4] at hadd
      have hpre : toLe 2 0x73 = m.read sp a 2 :=
        List.append_inj_left (show toLe 2 0x73 ++ toLe 2 0x10 = _ from hadd) (by simp)
      rw [← hpre, leNat_toLe_of_lt (by decide)]
    unfold fetch at hf
    split at hf
    · cases hf
    · dsimp only at hf
      rw [h2, hinst, if_neg (by decide), validateInst32_ebreak] at hf
      split at hf <;> cases hf

/-- The instruction found is the bytes that are there, and it is no breakpoint. -/
theorem fetch_ok {m : Memory} {sp : Space} {a : Nat} {o : OpcodeTy} (h : fetch m sp a = .ok o) :
    m.read sp a o.len = o.bytes ∧ o.bytes ≠ o.breakBytes := by
  unfold fetch at h
  split at h
  · cases h
  · dsimp only at h
    split at h
    · cases hv : validateInst16 (leNat (m.read sp a 2)) with
      | error e =>
        rw [hv] at h
        cases h
      | ok _ =>
        rw [hv] at h
        cases h
        have hle := toLe_leNat (m.read sp a 2)
        rw [Memory.length_read] at hle
        refine ⟨hle.symm, ?_⟩
        intro heq
        have hinst := congrArg leNat heq
        rw [OpcodeTy.bytes, OpcodeTy.breakBytes, hle, leNat_toLe_of_lt (by decide)] at hinst
        rw [hinst, validateInst16_cEbreak] at hv
        cases hv
    · split at h
      · cases h
      · cases hv : validateInst32 (leNat (m.read sp a 4)) with
        | error e =>
          rw [hv] at h
          cases h
        | ok _ =>
          rw [hv] at h
          cases h
          have hle := toLe_leNat (m.read sp a 4)
          rw [Memory.length_read] at hle
          refine ⟨hle.symm, ?_⟩
          intro heq
          have hinst := congrArg leNat heq
          rw [OpcodeTy.bytes, OpcodeTy.breakBytes, hle, leNat_toLe_of_lt (by decide)] at hinst
          rw [hinst, validateInst32_ebreak] at hv
          cases hv

end ExtKtrace.Kprobe
