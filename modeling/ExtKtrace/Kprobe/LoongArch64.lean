import ExtKtrace.Kprobe.WordPoint

/-!
# Which instructions LoongArch probes accept

Branches have an opcode of six bits, the instructions that add to the program counter one of
seven. `validate_instruction` looks at six bits.
-/

namespace ExtKtrace.Kprobe.LoongArch64
set_option autoImplicit false

def EBREAK_INST : BitVec 32 := 0x002a0000

def validateInstruction (inst : BitVec 32) : Except ProbeInstallError Unit :=
  if inst == EBREAK_INST then .error .unsupportedInstruction
  else
    let opcode := inst >>> 26
    if (0x13 ≤ opcode && opcode ≤ 0x17) || (0x19 ≤ opcode && opcode ≤ 0x1b) then
      .error .unsafeInstruction
    else .ok ()

def arch : WordArch where
  validateInstruction := validateInstruction
  breakInst := EBREAK_INST
  stepInst := EBREAK_INST

/-- The instructions that branch, and those that add to the program counter. -/
inductive PcDependent where
  | beqz | bnez
  /-- BCEQZ and BCNEZ -/
  | bcz
  | jirl | b | bl | beq | bne | blt | bge | bltu | bgeu
  | pcaddi | pcalau12i | pcaddu12i | pcaddu18i
  deriving DecidableEq

namespace PcDependent

/-- Where the opcode begins; it goes up to the top bit. -/
def opcodeStart : PcDependent → Nat
  | pcaddi | pcalau12i | pcaddu12i | pcaddu18i => 25
  | _ => 26

def opcode : PcDependent → BitVec 32
  | beqz => 0x10
  | bnez => 0x11
  | bcz => 0x12
  | jirl => 0x13
  | b => 0x14
  | bl => 0x15
  | beq => 0x16
  | bne => 0x17
  | blt => 0x18
  | bge => 0x19
  | bltu => 0x1a
  | bgeu => 0x1b
  | pcaddi => 0x0c
  | pcalau12i => 0x0d
  | pcaddu12i => 0x0e
  | pcaddu18i => 0x0f

def Encodes (f : PcDependent) (inst : BitVec 32) : Prop := inst >>> f.opcodeStart = f.opcode

instance (f : PcDependent) (inst : BitVec 32) : Decidable (f.Encodes inst) :=
  inferInstanceAs (Decidable (_ = _))

/-- The top six bits of the opcode. -/
def topSix (f : PcDependent) : BitVec 32 := f.opcode >>> (26 - f.opcodeStart)

theorem Encodes.shift {f : PcDependent} {inst : BitVec 32} (h : f.Encodes inst) :
    inst >>> 26 = f.topSix := by
  have hstart : f.opcodeStart + (26 - f.opcodeStart) = 26 := by
    cases f <;> rfl
  unfold Encodes at h
  unfold topSix
  rw [← h, ← BitVec.shiftRight_add, hstart]

end PcDependent

/-- The instructions whose top six bits are in neither range. -/
def outsideRanges : List PcDependent :=
  [.beqz, .bnez, .bcz, .blt, .pcaddi, .pcalau12i, .pcaddu12i, .pcaddu18i]

/-- But for the breakpoint, the top six bits tell what is accepted. -/
theorem validateInstruction_ok {inst : BitVec 32} (hbreak : inst >>> 26 ≠ 0) :
    validateInstruction inst = .ok () ↔
      ¬ ((0x13 ≤ inst >>> 26 ∧ inst >>> 26 ≤ 0x17) ∨ (0x19 ≤ inst >>> 26 ∧ inst >>> 26 ≤ 0x1b)) := by
  have hne : inst ≠ EBREAK_INST := by
    rintro rfl
    exact hbreak rfl
  unfold validateInstruction
  simp only [beq_iff_eq, hne, if_false]
  split <;> simp_all

theorem validateInstruction_ok_iff {f : PcDependent} {inst : BitVec 32} (h : f.Encodes inst) :
    validateInstruction inst = .ok () ↔ f ∈ outsideRanges := by
  have hopcode := h.shift
  have hbreak : f.topSix ≠ 0 := by
    cases f <;> decide
  rw [validateInstruction_ok (by rw [hopcode]; exact hbreak), hopcode]
  cases f <;> decide

/-- A branch, or an instruction that adds to the program counter, is refused exactly when its
opcode is in one of the two ranges, and any other one is single-stepped from the slot. -/
theorem pc_dependent_refused_iff (f : PcDependent) (inst : BitVec 32) (h : f.Encodes inst) :
    ((∃ e, validateInstruction inst = .error e) ↔ f ∉ outsideRanges) ∧
      ∀ (mem : Memory) (b : ProbeBuilder) (page : Nat), wordAt mem b.userPid b.probeAddr = inst →
        (arch.CopiesIntoSlot mem b page ↔ b.probeAddr &&& 3 = 0 ∧ f ∈ outsideRanges) :=
  arch.refused_or_copied (validateInstruction_ok_iff h)

/-- `jirl $zero, $ra, 0` -/
theorem jirl_refused : ∃ e, validateInstruction 0x4c000020 = .error e :=
  (pc_dependent_refused_iff .jirl 0x4c000020 (by decide)).1.mpr (by decide)

/-- `blt $zero, $zero, 0` -/
theorem blt_accepted : PcDependent.blt.Encodes 0x60000000 ∧
    ¬ ∃ e, validateInstruction 0x60000000 = .error e := by
  refine ⟨by decide, ?_⟩
  rintro ⟨e, he⟩
  cases he

end ExtKtrace.Kprobe.LoongArch64
