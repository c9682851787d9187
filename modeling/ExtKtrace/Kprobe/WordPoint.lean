import ExtKtrace.Kprobe.Registry

/-!
# Probe points where every instruction is a word

`replace_inst` of the architectures that have instructions of 32 bits only. They differ in what
they refuse and in the two breakpoints.
-/

namespace ExtKtrace.Kprobe
set_option autoImplicit false

open Endian

structure WordArch where
  validateInstruction : BitVec 32 → Except ProbeInstallError Unit
  breakInst : BitVec 32
  /-- The breakpoint behind the instruction in the slot. -/
  stepInst : BitVec 32

def WORD_INST_LEN : Nat := 4

structure WordProbePoint where
  addr : Nat
  oldInstructionPtr : ExecMemType
  userPid : Space
  dynamicUserPtr : Nat
  deriving DecidableEq

def wordBytes (inst : BitVec 32) : List UInt8 := toLe WORD_INST_LEN inst.toNat

/-- The word that `copy_memory` fetches. -/
def wordAt (mem : Memory) (sp : Space) (address : Nat) : BitVec 32 :=
  .ofNat 32 (leNat (mem.read sp address WORD_INST_LEN))

namespace WordArch
variable (arch : WordArch)

/-- `replace_inst`, with the page that the allocator hands out. -/
def replaceInst (mem : Memory) (b : ProbeBuilder) (page : Nat) :
    Except ProbeInstallError (WordProbePoint × Memory) :=
  let address := b.probeAddr
  if address &&& (WORD_INST_LEN - 1) ≠ 0 then .error .invalidAddress
  else
    let instTmpPtr := allocExecMemory b.userPid page
    let inst32 := wordAt mem b.userPid address
    match arch.validateInstruction inst32 with
    | .error e => .error e
    | .ok () =>
      let mem := mem.write b.userPid address (wordBytes arch.breakInst)
      let mem := mem.write none instTmpPtr.asPtr (wordBytes inst32)
      let mem := mem.write none (instTmpPtr.asPtr + 4) (wordBytes arch.stepInst)
      .ok (⟨address, instTmpPtr, b.userPid, 0⟩, mem)

def CopiesIntoSlot (mem : Memory) (b : ProbeBuilder) (page : Nat) : Prop :=
  ∃ point mem', arch.replaceInst mem b page = .ok (point, mem') ∧
    wordAt mem' none point.oldInstructionPtr.asPtr = wordAt mem b.userPid b.probeAddr

@[simp] theorem length_wordBytes (inst : BitVec 32) : (wordBytes inst).length = 4 :=
  length_toLe _ _

theorem wordAt_of_read {mem : Memory} {sp : Space} {address : Nat} {inst : BitVec 32}
    (h : mem.read sp address WORD_INST_LEN = wordBytes inst) : wordAt mem sp address = inst := by
  unfold wordAt
  rw [h, wordBytes, leNat_toLe_of_lt inst.isLt, BitVec.ofNat_toNat, BitVec.setWidth_eq]

/-- Only what the architecture refuses stays out of the slot. -/
theorem copiesIntoSlot_iff (mem : Memory) (b : ProbeBuilder) (page : Nat) :
    arch.CopiesIntoSlot mem b page ↔ b.probeAddr &&& 3 = 0 ∧
      arch.validateInstruction (wordAt mem b.userPid b.probeAddr) = .ok () := by
  unfold CopiesIntoSlot replaceInst
  by_cases halign : b.probeAddr &&& (WORD_INST_LEN - 1) ≠ 0
  · rw [if_pos halign]
    constructor
    · rintro ⟨point, mem', hok, -⟩
      cases hok
    · rintro ⟨haligned, -⟩
      exact absurd haligned halign
  rw [if_neg halign]
  dsimp only
  cases hvalid : arch.validateInstruction (wordAt mem b.userPid b.probeAddr) with
  | error e =>
    constructor
    · rintro ⟨point, mem', hok, -⟩
      cases hok
    · rintro ⟨-, hok⟩
      cases hok
  | ok u =>
    refine ⟨fun _ => ⟨not_not.mp halign, rfl⟩, fun _ => ⟨_, _, rfl, ?_⟩⟩
    apply wordAt_of_read
    rw [asPtr_allocExecMemory, Memory.read_write_of_apart]
    · exact Memory.read_write _ none page (wordBytes _)
    · exact fun _ => .inl (Nat.le_refl _)

theorem refused_or_copied {inst : BitVec 32} {P : Prop}
    (hok : arch.validateInstruction inst = .ok () ↔ P) :
    ((∃ e, arch.validateInstruction inst = .error e) ↔ ¬ P) ∧
      ∀ (mem : Memory) (b : ProbeBuilder) (page : Nat), wordAt mem b.userPid b.probeAddr = inst →
        (arch.CopiesIntoSlot mem b page ↔ b.probeAddr &&& 3 = 0 ∧ P) := by
  constructor
  · rw [← hok]
    cases arch.validateInstruction inst with
    | error e => simp
    | ok u => simp
  · intro mem b page hword
    rw [arch.copiesIntoSlot_iff, hword]
    apply and_congr_right
    exact fun _ => hok

end WordArch

end ExtKtrace.Kprobe
