import ExtKtrace.Kprobe.WordPoint
import ExtKtrace.Lib.BitPattern

/-!
# Which instructions aarch64 probes accept

A probed instruction is single-stepped from a slot, where the program counter is another one. The
rows of the encoding tables that this matters for are compared with what `validate_instruction`
masks out.
-/

namespace ExtKtrace.Kprobe.Aarch64
set_option autoImplicit false

def KPROBES_BRK_IMM : BitVec 32 := 0x004
def KPROBES_BRK_SS_IMM : BitVec 32 := 0x006
def AARCH64_BREAK_MON : BitVec 32 := 0xd4200000
def BRK64_OPCODE_KPROBES : BitVec 32 := AARCH64_BREAK_MON ||| (KPROBES_BRK_IMM <<< 5)
def BRK64_OPCODE_KPROBES_SS : BitVec 32 := AARCH64_BREAK_MON ||| (KPROBES_BRK_SS_IMM <<< 5)

def validateInstruction (inst : BitVec 32) : Except ProbeInstallError Unit :=
  if inst == BRK64_OPCODE_KPROBES || inst == BRK64_OPCODE_KPROBES_SS then
    .error .unsupportedInstruction
  else
    let isUnconditionalBranch := (inst &&& 0x7c000000) == 0x14000000
    let isCompareBranch := (inst &&& 0x7e000000) == 0x34000000
    let isTestBranch := (inst &&& 0x7e000000) == 0x36000000
    let isConditionalBranch := (inst &&& 0xff000010) == 0x54000000
    let isRegisterBranch := [0xd61f0000, 0xd63f0000, 0xd65f0000].contains (inst &&& 0xfffffc1f)
    let isPcRelativeAddress := (inst &&& 0x9f000000) == 0x10000000
    let isLiteralLoad := (inst &&& 0x3b000000) == 0x18000000
    let isExceptionOrSystem := [0xd4000000, 0xd5000000].contains (inst &&& 0xff000000)
    if isUnconditionalBranch || isCompareBranch || isTestBranch || isConditionalBranch ||
        isRegisterBranch || isPcRelativeAddress || isLiteralLoad || isExceptionOrSystem then
      .error .unsafeInstruction
    else .ok ()

def arch : WordArch where
  validateInstruction := validateInstruction
  breakInst := BRK64_OPCODE_KPROBES
  stepInst := BRK64_OPCODE_KPROBES_SS

/-- Address forms, branches, returns, exceptions, system instructions and literal loads of A64. Those
that only differ in an operand, a width or a key are one row; CB<cc>, PACIASPPC and AUTIASPPC are in
no row. -/
inductive PcDependent where
  | adr | adrp
  | b | bl | bCond | bcCond
  | cbz | cbnz | tbz | tbnz
  | br | blr | ret
  /-- BRAAZ and BRABZ, BRAA and BRAB -/
  | brAuthZero | brAuth
  | blrAuthZero | blrAuth
  /-- RETAASPPC and RETABSPPC with a register; RETAA and RETAB, the zero register, are among them. -/
  | retAuth
  /-- RETAASPPC and RETABSPPC with an offset. -/
  | retAuthImm
  | eret | eretAuth | drps
  | ldrLiteral | ldrswLiteral | prfmLiteral | ldrSimdLiteral | ldrQuadLiteral
  | exceptionGeneration | system
  deriving DecidableEq

def PcDependent.encoding : PcDependent → BitPattern 32
  | adr => { mask := 0x9f000000, value := 0x10000000 }
  | adrp => { mask := 0x9f000000, value := 0x90000000 }
  | b => { mask := 0xfc000000, value := 0x14000000 }
  | bl => { mask := 0xfc000000, value := 0x94000000 }
  | bCond => { mask := 0xff000010, value := 0x54000000 }
  | bcCond => { mask := 0xff000010, value := 0x54000010 }
  | cbz => { mask := 0x7f000000, value := 0x34000000 }
  | cbnz => { mask := 0x7f000000, value := 0x35000000 }
  | tbz => { mask := 0x7f000000, value := 0x36000000 }
  | tbnz => { mask := 0x7f000000, value := 0x37000000 }
  | br => { mask := 0xfffffc1f, value := 0xd61f0000 }
  | blr => { mask := 0xfffffc1f, value := 0xd63f0000 }
  | ret => { mask := 0xfffffc1f, value := 0xd65f0000 }
  | brAuthZero => { mask := 0xfffff81f, value := 0xd61f081f }
  | brAuth => { mask := 0xfffff800, value := 0xd71f0800 }
  | blrAuthZero => { mask := 0xfffff81f, value := 0xd63f081f }
  | blrAuth => { mask := 0xfffff800, value := 0xd73f0800 }
  | retAuth => { mask := 0xfffffbe0, value := 0xd65f0be0 }
  | retAuthImm => { mask := 0xffc0001f, value := 0x5500001f }
  | eret => { mask := 0xffffffff, value := 0xd69f03e0 }
  | eretAuth => { mask := 0xfffffbff, value := 0xd69f0bff }
  | drps => { mask := 0xffffffff, value := 0xd6bf03e0 }
  | ldrLiteral => { mask := 0xbf000000, value := 0x18000000 }
  | ldrswLiteral => { mask := 0xff000000, value := 0x98000000 }
  | prfmLiteral => { mask := 0xff000000, value := 0xd8000000 }
  | ldrSimdLiteral => { mask := 0xbf000000, value := 0x1c000000 }
  | ldrQuadLiteral => { mask := 0xff000000, value := 0x9c000000 }
  | exceptionGeneration => { mask := 0xff000000, value := 0xd4000000 }
  | system => { mask := 0xff000000, value := 0xd5000000 }

/-- The rows that no mask covers: the one for addresses fixes the bit that tells ADRP from ADR,
the one for B.cond the bit that tells BC.cond from it, and the one for branches to a register
the bits that choose authentication and the exception returns. The return with an offset stands
apart from all of them. -/
def unmasked : List PcDependent :=
  [.adrp, .bcCond, .brAuthZero, .brAuth, .blrAuthZero, .blrAuth, .retAuth, .retAuthImm, .eret,
    .eretAuth, .drps]

/-- What `validate_instruction` masks out. -/
def masked : List (BitPattern 32) := [
  .exactly BRK64_OPCODE_KPROBES,
  .exactly BRK64_OPCODE_KPROBES_SS,
  { mask := 0x7c000000, value := 0x14000000 },
  { mask := 0x7e000000, value := 0x34000000 },
  { mask := 0x7e000000, value := 0x36000000 },
  { mask := 0xff000010, value := 0x54000000 },
  { mask := 0xfffffc1f, value := 0xd61f0000 },
  { mask := 0xfffffc1f, value := 0xd63f0000 },
  { mask := 0xfffffc1f, value := 0xd65f0000 },
  { mask := 0x9f000000, value := 0x10000000 },
  { mask := 0x3b000000, value := 0x18000000 },
  { mask := 0xff000000, value := 0xd4000000 },
  { mask := 0xff000000, value := 0xd5000000 }]

theorem validateInstruction_ok {inst : BitVec 32} :
    validateInstruction inst = .ok () ↔ ∀ p ∈ masked, ¬ p.Matches inst := by
  unfold validateInstruction masked
  simp only [List.forall_mem_cons, BitPattern.matches_exactly]
  simp only [BitPattern.Matches]
  grind

theorem encoding_within {f : PcDependent} (h : f ∉ unmasked) :
    ∃ p ∈ masked, f.encoding.Within p := by
  revert h
  cases f <;> decide

theorem encoding_apart {f : PcDependent} (h : f ∈ unmasked) :
    ∀ p ∈ masked, f.encoding.Apart p := by
  revert h
  cases f <;> decide

/-- A word of a row is accepted exactly when no mask covers the row. -/
theorem validateInstruction_ok_iff {f : PcDependent} {inst : BitVec 32}
    (h : f.encoding.Matches inst) : validateInstruction inst = .ok () ↔ f ∈ unmasked := by
  rw [validateInstruction_ok]
  constructor
  · intro hnone
    by_contra hf
    obtain ⟨p, hp, hmatches⟩ := BitPattern.exists_matches (encoding_within hf) h
    exact hnone p hp hmatches
  · intro hf
    exact BitPattern.forall_not_matches (encoding_apart hf) h

/-- An instruction that reads the program counter or transfers control is refused exactly when a
mask covers its row, and any other one is single-stepped from the slot. -/
theorem pc_dependent_rejected_iff (f : PcDependent) (inst : BitVec 32)
    (h : f.encoding.Matches inst) :
    ((∃ e, validateInstruction inst = .error e) ↔ f ∉ unmasked) ∧
      ∀ (mem : Memory) (b : ProbeBuilder) (page : Nat), wordAt mem b.userPid b.probeAddr = inst →
        (arch.CopiesIntoSlot mem b page ↔ b.probeAddr &&& 3 = 0 ∧ f ∈ unmasked) :=
  arch.refused_or_copied (validateInstruction_ok_iff h)

/-- `adr x0, .` -/
theorem adr_rejected : ∃ e, validateInstruction 0x10000000 = .error e :=
  (pc_dependent_rejected_iff .adr 0x10000000 (by decide)).1.mpr (by decide)

/-- `adrp x0, .` -/
theorem adrp_accepted : PcDependent.adrp.encoding.Matches 0x90000000 ∧
    ¬ ∃ e, validateInstruction 0x90000000 = .error e := by
  refine ⟨by decide, ?_⟩
  rintro ⟨e, he⟩
  cases he

end ExtKtrace.Kprobe.Aarch64
