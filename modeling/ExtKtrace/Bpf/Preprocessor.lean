import ExtKtrace.Bpf.UnifiedMap
import ExtKtrace.Lib.Outcome
import Mathlib.Logic.Relation

/-!
# The preprocessor

A program names its maps by file descriptor, in `LD_DW_IMM` instructions of two slots. The
preprocessor puts the addresses in, on its way through the program.
-/

namespace ExtKtrace.Bpf
set_option autoImplicit false

def BPF_PSEUDO_MAP_FD : UInt32 := 1
def BPF_PSEUDO_MAP_VALUE : UInt32 := 2
def LD_DW_IMM : UInt8 := 0x18

/-- The trait of that name, and the kernel's `translate_instruction`: a program is cut into slots
of eight bytes, `to_array` is the way back, and `set_imm` writes the last four bytes. -/
structure EbpfInst (ι : Type) where
  opc : ι → UInt8
  imm : ι → Int32
  src : ι → UInt8
  setImm : Int32 → ι → ι
  toArray : ι → Bytes
  translateInstruction : Bytes → Except BpfError (List ι)
  length_toArray : ∀ insn, (toArray insn).length = 8
  opc_setImm : ∀ v insn, opc (setImm v insn) = opc insn
  src_setImm : ∀ v insn, src (setImm v insn) = src insn
  imm_setImm : ∀ v insn, imm (setImm v insn) = v
  take_setImm : ∀ v insn, (toArray (setImm v insn)).take 4 = (toArray insn).take 4
  translate_whole : ∀ bytes, bytes.length % 8 = 0 →
    ∃ insns, translateInstruction bytes = .ok insns ∧ insns.flatMap toArray = bytes
  translate_toArray : ∀ insns, translateInstruction (insns.flatMap toArray) = .ok insns
  translate_odd : ∀ bytes, bytes.length % 8 ≠ 0 → ∃ e, translateInstruction bytes = .error e

/-- A slot as the instruction set lays it out; the source register is the upper half of
`regs`. -/
structure Slot where
  opcode : UInt8
  regs : UInt8
  offLow : UInt8
  offHigh : UInt8
  imm : UInt32
  deriving DecidableEq

namespace Slot

def toArray (s : Slot) : Bytes :=
  [s.opcode, s.regs, s.offLow, s.offHigh] ++ Endian.toLe 4 s.imm.toNat

def parse : Bytes → Except BpfError (List Slot)
  | [] => .ok []
  | opcode :: regs :: offLow :: offHigh :: i₀ :: i₁ :: i₂ :: i₃ :: rest =>
    (parse rest).map fun slots =>
      ⟨opcode, regs, offLow, offHigh, .ofNat (Endian.leNat [i₀, i₁, i₂, i₃])⟩ :: slots
  | _ => .error .EINVAL

theorem parse_toArray (s : Slot) (rest : Bytes) :
    parse (s.toArray ++ rest) = (parse rest).map (s :: ·) := by
  have himm : UInt32.ofNat (Endian.leNat (Endian.toLe 4 s.imm.toNat)) = s.imm := by
    rw [Endian.leNat_toLe_of_lt s.imm.toNat_lt, UInt32.ofNat_toNat]
  have hparse : parse (s.toArray ++ rest) = (parse rest).map fun slots =>
      ⟨s.opcode, s.regs, s.offLow, s.offHigh,
        .ofNat (Endian.leNat (Endian.toLe 4 s.imm.toNat))⟩ :: slots := rfl
  rw [hparse, himm]

theorem parse_flatMap (slots : List Slot) : parse (slots.flatMap toArray) = .ok slots := by
  induction slots with
  | nil => rfl
  | cons s slots ih =>
    rw [List.flatMap_cons, parse_toArray, ih]
    rfl

/-- What is neither empty nor as long as a slot is cut short. -/
theorem length_mod_of_short {bytes : Bytes} (hne : bytes = [] → False)
    (hshort : ∀ b₀ b₁ b₂ b₃ b₄ b₅ b₆ b₇ rest,
      bytes = b₀ :: b₁ :: b₂ :: b₃ :: b₄ :: b₅ :: b₆ :: b₇ :: rest → False) :
    bytes.length % 8 ≠ 0 := by
  rcases bytes with - | ⟨b₀, - | ⟨b₁, - | ⟨b₂, - | ⟨b₃, - | ⟨b₄, - | ⟨b₅, - | ⟨b₆, - | ⟨b₇, rest⟩⟩⟩⟩⟩⟩⟩⟩
  case nil => exact absurd rfl hne
  case cons.cons.cons.cons.cons.cons.cons.cons => exact absurd rfl (hshort _ _ _ _ _ _ _ _ rest)
  all_goals simp

theorem parse_whole (bytes : Bytes) (h : bytes.length % 8 = 0) :
    ∃ slots, parse bytes = .ok slots ∧ slots.flatMap toArray = bytes := by
  fun_induction parse bytes with
  | case1 => exact ⟨[], rfl, rfl⟩
  | case2 opcode regs offLow offHigh i₀ i₁ i₂ i₃ rest ih =>
    simp only [List.length_cons] at h
    obtain ⟨slots, hparse, hflat⟩ := ih (by omega)
    have hlt : Endian.leNat [i₀, i₁, i₂, i₃] < 2 ^ 32 := by
      have h₀ := i₀.toNat_lt
      have h₁ := i₁.toNat_lt
      have h₂ := i₂.toNat_lt
      have h₃ := i₃.toNat_lt
      simp only [Endian.leNat]
      omega
    have hbytes : Endian.toLe 4 (UInt32.ofNat (Endian.leNat [i₀, i₁, i₂, i₃])).toNat =
        [i₀, i₁, i₂, i₃] := by
      rw [UInt32.toNat_ofNat', Nat.mod_eq_of_lt hlt]
      exact Endian.toLe_leNat [i₀, i₁, i₂, i₃]
    refine ⟨⟨opcode, regs, offLow, offHigh, .ofNat (Endian.leNat [i₀, i₁, i₂, i₃])⟩ :: slots, ?_, ?_⟩
    · rw [hparse]
      rfl
    · rw [List.flatMap_cons, hflat]
      unfold toArray
      rw [hbytes]
      rfl
  | case3 bytes hne hshort => exact absurd h (length_mod_of_short hne hshort)

theorem parse_odd (bytes : Bytes) (h : bytes.length % 8 ≠ 0) : ∃ e, parse bytes = .error e := by
  fun_induction parse bytes with
  | case1 => exact absurd rfl h
  | case2 opcode regs offLow offHigh i₀ i₁ i₂ i₃ rest ih =>
    simp only [List.length_cons] at h
    obtain ⟨e, hparse⟩ := ih (by omega)
    exact ⟨e, by rw [hparse]; rfl⟩
  | case3 => exact ⟨_, rfl⟩

def inst : EbpfInst Slot where
  opc := Slot.opcode
  imm s := s.imm.toInt32
  src s := s.regs >>> 4
  setImm v s := { s with imm := v.toUInt32 }
  toArray := Slot.toArray
  translateInstruction := parse
  length_toArray s := by simp [Slot.toArray]
  opc_setImm _ _ := rfl
  src_setImm _ _ := rfl
  imm_setImm v _ := Int32.toInt32_toUInt32 v
  take_setImm _ _ := rfl
  translate_whole := parse_whole
  translate_toArray := parse_flatMap
  translate_odd := parse_odd

end Slot

structure Range where
  start : UInt64
  stop : UInt64

/-- The vector of a map whose range `map_values_ptr_range` gives. -/
def BpfMap.values {crate : LruCrate Bytes Bytes} (cpu : UInt32) : BpfMap crate → Option Bytes
  | .array m => some m.data.data
  | .perCpuArray m => m.cells[cpu.toNat]?.map fun cell => cell.data.data
  | .perfEventArray m => some m.fds.data
  | _ => none

/-- A map as a CPU sees it, with its values in memory. -/
structure PlacedMap (crate : LruCrate Bytes Bytes) where
  map : BpfMap crate
  cpu : UInt32
  address : UInt64
  fits : ∀ data, map.values cpu = some data → address.toNat + data.length < 2 ^ 64

def PlacedMap.mapValuesPtrRange {crate : LruCrate Bytes Bytes} (m : PlacedMap crate) :
    Except BpfError Range :=
  match m.map.values m.cpu with
  | some data => .ok ⟨m.address, m.address + .ofNat data.length⟩
  | none => .error .EPERM

/-- The lookups of a descriptor. What one gives may change on the way, so each is told the index
of the instruction too. -/
structure MapFds (crate : LruCrate Bytes Bytes) where
  getUnifiedMapFromFd : Nat → UInt32 → Except BpfError (PlacedMap crate)
  getUnifiedMapPtrFromFd : Nat → UInt32 → Except BpfError UInt64

namespace Preprocess

inductive Fault where
  | indexOutOfBounds
  | addWithOverflow
  /-- the loop of the model has come to its end, and that of the source has not -/
  | unfinished

abbrev Attempt (α : Type) := Outcome Fault BpfError α

/-- The `?` operator. -/
def ofCall {α : Type} (r : Except BpfError α) : Attempt α := Outcome.ofResult (.ok r)

/-- `v[i]` -/
def index {α : Type} (v : List α) (i : Nat) : Attempt α :=
  match v[i]? with
  | some a => pure a
  | none => Outcome.fault .indexOutOfBounds

/-- `a + b`, which wraps in a build without overflow checks. -/
def add (overflowChecks : Bool) (a b : UInt64) : Attempt UInt64 :=
  if overflowChecks ∧ 2 ^ 64 ≤ a.toNat + b.toNat then Outcome.fault .addWithOverflow
  else pure (a + b)

end Preprocess

structure EbpfPreProcessor where
  newInsn : Bytes
  rawFilePtr : List UInt64

namespace EbpfPreProcessor
open Preprocess

/-- The variables of the loop. -/
structure Scan (ι : Type) where
  index : Nat
  fmtInsn : List ι
  rawFilePtr : List UInt64

section
variable {ι : Type} {crate : LruCrate Bytes Bytes} (E : EbpfInst ι) (fds : MapFds crate)
  (overflowChecks : Bool)

/-- `insn.imm() as usize` -/
def immAsUsize (insn : ι) : UInt64 := (E.imm insn).toInt64.toUInt64

def mapFd (insn : ι) : UInt32 := (immAsUsize E insn).toUInt32

/-- `map_values_ptr_range` of the map that the instruction at an index names. -/
def valuePtr (index : Nat) (insn : ι) : Except BpfError Range := do
  let unifiedMap ← fds.getUnifiedMapFromFd index (mapFd E insn)
  unifiedMap.mapValuesPtrRange

/-- One turn of the loop. -/
def relocate (s : Scan ι) : Attempt (Scan ι) := do
  let insn ← index s.fmtInsn s.index
  if E.opc insn = LD_DW_IMM then
    let nextInsn ← index s.fmtInsn (s.index + 1)
    let srcReg := E.src insn
    let (ptr, rawFilePtr) ←
      if srcReg.toUInt32 = BPF_PSEUDO_MAP_VALUE then do
        let valuePtr ← ofCall (valuePtr E fds s.index insn)
        let ptr ← add overflowChecks valuePtr.start (immAsUsize E nextInsn)
        pure (some ptr, s.rawFilePtr)
      else if srcReg.toUInt32 = BPF_PSEUDO_MAP_FD then do
        let mapPtr ← ofCall (fds.getUnifiedMapPtrFromFd s.index (mapFd E insn))
        pure (some mapPtr, s.rawFilePtr ++ [mapPtr])
      else pure (none, s.rawFilePtr)
    match ptr with
    | some ptr =>
      let insn := E.setImm ptr.toUInt32.toInt32 insn
      let nextInsn := E.setImm (ptr >>> 32).toUInt32.toInt32 nextInsn
      pure {
        index := s.index + 2
        fmtInsn := (s.fmtInsn.set s.index insn).set (s.index + 1) nextInsn
        rawFilePtr := rawFilePtr }
    | none => pure { s with index := s.index + 1 }
  else pure { s with index := s.index + 1 }

def scanLoop : Nat → Scan ι → Attempt (Scan ι)
  | 0, s => if s.fmtInsn.length ≤ s.index then pure s else Outcome.fault .unfinished
  | fuel + 1, s =>
    if s.fmtInsn.length ≤ s.index then pure s
    else do
      let s ← relocate E fds overflowChecks s
      scanLoop fuel s

/-- The loop that stores the slots back. -/
def storeBack : List ι → Nat → Bytes → Attempt Bytes
  | [], _, instructions => pure instructions
  | ins :: rest, idx, instructions =>
    if idx + 8 ≤ instructions.length then
      storeBack rest (idx + 8)
        (instructions.take idx ++ E.toArray ins ++ instructions.drop (idx + 8))
    else Outcome.fault .indexOutOfBounds

def preprocess (instructions : Bytes) : Attempt EbpfPreProcessor := do
  let fmtInsn ← ofCall (E.translateInstruction instructions)
  let s ← scanLoop E fds overflowChecks fmtInsn.length ⟨0, fmtInsn, []⟩
  let newInsn ← storeBack E s.fmtInsn 0 instructions
  return ⟨newInsn, s.rawFilePtr⟩

end

end EbpfPreProcessor

end ExtKtrace.Bpf
