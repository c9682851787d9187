import ExtKtrace.Kprobe.InStep

/-!
# Executing a probed instruction

A thread executes what is in memory. At a probed instruction it runs into a breakpoint, is sent to
the slot, executes the instruction there and runs into the breakpoint behind it.
-/

namespace ExtKtrace.Kprobe
set_option autoImplicit false

open Endian Filing Kernel

/-- The length of an instruction, which its first two bits decide. -/
def lenOf (bytes : List UInt8) : Nat :=
  if leNat (bytes.take 2) &&& insnLengthMask ≠ insnLength32 then 2 else 4

/-- The bytes that are executed at an address. -/
def insnBytes (m : Memory) (sp : Space) (a : Nat) : List UInt8 := m.read sp a (insnLen m sp a)

def isBreak (bytes : List UInt8) : Bool :=
  bytes = toLe 2 cEbreakInst || bytes = toLe 4 ebreakInst

theorem two_le_insnLen (m : Memory) (sp : Space) (a : Nat) : 2 ≤ insnLen m sp a := by
  unfold insnLen
  split <;> omega

theorem take_two_read (m : Memory) (sp : Space) (a : Nat) {n : Nat} (h : 2 ≤ n) :
    (m.read sp a n).take 2 = m.read sp a 2 := by
  obtain ⟨k, rfl⟩ := Nat.exists_eq_add_of_le h
  rw [Memory.read_add]
  exact List.take_left' (Memory.length_read m sp a 2)

theorem insnLen_eq_lenOf (m : Memory) (sp : Space) (a : Nat) :
    insnLen m sp a = lenOf (insnBytes m sp a) := by
  unfold lenOf insnBytes
  rw [take_two_read m sp a (two_le_insnLen m sp a)]
  rfl

/-- What lies at an address is executed if it is as long as its own first bits say. -/
theorem insnBytes_of_read {m : Memory} {sp : Space} {a : Nat} {bs : List UInt8} {n : Nat}
    (h : m.read sp a n = bs) (hn : 2 ≤ n) (hlen : lenOf bs = n) : insnBytes m sp a = bs := by
  have htwo : insnLen m sp a = n := by
    rw [← hlen, ← h]
    unfold lenOf
    rw [take_two_read m sp a hn]
    rfl
  unfold insnBytes
  rw [htwo, h]

theorem OpcodeTy.two_le_len (o : OpcodeTy) : 2 ≤ o.len := by
  cases o <;> simp [OpcodeTy.len]

theorem OpcodeTy.lenOf_breakBytes (o : OpcodeTy) : lenOf o.breakBytes = o.len := by
  cases o <;> (simp only [OpcodeTy.breakBytes, OpcodeTy.len]; decide)

theorem OpcodeTy.isBreak_breakBytes (o : OpcodeTy) : isBreak o.breakBytes = true := by
  cases o <;> rfl

section Fetch
variable {m : Memory} {sp : Space} {a : Nat} {o : OpcodeTy}

theorem fetch_insnBytes (h : fetch m sp a = .ok o) : insnBytes m sp a = o.bytes := by
  unfold insnBytes
  rw [← fetch_len h]
  exact (fetch_ok h).1

theorem fetch_lenOf (h : fetch m sp a = .ok o) : lenOf o.bytes = o.len := by
  rw [fetch_len h, insnLen_eq_lenOf, fetch_insnBytes h]

theorem fetch_not_break (h : fetch m sp a = .ok o) : isBreak o.bytes = false := by
  have hne := (fetch_ok h).2
  have hlen : o.bytes.length = o.len := o.length_bytes
  unfold isBreak
  rw [Bool.or_eq_false_iff, decide_eq_false_iff_not, decide_eq_false_iff_not]
  constructor
  · intro heq
    rw [heq] at hlen
    cases o with
    | inst16 i => exact hne heq
    | inst32 i => cases hlen
  · intro heq
    rw [heq] at hlen
    cases o with
    | inst16 i => cases hlen
    | inst32 i => exact hne heq

end Fetch

/-- An instruction that a probe may replace. -/
def Replaceable (o : OpcodeTy) : Prop := ∃ m sp a, fetch m sp a = .ok o

/-- What instructions do to the registers and to the data of a program. Those that a probe may
replace do not ask where they are, do not trap, and go nowhere but to the next one. -/
structure Processor (δ : Type) where
  execute : List UInt8 → PtRegs → δ → PtRegs × δ
  movable : ∀ o, Replaceable o → ∀ (r : PtRegs) (d : δ) (pc : Nat),
    execute o.bytes (r.updatePc pc) d =
      ((execute o.bytes r d).1.updatePc ((pc + o.len) % usizeMod), (execute o.bytes r d).2)

theorem PtRegs.updatePc_epc (r : PtRegs) : r.updatePc r.epc = r := rfl

@[simp] theorem PtRegs.updatePc_updatePc (r : PtRegs) (pc pc' : Nat) :
    (r.updatePc pc).updatePc pc' = r.updatePc pc' := rfl

@[simp] theorem PtRegs.epc_updatePc (r : PtRegs) (pc : Nat) : (r.updatePc pc).epc = pc := rfl

section Processor
variable {δ : Type} (P : Processor δ)

theorem Processor.execute_epc {o : OpcodeTy} (h : Replaceable o) (r : PtRegs) (d : δ) :
    (P.execute o.bytes r d).1.epc = (r.epc + o.len) % usizeMod := by
  have hmove := congrArg (fun x => x.1.epc) (P.movable o h r d r.epc)
  rwa [r.updatePc_epc] at hmove

/-- The program as it is without probes. -/
structure Native (δ : Type) where
  regs : PtRegs
  data : δ

/-- A breakpoint of the program's own stops it. -/
def Native.step (m : Memory) (s : Native δ) : Option (Native δ) :=
  let bytes := insnBytes m none s.regs.epc
  if isBreak bytes then none
  else
    let after := P.execute bytes s.regs s.data
    some ⟨after.1, after.2⟩

def Native.Next (m : Memory) (s s' : Native δ) : Prop := s.step P m = some s'

/-- A thread on probed text, with the calls of handlers that its traps have made. -/
structure Walker (δ : Type) where
  regs : PtRegs
  data : δ
  calls : List Event

/-- One instruction from memory. What nobody claims stops the thread. -/
def Walker.step (k : Kernel) (th : Walker δ) : Option (Walker δ) :=
  let bytes := insnBytes k.mem none th.regs.epc
  if isBreak bytes then
    match k.kprobeHandlerFromBreak ⟨th.regs, th.calls⟩ with
    | .claimed t => some { th with regs := t.regs, calls := t.calls }
    | .unclaimed => none
    | .panicked => none
  else
    let after := P.execute bytes th.regs th.data
    some { th with regs := after.1, data := after.2 }

end Processor

/-- Kernel probes only, in pages that the address space has room for. -/
structure InSpace (k : Kernel) : Prop where
  kernel : ∀ p pt, k.points.value p = some pt → pt.userPid = none
  room : ∀ q ∈ k.pages, q + pageSize ≤ usizeMod

namespace Registry
variable {L : Layout} {r : Registry} {a p : Nat} {pt : ProbePoint}

/-- The point that is filed at an address. -/
structure PointAt (r : Registry) (a p : Nat) (pt : ProbePoint) : Prop where
  filed : r.k.pointList.lookup a = some p
  value : r.k.points.value p = some pt

theorem Settled.pointAt (s : Settled L r) (h : r.registeredAt a ≠ []) :
    ∃ p pt, r.PointAt a p pt := by
  obtain ⟨p, hp⟩ := Option.isSome_iff_exists.mp ((s.pointList_isSome a).mpr h)
  obtain ⟨pt, hpt, -⟩ := s.filed_point hp
  exact ⟨p, pt, hp, hpt⟩

theorem Settled.addr (s : Settled L r) (h : r.PointAt a p pt) : pt.addr = a := by
  obtain ⟨qt, hqt, haddr, -⟩ := s.filed_point h.filed
  rw [h.value] at hqt
  cases hqt
  exact haddr

theorem Settled.registered_ne (s : Settled L r) (h : r.PointAt a p pt) :
    r.registeredAt a ≠ [] := by
  obtain ⟨-, -, -, hne⟩ := s.filed_point h.filed
  exact hne

theorem Settled.point_of_registered (s : Settled L r) (h : r.PointAt a p pt) {u : UniProbe}
    (hu : u ∈ r.registeredAt a) : r.k.pointId u = some p ∧ r.k.probePoint u = some pt := by
  rw [s.registeredAt] at hu
  obtain ⟨hu, hkey⟩ := List.mem_filter.mp hu
  have hid := s.books.pointed_handle hu
  rw [of_decide_eq_true hkey, h.filed] at hid
  refine ⟨hid.symm, ?_⟩
  unfold Kernel.probePoint
  rw [← hid]
  exact h.value

theorem Settled.firstPoint_registered (s : Settled L r) (h : r.PointAt a p pt) :
    r.k.firstPoint (r.registeredAt a) = some pt := by
  have hne := s.registered_ne h
  cases hl : r.registeredAt a with
  | nil => exact absurd hl hne
  | cons u l =>
    have hu : u ∈ r.registeredAt a := by
      rw [hl]
      exact List.mem_cons_self
    exact (s.point_of_registered h hu).2

theorem Settled.break_registered (s : Settled L r) (h : r.PointAt a p pt) :
    r.k.getBreakList a = some (r.registeredAt a) :=
  (s.breakList a).trans (stored_of_ne (s.registered_ne h))

theorem Settled.debug_registered (s : Settled L r) (h : r.PointAt a p pt) :
    r.k.getDebugList pt.debugAddress = some (r.registeredAt a) :=
  (s.debugList h.filed h.value).trans (stored_of_ne (s.registered_ne h))

theorem Settled.debugAddress (s : Settled L r) (h : r.PointAt a p pt) :
    pt.debugAddress = pt.singleStepAddress + pt.oldInstruction.len := by
  have hdyn := s.inKernel p pt h.value
  rw [pt.debugAddress_eq, ProbePoint.debugPage, if_pos hdyn]

/-- No kernel text is a debug address. -/
theorem Settled.debug_off (s : Settled L r) (h : r.PointAt a p pt) :
    ¬ L.text none pt.debugAddress := by
  have hlen := pt.oldInstruction.len_le
  have hoff := s.books.sound.planted.pages_off _ (s.books.sound.planted.slot_mem _ _ h.value)
  rw [s.debugAddress h]
  exact hoff _ (by omega) (by unfold pageSize; omega)

theorem Settled.no_break_at_debug (s : Settled L r) (hk : InSpace r.k) (h : r.PointAt a p pt) :
    r.k.getBreakList pt.debugAddress = none := by
  refine (s.breakList _).trans ?_
  rw [stored_eq_none]
  by_contra hne
  obtain ⟨q, qt, hq⟩ := s.pointAt hne
  have hsite := s.books.sound.planted.site q qt hq.value
  have htext := L.in_text _ _ 0 hsite (Nat.lt_of_lt_of_le Nat.two_pos (two_le_insnLen _ _ _))
  rw [hk.kernel q qt hq.value, s.addr hq] at htext
  exact s.debug_off h htext

/-- A text address is no debug address. -/
theorem Settled.no_debug_at_text (s : Settled L r) (htext : L.text none a) :
    r.k.getDebugList a = none := by
  by_contra hsome
  obtain ⟨u, hu, hkey⟩ :=
    (Files.lookup_isSome s.filed a).mp (Option.isSome_iff_ne_none.mpr hsome)
  obtain ⟨pr, pt, -, hpt, hid, hprobe⟩ := s.books.live_handle hu
  have hat : r.PointAt (r.k.breakKey u) pr.point pt := ⟨(s.books.pointed_handle hu).trans hid, hpt⟩
  rw [debugKey_of hprobe] at hkey
  rw [← hkey] at htext
  exact s.debug_off hat htext

section Bytes

theorem Settled.found (s : Settled L r) (hk : InSpace r.k) (h : r.PointAt a p pt) :
    fetch L.code none a = .ok pt.oldInstruction := by
  have hfound := s.books.sound.planted.found p pt h.value
  rwa [hk.kernel p pt h.value, s.addr h] at hfound

/-- There is a breakpoint where there is a probe, -/
theorem Settled.bytes_at_site (s : Settled L r) (hk : InSpace r.k) (h : r.PointAt a p pt) :
    insnBytes r.k.mem none a = pt.oldInstruction.breakBytes := by
  have hread := s.books.sound.planted.patched p pt h.value
  rw [hk.kernel p pt h.value, s.addr h] at hread
  exact insnBytes_of_read hread pt.oldInstruction.two_le_len pt.oldInstruction.lenOf_breakBytes

theorem Settled.slot_read (s : Settled L r) (h : r.PointAt a p pt) :
    r.k.mem.read none pt.singleStepAddress pt.oldInstruction.len = pt.oldInstruction.bytes ∧
      r.k.mem.read none (pt.singleStepAddress + pt.oldInstruction.len) pt.oldInstruction.len =
        pt.oldInstruction.breakBytes := by
  have hslot := s.books.sound.planted.slot p pt h.value
  rw [pt.instructionSlotLen_eq, Memory.read_add, ProbePoint.slotBytes] at hslot
  have hlen : (r.k.mem.read none pt.singleStepAddress pt.oldInstruction.len).length =
      pt.oldInstruction.bytes.length := by
    rw [Memory.length_read, OpcodeTy.length_bytes]
  exact List.append_inj hslot hlen

/-- the instruction it replaced is in the slot, -/
theorem Settled.bytes_in_slot (s : Settled L r) (hk : InSpace r.k) (h : r.PointAt a p pt) :
    insnBytes r.k.mem none pt.singleStepAddress = pt.oldInstruction.bytes :=
  insnBytes_of_read (s.slot_read h).1 pt.oldInstruction.two_le_len (fetch_lenOf (s.found hk h))

/-- and behind that is another breakpoint. -/
theorem Settled.bytes_behind_slot (s : Settled L r) (h : r.PointAt a p pt) :
    insnBytes r.k.mem none pt.debugAddress = pt.oldInstruction.breakBytes := by
  rw [s.debugAddress h]
  exact insnBytes_of_read (s.slot_read h).2 pt.oldInstruction.two_le_len
    pt.oldInstruction.lenOf_breakBytes

/-- Where no probe is, the program is as it was. -/
theorem Settled.bytes_unprobed (s : Settled L r) (hsite : L.site none a)
    (h : r.registeredAt a = []) : insnBytes r.k.mem none a = insnBytes L.code none a := by
  have hread := s.inStep.restored none a hsite h
  exact insnBytes_of_read hread (two_le_insnLen _ _ _) (insnLen_eq_lenOf _ _ _).symm

end Bytes

theorem Settled.unclaimed (s : Settled L r) (htext : L.text none a) (h : r.registeredAt a = [])
    {t : Trap} (hpc : t.regs.epc = a) : r.k.kprobeHandlerFromBreak t = .unclaimed := by
  have hbreak : r.k.getBreakList t.regs.breakAddress = none := by
    unfold PtRegs.breakAddress
    rw [hpc]
    refine (s.breakList a).trans ?_
    rw [h]
    rfl
  have hdebug : r.k.getDebugList t.regs.debugAddress = none := by
    unfold PtRegs.debugAddress
    rw [hpc]
    exact s.no_debug_at_text htext
  unfold Kernel.kprobeHandlerFromBreak Kernel.kprobeHandlerFromDebug
  rw [hbreak, hdebug]

theorem Settled.claimed_at_site (s : Settled L r) (h : r.PointAt a p pt) {t : Trap}
    (hpc : t.regs.epc = a) :
    r.k.kprobeHandlerFromBreak t = .claimed
      { r.k.runPre (r.registeredAt a) t with
        regs := (r.k.runPre (r.registeredAt a) t).regs.updatePc pt.singleStepAddress } := by
  have hbreak : r.k.getBreakList t.regs.breakAddress = some (r.registeredAt a) := by
    unfold PtRegs.breakAddress
    rw [hpc]
    exact s.break_registered h
  unfold Kernel.kprobeHandlerFromBreak
  rw [hbreak]
  dsimp only
  rw [s.firstPoint_registered h]
  rfl

theorem Settled.claimed_behind_slot (s : Settled L r) (hk : InSpace r.k) (h : r.PointAt a p pt)
    {t : Trap} (hpc : t.regs.epc = pt.debugAddress) :
    r.k.kprobeHandlerFromBreak t = .claimed
      { r.k.runPost (r.registeredAt a) t with
        regs := (r.k.runPost (r.registeredAt a) t).regs.updatePc pt.returnAddress } := by
  have hbreak : r.k.getBreakList t.regs.breakAddress = none := by
    unfold PtRegs.breakAddress
    rw [hpc]
    exact s.no_break_at_debug hk h
  have hdebug : r.k.getDebugList t.regs.debugAddress = some (r.registeredAt a) := by
    unfold PtRegs.debugAddress
    rw [hpc]
    exact s.debug_registered h
  unfold Kernel.kprobeHandlerFromBreak
  rw [hbreak]
  dsimp only
  unfold Kernel.kprobeHandlerFromDebug
  rw [hdebug]
  dsimp only
  rw [s.firstPoint_registered h]
  rfl

section Walk
variable {δ : Type} (P : Processor δ) {th : Walker δ}

theorem Settled.step_unprobed (s : Settled L r) (hsite : L.site none th.regs.epc)
    (h : r.registeredAt th.regs.epc = []) :
    th.step P r.k =
      (Native.step P L.code ⟨th.regs, th.data⟩).map fun n => ⟨n.regs, n.data, th.calls⟩ := by
  have htext := L.in_text _ _ 0 hsite (Nat.lt_of_lt_of_le Nat.two_pos (two_le_insnLen _ _ _))
  unfold Walker.step Native.step
  rw [s.bytes_unprobed hsite h]
  dsimp only
  split
  · rw [s.unclaimed htext h rfl]
    rfl
  · rfl

/-- The trap at the probed instruction, -/
theorem Settled.step_site (s : Settled L r) (hk : InSpace r.k) (h : r.PointAt a p pt)
    (hpc : th.regs.epc = a) :
    th.step P r.k = some
      { th with
        regs := (r.k.runPre (r.registeredAt a) ⟨th.regs, th.calls⟩).regs.updatePc
          pt.singleStepAddress
        calls := (r.k.runPre (r.registeredAt a) ⟨th.regs, th.calls⟩).calls } := by
  unfold Walker.step
  rw [hpc, s.bytes_at_site hk h]
  dsimp only
  rw [if_pos pt.oldInstruction.isBreak_breakBytes, s.claimed_at_site h hpc]

/-- the instruction in its slot, -/
theorem Settled.step_slot (s : Settled L r) (hk : InSpace r.k) (h : r.PointAt a p pt)
    (th : Walker δ) (regs : PtRegs) (hregs : th.regs = regs.updatePc pt.singleStepAddress) :
    th.step P r.k = some
      { th with
        regs := (P.execute pt.oldInstruction.bytes regs th.data).1.updatePc pt.debugAddress
        data := (P.execute pt.oldInstruction.bytes regs th.data).2 } := by
  have hfound := s.found hk h
  have hroom := hk.room _ (s.books.sound.planted.slot_mem p pt h.value)
  have hlen := pt.oldInstruction.len_le
  have hnext : (pt.singleStepAddress + pt.oldInstruction.len) % usizeMod = pt.debugAddress := by
    rw [s.debugAddress h]
    apply Nat.mod_eq_of_lt
    unfold pageSize at hroom
    omega
  unfold Walker.step
  rw [hregs, PtRegs.epc_updatePc, s.bytes_in_slot hk h]
  dsimp only
  rw [fetch_not_break hfound, P.movable _ ⟨_, _, _, hfound⟩, hnext]
  rfl

/-- and the trap behind it. -/
theorem Settled.step_behind (s : Settled L r) (hk : InSpace r.k) (h : r.PointAt a p pt)
    (th : Walker δ) (hpc : th.regs.epc = pt.debugAddress) :
    th.step P r.k = some
      { th with
        regs := (r.k.runPost (r.registeredAt a) ⟨th.regs, th.calls⟩).regs.updatePc pt.returnAddress
        calls := (r.k.runPost (r.registeredAt a) ⟨th.regs, th.calls⟩).calls } := by
  unfold Walker.step
  rw [hpc, s.bytes_behind_slot h]
  dsimp only
  rw [if_pos pt.oldInstruction.isBreak_breakBytes, s.claimed_behind_slot hk h hpc]

/-- What the unprobed program does at the same place. -/
theorem Settled.native_step (s : Settled L r) (hk : InSpace r.k) (h : r.PointAt a p pt)
    (n : Native δ) (hpc : n.regs.epc = a) :
    n.step P L.code = some
        ⟨(P.execute pt.oldInstruction.bytes n.regs n.data).1,
          (P.execute pt.oldInstruction.bytes n.regs n.data).2⟩ ∧
      (P.execute pt.oldInstruction.bytes n.regs n.data).1.epc = pt.returnAddress := by
  have hfound := s.found hk h
  constructor
  · unfold Native.step
    rw [hpc, fetch_insnBytes hfound]
    dsimp only
    rw [fetch_not_break hfound]
    rfl
  · rw [P.execute_epc ⟨_, _, _, hfound⟩, hpc]
    unfold ProbePoint.returnAddress
    rw [s.addr h]
    rfl

end Walk

end Registry

end ExtKtrace.Kprobe
