import ExtKtrace.Lib.Arc
import ExtKtrace.Lib.Filing
import ExtKtrace.Kprobe.Arch

/-!
# The probe registry

The probe manager, the probe point list and the reference counted probes and probe points,
with the memory they patch (`manager.rs`, `kprobe/mod.rs`, `lib.rs` and the installation and
destructor of `arch/rv64/mod.rs`). An allocation takes the page that the allocator hands out
as an argument.
-/

namespace ExtKtrace.Kprobe
set_option autoImplicit false

open Filing

inductive ProbeKind where
  | kprobe
  | kretprobe
  | uprobe
  | uretprobe
  deriving DecidableEq

/-- `UniProbe`: the variant and the allocation its `Arc` points to, which are all that its
equality looks at. -/
structure UniProbe where
  kind : ProbeKind
  arc : Nat
  deriving DecidableEq

abbrev ProbeHandlerFunc := PtRegs → PtRegs

/-- `ProbeBasic`. A handler comes with the data it is called with; the event callbacks are in
the order of their ids. -/
structure ProbeBasic where
  preHandler : Option ProbeHandlerFunc
  postHandler : Option ProbeHandlerFunc
  eventCallbacks : List (Nat × ProbeHandlerFunc)
  enable : Bool

structure Probe where
  basic : ProbeBasic
  point : Nat

structure ProbeBuilder where
  symbolAddr : Nat
  offset : Nat
  preHandler : Option ProbeHandlerFunc
  postHandler : Option ProbeHandlerFunc
  eventCallbacks : List (Nat × ProbeHandlerFunc)
  enable : Bool
  userPid : Space

def ProbeBuilder.probeAddr (b : ProbeBuilder) : Nat := (b.symbolAddr + b.offset) % usizeMod

/-- `ProbeBasic::from` -/
def ProbeBuilder.basic (b : ProbeBuilder) : ProbeBasic where
  preHandler := b.preHandler
  postHandler := b.postHandler
  eventCallbacks := b.eventCallbacks
  enable := b.enable

/-- `KretprobeBuilder`, with the pre handler made from its instances and handlers: what it does to the
registers is left open here. -/
structure KretprobeBuilder where
  symbolAddr : Nat
  enable : Bool
  preHandlerKretprobe : ProbeHandlerFunc

/-- `ProbeBuilder::from(KretprobeBuilder)` -/
def KretprobeBuilder.toProbeBuilder (b : KretprobeBuilder) : ProbeBuilder where
  symbolAddr := b.symbolAddr
  offset := 0
  preHandler := some b.preHandlerKretprobe
  postHandler := none
  eventCallbacks := []
  enable := b.enable
  userPid := none

/-- The memory with the executable pages in use, the allocations behind the `Arc`s, the two
lists of the `ProbeManager` and the `ProbePointList`. -/
structure Kernel where
  mem : Memory
  pages : List Nat
  userPages : List (Space × Nat)
  points : Arcs ProbePoint
  probes : Arcs Probe
  breakList : Table Nat (List UniProbe)
  debugList : Table Nat (List UniProbe)
  pointList : Table Nat Nat

/-- No probes yet. -/
def Kernel.boot (mem : Memory) : Kernel where
  mem := mem
  pages := []
  userPages := []
  points := .empty
  probes := .empty
  breakList := ∅
  debugList := ∅
  pointList := ∅

namespace Kernel
variable (k : Kernel)

def clonePoint (p : Nat) : Kernel := { k with points := k.points.clone p }

def cloneProbe (u : UniProbe) : Kernel := { k with probes := k.probes.clone u.arc }

/-- `ExecMemType::drop` -/
def dropExecMem (e : ExecMemType) : Kernel :=
  match e with
  | .user ptr => { k with pages := k.pages.erase ptr }
  | .kernel ptr => { k with pages := k.pages.erase ptr }

/-- `free_user_exec_memory` -/
def freeUserExecMemory (pid : Space) (ptr : Nat) : Kernel :=
  { k with userPages := k.userPages.erase (pid, ptr) }

/-- `Rv64ProbePoint::drop`, and then the drop of its fields. -/
def dropProbePoint (p : ProbePoint) : Kernel :=
  let k := { k with mem := k.mem.write p.userPid p.addr p.oldInstruction.bytes }
  let k := if p.dynamicUserPtr ≠ 0 then k.freeUserExecMemory p.userPid p.dynamicUserPtr else k
  k.dropExecMem p.oldInstructionPtr

def dropPoint (p : Nat) : Kernel :=
  match k.points.drop p with
  | (none, points) => { k with points := points }
  | (some pt, points) => { k with points := points }.dropProbePoint pt

def dropProbe (u : UniProbe) : Kernel :=
  match k.probes.drop u.arc with
  | (none, probes) => { k with probes := probes }
  | (some pr, probes) => { k with probes := probes }.dropPoint pr.point

def dropProbes (l : List UniProbe) : Kernel := l.foldl dropProbe k

/-- Clone the members of a list, as the clone of a `Vec` does. -/
def cloneList (l : List UniProbe) : Kernel := l.foldl cloneProbe k

def pointId (u : UniProbe) : Option Nat := (k.probes.value u.arc).map Probe.point

/-- `UniProbe::probe_point` -/
def probePoint (u : UniProbe) : Option ProbePoint := (k.pointId u).bind k.points.value

def insertBreakPoint (address : Nat) (u : UniProbe) : Kernel :=
  { k with breakList := push k.breakList address u }

def insertDebugPoint (address : Nat) (u : UniProbe) : Kernel :=
  { k with debugList := push k.debugList address u }

def insertProbe (u : UniProbe) : Kernel :=
  match k.probePoint u with
  | none => k
  | some p =>
    ((k.cloneProbe u).insertBreakPoint p.breakAddress u).insertDebugPoint p.debugAddress u

def getBreakList (address : Nat) : Option (List UniProbe) := k.breakList.lookup address

def getDebugList (address : Nat) : Option (List UniProbe) := k.debugList.lookup address

def kprobeNum (address : Nat) : Nat := ((k.breakList.lookup address).map List.length).getD 0

def replaceDebugListWithNewAddress (oldAddress newAddress : Nat) : Kernel :=
  { k with debugList := rekey k.debugList oldAddress newAddress }.dropProbes
    (overwritten k.debugList oldAddress newAddress)

/-- The members that `retain` takes out of the list are dropped. -/
def removeOneBreak (address : Nat) (u : UniProbe) : Kernel :=
  { k with breakList := removeOne k.breakList address u }.dropProbes
    (removed k.breakList address u)

def removeOneDebug (address : Nat) (u : UniProbe) : Kernel :=
  { k with debugList := removeOne k.debugList address u }.dropProbes
    (removed k.debugList address u)

/-- The handle passed in is dropped at the end. -/
def removeProbe (u : UniProbe) : Kernel :=
  match k.probePoint u with
  | none => k
  | some p =>
    ((k.removeOneBreak p.breakAddress u).removeOneDebug p.debugAddress u).dropProbe u

/-- Write the breakpoint over the instruction, then the slot, and make the probe point. -/
def plant (sp : Space) (address : Nat) (slot : ExecMemType) (old : OpcodeTy) : Nat × Kernel :=
  let mem := k.mem.write sp address old.breakBytes
  let mem := mem.write none slot.asPtr old.bytes
  let mem := mem.write none (slot.asPtr + old.len) old.breakBytes
  let (p, points) := k.points.alloc
    { addr := address, oldInstruction := old, oldInstructionPtr := slot, userPid := sp,
      dynamicUserPtr := 0 }
  (p, { k with mem := mem, points := points })

/-- `replace_inst`. The page is allocated before the instruction is checked, and freed again
when it is refused. -/
def replaceInst (b : ProbeBuilder) (page : Nat) : Except ProbeInstallError Nat × Kernel :=
  let address := b.probeAddr
  if address &&& 0x1 ≠ 0 then (.error .invalidAddress, k)
  else
    let inst16 := Endian.leNat (k.mem.read b.userPid address 2)
    let slot := allocExecMemory b.userPid page
    let k := { k with pages := page :: k.pages }
    if inst16 &&& insnLengthMask ≠ insnLength32 then
      match validateInst16 inst16 with
      | .error e => (.error e, k.dropExecMem slot)
      | .ok () =>
        let (p, k) := k.plant b.userPid address slot (.inst16 inst16)
        (.ok p, k)
    else if address &&& 0x3 ≠ 0 then (.error .invalidAddress, k.dropExecMem slot)
    else
      let inst32 := Endian.leNat (k.mem.read b.userPid address 4)
      match validateInst32 inst32 with
      | .error e => (.error e, k.dropExecMem slot)
      | .ok () =>
        let (p, k) := k.plant b.userPid address slot (.inst32 inst32)
        (.ok p, k)

/-- `install`: the probe and its point, each with a reference to the point. -/
def install (b : ProbeBuilder) (probePoint : Option Nat) (page : Nat) :
    Except ProbeInstallError (Probe × Nat) × Kernel :=
  match probePoint with
  | some p => (.ok (⟨b.basic, p⟩, p), k.clonePoint p)
  | none =>
    match k.replaceInst b page with
    | (.error e, k) => (.error e, k)
    | (.ok p, k) => (.ok (⟨b.basic, p⟩, p), k.clonePoint p)

/-- `kprobe_point_list.insert`; what it replaces is dropped. -/
def insertPoint (address p : Nat) : Kernel :=
  let k' := { k with pointList := k.pointList.insert address p }
  match k.pointList.lookup address with
  | none => k'
  | some q => k'.dropPoint q

/-- `kprobe_point_list.remove`; what it returns is dropped. -/
def removePoint (address : Nat) : Kernel :=
  match k.pointList.lookup address with
  | none => k
  | some p => { k with pointList := k.pointList.erase address }.dropPoint p

/-- `__register_kprobe` -/
def registerRaw (b : ProbeBuilder) (page : Nat) : Except ProbeInstallError Probe × Kernel :=
  let address := b.probeAddr
  match k.pointList.lookup address with
  | some p =>
    match (k.clonePoint p).install b (some p) page with
    | (.error e, k) => (.error e, k)
    | (.ok (probe, point), k) => (.ok probe, k.dropPoint point)
  | none =>
    match k.install b none page with
    | (.error e, k) => (.error e, k)
    | (.ok (probe, point), k) => (.ok probe, k.insertPoint address point)

/-- `Arc::new` -/
def newProbe (kind : ProbeKind) (probe : Probe) : UniProbe × Kernel :=
  let (arc, probes) := k.probes.alloc probe
  (⟨kind, arc⟩, { k with probes := probes })

/-- What the register functions do once the builder is at hand: the handle returned is one
reference, the one given to `insert_probe` another. -/
def registerProbe (kind : ProbeKind) (b : ProbeBuilder) (page : Nat) :
    Except ProbeInstallError UniProbe × Kernel :=
  match k.registerRaw b page with
  | (.error e, k) => (.error e, k)
  | (.ok probe, k) =>
    let (u, k) := k.newProbe kind probe
    (.ok u, (k.cloneProbe u).insertProbe u)

def registerKprobe (b : ProbeBuilder) (page : Nat) : Except ProbeInstallError UniProbe × Kernel :=
  k.registerProbe .kprobe b page

def registerKretprobe (b : KretprobeBuilder) (page : Nat) :
    Except ProbeInstallError UniProbe × Kernel :=
  k.registerProbe .kretprobe b.toProbeBuilder page

/-- `None` for the failed assertion that the builder is for a process. -/
def registerUprobe (b : ProbeBuilder) (page : Nat) :
    Option (Except ProbeInstallError UniProbe × Kernel) :=
  if b.userPid.isSome then some (k.registerProbe .uprobe b page) else none

/-- What the unregister functions do with the handle they are given. -/
def unregisterProbe (u : UniProbe) : Kernel :=
  match k.probePoint u with
  | none => k
  | some p =>
    let addr := p.breakAddress
    let k := k.removeProbe u
    if k.kprobeNum addr = 0 then k.removePoint addr else k

def unregisterKprobe (arc : Nat) : Kernel := k.unregisterProbe ⟨.kprobe, arc⟩

def unregisterKretprobe (arc : Nat) : Kernel := k.unregisterProbe ⟨.kretprobe, arc⟩

def unregisterUprobe (arc : Nat) : Kernel := k.unregisterProbe ⟨.uprobe, arc⟩

/-- `ProbeBasic::enable` and `ProbeBasic::disable` -/
def setEnable (u : UniProbe) (enable : Bool) : Kernel :=
  { k with probes := k.probes.modify u.arc fun pr =>
      { pr with basic := { pr.basic with enable := enable } } }

end Kernel

/-- A call of a handler of a probe. -/
inductive Event where
  | pre (probe : UniProbe)
  | post (probe : UniProbe)
  | callback (probe : UniProbe) (id : Nat)
  deriving DecidableEq

/-- The registers a trap handler works on, and the calls it has made. -/
structure Trap where
  regs : PtRegs
  calls : List Event

/-- How a trap handler ends: a panic, `None`, or `Some` with the registers it leaves. -/
inductive Handled where
  | panicked
  | unclaimed
  | claimed (t : Trap)

def Handled.isClaimed : Handled → Bool
  | claimed _ => true
  | _ => false

/-- The thread goes on at the address. -/
def Handled.Resumes (h : Handled) (a : Nat) : Prop := ∃ t, h = .claimed t ∧ t.regs.epc = a

namespace ProbeBasic
variable (p : ProbeBasic) (u : UniProbe) (t : Trap)

def callPreHandler : Trap :=
  match p.preHandler with
  | none => t
  | some f => ⟨f t.regs, t.calls ++ [.pre u]⟩

def callPostHandler : Trap :=
  match p.postHandler with
  | none => t
  | some f => ⟨f t.regs, t.calls ++ [.post u]⟩

def callEventCallback : Trap :=
  p.eventCallbacks.foldl (fun t c => ⟨c.2 t.regs, t.calls ++ [.callback u c.1]⟩) t

end ProbeBasic

namespace Kernel
variable (k : Kernel)

/-- The loop over a list of probes: `call` on those that are enabled. -/
def forEnabled (call : ProbeBasic → UniProbe → Trap → Trap) (l : List UniProbe) (t : Trap) :
    Trap :=
  l.foldl (fun t u =>
    match k.probes.value u.arc with
    | none => t
    | some pr => if pr.basic.enable then call pr.basic u t else t) t

def runPre (l : List UniProbe) (t : Trap) : Trap := k.forEnabled ProbeBasic.callPreHandler l t

def runPost (l : List UniProbe) (t : Trap) : Trap :=
  k.forEnabled (fun p u t => p.callEventCallback u (p.callPostHandler u t)) l t

/-- `list[0].probe_point()`; `none` is the panic on an empty list. -/
def firstPoint (l : List UniProbe) : Option ProbePoint := l.head?.bind k.probePoint

def kprobeHandlerFromDebug (t : Trap) : Handled :=
  match k.getDebugList t.regs.debugAddress with
  | none => .unclaimed
  | some l =>
    let t := k.runPost l t
    match k.firstPoint l with
    | none => .panicked
    | some p => .claimed { t with regs := clearSingleStep t.regs p.returnAddress }

def kprobeHandlerFromBreak (t : Trap) : Handled :=
  match k.getBreakList t.regs.breakAddress with
  | none => k.kprobeHandlerFromDebug t
  | some l =>
    let t := k.runPre l t
    match k.firstPoint l with
    | none => .panicked
    | some p => .claimed { t with regs := setupSingleStep t.regs p.singleStepAddress }

end Kernel

end ExtKtrace.Kprobe
