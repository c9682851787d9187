import ExtKtrace.Kprobe.Sound

/-!
# Registration and removal, step by step

`register_kprobe` and `unregister_kprobe` as the atomic steps they are made of: each takes one
lock, or is one update of text or of the point list, or drops the handle. The point list is
borrowed mutably, so at most one of these calls is under way. `Books` says what the lists hold
between any two steps.
-/

namespace ExtKtrace.Kprobe
set_option autoImplicit false

open Filing Kernel

/-- How far the call under way has got. -/
inductive Writer where
  | idle
  /-- The breakpoint is planted; the point goes to the point list next. -/
  | filePoint (kind : ProbeKind) (probe : Probe) (point address : Nat)
  | linkBreak (u : UniProbe)
  | linkDebug (u : UniProbe)
  | unlinkBreak (u : UniProbe)
  | unlinkDebug (u : UniProbe)
  /-- `remove_probe` returns and its handle is dropped. -/
  | release (u : UniProbe) (address : Nat)
  | unfile (address : Nat)

namespace Kernel
variable (k : Kernel)

/-- The first step of a registration: install on the point that is there, or plant one. -/
def beginRegister (kind : ProbeKind) (b : ProbeBuilder) (page : Nat) :
    Except ProbeInstallError Writer × Kernel :=
  let address := b.probeAddr
  match k.pointList.lookup address with
  | some p =>
    match (k.clonePoint p).install b (some p) page with
    | (.error e, k) => (.error e, k)
    | (.ok (probe, point), k) =>
      let (u, k) := (k.dropPoint point).newProbe kind probe
      (.ok (.linkBreak u), k.cloneProbe u)
  | none =>
    match k.install b none page with
    | (.error e, k) => (.error e, k)
    | (.ok (probe, point), k) => (.ok (.filePoint kind probe point address), k)

def filePoint (kind : ProbeKind) (probe : Probe) (point address : Nat) : UniProbe × Kernel :=
  let (u, k) := (k.insertPoint address point).newProbe kind probe
  (u, k.cloneProbe u)

def linkBreak (u : UniProbe) : Kernel :=
  match k.probePoint u with
  | none => k
  | some p => (k.cloneProbe u).insertBreakPoint p.breakAddress u

def linkDebug (u : UniProbe) : Kernel :=
  match k.probePoint u with
  | none => k
  | some p => k.insertDebugPoint p.debugAddress u

def unlinkBreak (u : UniProbe) : Kernel :=
  match k.probePoint u with
  | none => k
  | some p => k.removeOneBreak p.breakAddress u

def unlinkDebug (u : UniProbe) : Kernel :=
  match k.probePoint u with
  | none => k
  | some p => k.removeOneDebug p.debugAddress u

def unfile (address : Nat) : Kernel :=
  if k.kprobeNum address = 0 then k.removePoint address else k

/-- The addresses a probe is filed under. -/
def breakKey (u : UniProbe) : Nat := (k.probePoint u).elim 0 ProbePoint.breakAddress

def debugKey (u : UniProbe) : Nat := (k.probePoint u).elim 0 ProbePoint.debugAddress

@[simp] theorem probePoint_clonePoint (p : Nat) (u : UniProbe) :
    (k.clonePoint p).probePoint u = k.probePoint u := by
  unfold probePoint pointId clonePoint
  congr 1
  funext q
  exact Arcs.value_clone _ _ _

@[simp] theorem probePoint_cloneProbe (u v : UniProbe) :
    (k.cloneProbe v).probePoint u = k.probePoint u := by
  unfold probePoint pointId cloneProbe
  simp only [Arcs.value_clone]

@[simp] theorem pointId_cloneProbe (u v : UniProbe) :
    (k.cloneProbe v).pointId u = k.pointId u := by
  unfold pointId cloneProbe
  simp only [Arcs.value_clone]

/-- `insert_probe` is its two insertions. -/
theorem insertProbe_eq (u : UniProbe) : k.insertProbe u = (k.linkBreak u).linkDebug u := by
  unfold insertProbe linkBreak
  cases hp : k.probePoint u with
  | none =>
    unfold linkDebug
    simp only [hp]
  | some p =>
    have hp' : ((k.cloneProbe u).insertBreakPoint p.breakAddress u).probePoint u = some p :=
      (k.probePoint_cloneProbe u u).trans hp
    unfold linkDebug
    simp only [hp']

/-- A registration is its steps, nothing happening in between. -/
theorem registerProbe_cases (kind : ProbeKind) (b : ProbeBuilder) (page : Nat) :
    (∃ e k', k.beginRegister kind b page = (.error e, k') ∧
      k.registerProbe kind b page = (.error e, k')) ∨
    (∃ u k', k.beginRegister kind b page = (.ok (.linkBreak u), k') ∧
      k.registerProbe kind b page = (.ok u, (k'.linkBreak u).linkDebug u)) ∨
    (∃ probe point k', k.beginRegister kind b page =
        (.ok (.filePoint kind probe point b.probeAddr), k') ∧
      k.registerProbe kind b page = (.ok (k'.filePoint kind probe point b.probeAddr).1,
        ((k'.filePoint kind probe point b.probeAddr).2.linkBreak
          (k'.filePoint kind probe point b.probeAddr).1).linkDebug
            (k'.filePoint kind probe point b.probeAddr).1)) := by
  unfold registerProbe registerRaw beginRegister
  dsimp only
  cases hl : k.pointList.lookup b.probeAddr with
  | some p =>
    refine .inr (.inl ⟨_, _, rfl, ?_⟩)
    simp only [install, insertProbe_eq]
  | none =>
    cases hi : k.install b none page with
    | mk r k' =>
      cases r with
      | error e => exact .inl ⟨e, k', by simp, by simp⟩
      | ok pr =>
        refine .inr (.inr ⟨pr.1, pr.2, k', rfl, ?_⟩)
        simp only [insertProbe_eq]
        rfl

end Kernel

namespace Writer

/-- References to a probe that the call holds beside the handle it will return or was given. -/
def held : Writer → Nat → Nat
  | linkBreak u, v => Arcs.one u.arc v + Arcs.one u.arc v
  | linkDebug u, v => Arcs.one u.arc v + Arcs.one u.arc v
  | _, _ => 0

def pheld : Writer → Nat → Nat
  | filePoint _ probe point _, q => Arcs.one probe.point q + Arcs.one point q
  | _, _ => 0

/-- The probe of a registration that has not returned. -/
def fresh : Writer → List UniProbe
  | linkBreak u => [u]
  | linkDebug u => [u]
  | _ => []

/-- What the break list holds, given the handles. -/
def inBreak (hs : List UniProbe) : Writer → List UniProbe
  | linkDebug u => hs ++ [u]
  | unlinkDebug u => hs.filter fun v => v ≠ u
  | release u _ => hs.filter fun v => v ≠ u
  | _ => hs

/-- What the debug list holds, given the handles. -/
def inDebug (hs : List UniProbe) : Writer → List UniProbe
  | release u _ => hs.filter fun v => v ≠ u
  | _ => hs

def Valid (k : Kernel) (hs : List UniProbe) : Writer → Prop
  | filePoint _ probe point address => k.pointList.lookup address = none ∧ probe.point = point ∧
      ∃ pt, k.points.value point = some pt ∧ pt.addr = address
  | unlinkBreak u => u ∈ hs
  | unlinkDebug u => u ∈ hs
  | release u address => u ∈ hs ∧ k.breakKey u = address
  | unfile address => ∀ p, k.pointList.lookup address = some p →
      ∃ pt, k.points.value p = some pt ∧ pt.addr = address
  | _ => True

/-- The entry of the point list that may have no probe any more. -/
def clearing : Writer → Nat → Prop
  | unfile address, a => a = address
  | _, _ => False

end Writer

/-- The books of the registry: `hs` are the handles given out, in the order of registration, with
the one being given back; `extra` counts references held by others. -/
structure Books (L : Layout) (k : Kernel) (hs : List UniProbe) (w : Writer) (extra : Nat → Nat) :
    Prop where
  sound : Sound L k (fun v => handles hs v + w.held v + extra v) w.pheld
  breaks : Files k.breakList k.breakKey (w.inBreak hs)
  arcs : ((hs ++ w.fresh).map UniProbe.arc).Nodup
  pointed : ∀ u ∈ hs ++ w.fresh, k.pointList.lookup (k.breakKey u) = k.pointId u
  listed : ∀ a p, k.pointList.lookup a = some p →
    w.clearing a ∨ ∃ u ∈ hs ++ w.fresh, k.breakKey u = a
  valid : w.Valid k hs

/-- The debug list holds the same probes, each under the debug address of its point. -/
def Filed (k : Kernel) (hs : List UniProbe) (w : Writer) : Prop :=
  Files k.debugList k.debugKey (w.inDebug hs)

section Keys
variable {L : Layout} {k k' : Kernel} {held pheld : Nat → Nat}

/-- A probe that is still alive has the point it had. -/
theorem Shrinks.pointId_eq (h : Shrinks k k') (s : Sound L k' held pheld) {u : UniProbe}
    (hu : 0 < k'.listed u.arc + held u.arc) :
    k'.pointId u = k.pointId u ∧ k'.probePoint u = k.probePoint u := by
  obtain ⟨pr, hpr⟩ := s.probes.live hu
  obtain ⟨pt, hpt⟩ := s.live_point hpr
  have hpr' := h.probes u.arc pr hpr
  have hpt' := h.points pr.point pt hpt
  simp [Kernel.probePoint, Kernel.pointId, hpr, hpr', hpt, hpt']

theorem breakKey_congr {u : UniProbe} (h : k'.probePoint u = k.probePoint u) :
    k'.breakKey u = k.breakKey u := by
  unfold Kernel.breakKey
  rw [h]

theorem debugKey_congr {u : UniProbe} (h : k'.probePoint u = k.probePoint u) :
    k'.debugKey u = k.debugKey u := by
  unfold Kernel.debugKey
  rw [h]

theorem breakKey_of {u : UniProbe} {pt : ProbePoint} (h : k.probePoint u = some pt) :
    k.breakKey u = pt.breakAddress := by
  simp [Kernel.breakKey, h]

theorem debugKey_of {u : UniProbe} {pt : ProbePoint} (h : k.probePoint u = some pt) :
    k.debugKey u = pt.debugAddress := by
  simp [Kernel.debugKey, h]

end Keys

end ExtKtrace.Kprobe
