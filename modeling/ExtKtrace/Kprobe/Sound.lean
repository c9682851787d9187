import ExtKtrace.Kprobe.Planted

/-!
# Sound registries

The strong counts of probes and probe points are the numbers of references there are: those
in the two lists of the manager, in the point list, inside the probes, and those held
elsewhere, which the invariant takes as a parameter. Each operation of the registry moves
references, and the destructors that run keep the patched text right.
-/

namespace ExtKtrace.Kprobe
set_option autoImplicit false

open Filing

namespace Kernel

def refTo (u : Nat) (x : UniProbe) : Nat := Arcs.one x.arc u

/-- The references to a probe in the lists of the manager. -/
def listed (k : Kernel) (u : Nat) : Nat := occ (refTo u) k.breakList + occ (refTo u) k.debugList

/-- The references to a point in the point list and in the probes. -/
def filed (k : Kernel) (p : Nat) : Nat :=
  Table.tally (fun q => Arcs.one q p) k.pointList + k.probes.tally fun pr => Arcs.one pr.point p

/-- The references to a probe in a list of handles. -/
def handles (l : List UniProbe) (u : Nat) : Nat := (l.map (refTo u)).sum

end Kernel

open Kernel

/-- `held` and `pheld` count the references to probes and to points held outside. -/
structure Sound (L : Layout) (k : Kernel) (held pheld : Nat → Nat) : Prop where
  probes : k.probes.Owned fun u => k.listed u + held u
  points : k.points.Owned fun p => k.filed p + pheld p
  planted : Planted L k.mem k.pages k.userPages k.points.value

/-- Nothing but cells has gone. -/
structure Shrinks (k k' : Kernel) : Prop where
  breakList : k'.breakList = k.breakList
  debugList : k'.debugList = k.debugList
  pointList : k'.pointList = k.pointList
  probes : ∀ u x, k'.probes.value u = some x → k.probes.value u = some x
  points : ∀ p x, k'.points.value p = some x → k.points.value p = some x

namespace Shrinks

theorem refl (k : Kernel) : Shrinks k k := ⟨rfl, rfl, rfl, fun _ _ h => h, fun _ _ h => h⟩

theorem trans {k k₁ k₂ : Kernel} (h : Shrinks k k₁) (h' : Shrinks k₁ k₂) : Shrinks k k₂ where
  breakList := h'.breakList.trans h.breakList
  debugList := h'.debugList.trans h.debugList
  pointList := h'.pointList.trans h.pointList
  probes u x hx := h.probes u x (h'.probes u x hx)
  points p x hx := h.points p x (h'.points p x hx)

end Shrinks

namespace Kernel
variable (k : Kernel)

theorem dropProbePoint_eq (p : ProbePoint) :
    k.dropProbePoint p =
      { k with
        mem := k.mem.write p.userPid p.addr p.oldInstruction.bytes
        pages := k.pages.erase p.singleStepAddress
        userPages := if p.dynamicUserPtr ≠ 0 then
          k.userPages.erase (p.userPid, p.dynamicUserPtr) else k.userPages } := by
  unfold dropProbePoint ProbePoint.singleStepAddress
  split <;> cases p.oldInstructionPtr <;> rfl

theorem dropPoint_shrinks (p : Nat) : Shrinks k (k.dropPoint p) := by
  have hval := fun q x => k.points.value_of_drop p q (v := x)
  unfold dropPoint
  cases hd : k.points.drop p with
  | mk gone points =>
    rw [hd] at hval
    cases gone with
    | none => exact ⟨rfl, rfl, rfl, fun _ _ h => h, hval⟩
    | some pt =>
      simp only [dropProbePoint_eq]
      exact ⟨rfl, rfl, rfl, fun _ _ h => h, hval⟩

theorem dropProbe_shrinks (u : UniProbe) : Shrinks k (k.dropProbe u) := by
  have hval := fun v x => k.probes.value_of_drop u.arc v (v := x)
  unfold dropProbe
  cases hd : k.probes.drop u.arc with
  | mk gone probes =>
    rw [hd] at hval
    have hfirst : Shrinks k { k with probes := probes } := ⟨rfl, rfl, rfl, hval, fun _ _ h => h⟩
    cases gone with
    | none => exact hfirst
    | some pr => exact hfirst.trans (dropPoint_shrinks _ _)

theorem dropProbes_shrinks (l : List UniProbe) : Shrinks k (k.dropProbes l) := by
  induction l generalizing k with
  | nil => exact .refl k
  | cons u l ih => exact (k.dropProbe_shrinks u).trans (ih _)

theorem cloneProbe_shrinks (u : UniProbe) : Shrinks k (k.cloneProbe u) where
  breakList := rfl
  debugList := rfl
  pointList := rfl
  probes v x hx := by
    rw [cloneProbe, Arcs.value_clone] at hx
    exact hx
  points _ _ hx := hx

theorem cloneList_shrinks (l : List UniProbe) : Shrinks k (k.cloneList l) := by
  induction l generalizing k with
  | nil => exact .refl k
  | cons u l ih => exact (k.cloneProbe_shrinks u).trans (ih _)

@[simp] theorem handles_nil (u : Nat) : handles [] u = 0 := rfl

@[simp] theorem handles_cons (x : UniProbe) (l : List UniProbe) (u : Nat) :
    handles (x :: l) u = Arcs.one x.arc u + handles l u := by
  simp [handles, refTo]

@[simp] theorem handles_append (l l' : List UniProbe) (u : Nat) :
    handles (l ++ l') u = handles l u + handles l' u := by
  simp [handles]

theorem handles_pos {l : List UniProbe} {x : UniProbe} (h : x ∈ l) : 0 < handles l x.arc := by
  induction l with
  | nil => cases h
  | cons y l ih =>
    rw [handles_cons]
    rcases List.mem_cons.mp h with rfl | h
    · rw [Arcs.one_self]
      omega
    · have hpos := ih h
      omega

theorem exists_of_handles_pos {l : List UniProbe} {u : Nat} (h : 0 < handles l u) :
    ∃ x ∈ l, x.arc = u := by
  obtain ⟨n, hn, hpos⟩ := List.sum_pos_iff_exists_pos_nat.mp h
  obtain ⟨x, hx, rfl⟩ := List.mem_map.mp hn
  exact ⟨x, hx, (Arcs.one_pos hpos).symm⟩

theorem exists_of_occ_pos {m : Table Nat (List UniProbe)} {u : Nat} (h : 0 < occ (refTo u) m) :
    ∃ a l x, m.lookup a = some l ∧ x ∈ l ∧ x.arc = u := by
  obtain ⟨a, l, hl, hpos⟩ := Table.exists_of_tally_pos h
  obtain ⟨x, hx, harc⟩ := exists_of_handles_pos hpos
  exact ⟨a, l, x, hl, hx, harc⟩

/-- A member of a list of the manager is referred to. -/
theorem occ_pos {m : Table Nat (List UniProbe)} {a : Nat} {l : List UniProbe} {x : UniProbe}
    (hm : m.lookup a = some l) (hx : x ∈ l) : 0 < occ (refTo x.arc) m := by
  have hle := Table.le_tally (w := fun l : List UniProbe => (l.map (refTo x.arc)).sum) hm
  have hpos := handles_pos hx
  unfold occ
  unfold handles at hpos
  omega

end Kernel

namespace Sound
variable {L : Layout} {k : Kernel} {held held' pheld pheld' : Nat → Nat}

theorem boot (L : Layout) : Sound L (Kernel.boot L.code) (fun _ => 0) (fun _ => 0) where
  probes := Arcs.owned_empty.congr fun _ => rfl
  points := Arcs.owned_empty.congr fun _ => rfl
  planted := (Planted.start L).congr fun _ => rfl

theorem congr (s : Sound L k held pheld) (hh : ∀ u, held' u = held u)
    (hp : ∀ p, pheld' p = pheld p) : Sound L k held' pheld' where
  probes := s.probes.congr fun u => by rw [hh u]
  points := s.points.congr fun p => by rw [hp p]
  planted := s.planted

theorem live_of_held (s : Sound L k held pheld) {u : Nat} (h : 0 < held u) :
    ∃ pr, k.probes.value u = some pr :=
  s.probes.live (by omega)

theorem live_of_break (s : Sound L k held pheld) {a : Nat} {l : List UniProbe} {x : UniProbe}
    (hl : k.breakList.lookup a = some l) (hx : x ∈ l) : ∃ pr, k.probes.value x.arc = some pr :=
  s.probes.live (by
    have hpos := Kernel.occ_pos hl hx
    unfold Kernel.listed
    omega)

theorem live_of_debug (s : Sound L k held pheld) {a : Nat} {l : List UniProbe} {x : UniProbe}
    (hl : k.debugList.lookup a = some l) (hx : x ∈ l) : ∃ pr, k.probes.value x.arc = some pr :=
  s.probes.live (by
    have hpos := Kernel.occ_pos hl hx
    unfold Kernel.listed
    omega)

/-- A live probe keeps its point alive. -/
theorem live_point (s : Sound L k held pheld) {u : Nat} {pr : Probe}
    (hu : k.probes.value u = some pr) : ∃ pt, k.points.value pr.point = some pt :=
  s.points.live (by
    have hle := Arcs.le_tally (w := fun pr' : Probe => Arcs.one pr'.point pr.point) hu
    rw [Arcs.one_self] at hle
    unfold Kernel.filed
    omega)

theorem live_of_pointList (s : Sound L k held pheld) {a p : Nat}
    (h : k.pointList.lookup a = some p) : ∃ pt, k.points.value p = some pt :=
  s.points.live (by
    have hle := Table.le_tally (w := fun q => Arcs.one q p) h
    rw [Arcs.one_self] at hle
    unfold Kernel.filed
    omega)

theorem clonePoint (s : Sound L k held pheld) {p : Nat} {pt : ProbePoint}
    (hp : k.points.value p = some pt) (hh : ∀ q, pheld' q = pheld q + Arcs.one p q) :
    Sound L (k.clonePoint p) held pheld' where
  probes := s.probes
  points := by
    refine s.points.clone hp ?_
    intro q
    show k.filed q + pheld' q = _
    rw [hh q, Nat.add_assoc]
  planted := s.planted.congr fun q => by
    show (k.points.clone p).value q = _
    rw [Arcs.value_clone]

theorem cloneProbe (s : Sound L k held pheld) {u : UniProbe} {pr : Probe}
    (hu : k.probes.value u.arc = some pr) (hh : ∀ v, held' v = held v + Arcs.one u.arc v) :
    Sound L (k.cloneProbe u) held' pheld where
  probes := by
    refine s.probes.clone hu ?_
    intro v
    show k.listed v + held' v = _
    rw [hh v, Nat.add_assoc]
  points := s.points.congr fun p => by
    show Table.tally _ k.pointList + (k.probes.clone u.arc).tally _ + pheld p = _
    rw [Arcs.tally_clone]
    rfl
  planted := s.planted

theorem dropPoint (s : Sound L k held pheld) {p : Nat}
    (hh : ∀ q, pheld q = pheld' q + Arcs.one p q) : Sound L (k.dropPoint p) held pheld' := by
  have hr : ∀ q, k.filed q + pheld q = k.filed q + pheld' q + Arcs.one p q := by
    intro q
    rw [hh q, Nat.add_assoc]
  by_cases hlast : k.filed p + pheld' p = 0
  · have hlive : 0 < k.filed p + pheld p := by
      rw [hr p, Arcs.one_self]
      omega
    obtain ⟨pt, hpt⟩ := s.points.live hlive
    obtain ⟨hgone, howned, hval, -⟩ := s.points.drop_last hr hlast hpt
    unfold Kernel.dropPoint
    cases hd : k.points.drop p with
    | mk gone points =>
      rw [hd] at hgone howned hval
      obtain rfl : gone = some pt := hgone
      simp only [Kernel.dropProbePoint_eq]
      exact ⟨s.probes, howned, s.planted.release hpt hval rfl⟩
  · obtain ⟨hgone, howned, hval, -⟩ := s.points.drop_shared hr (by omega)
    unfold Kernel.dropPoint
    cases hd : k.points.drop p with
    | mk gone points =>
      rw [hd] at hgone howned hval
      obtain rfl : gone = none := hgone
      exact ⟨s.probes, howned, s.planted.congr hval⟩

theorem dropProbe (s : Sound L k held pheld) {u : UniProbe}
    (hh : ∀ v, held v = held' v + Arcs.one u.arc v) : Sound L (k.dropProbe u) held' pheld := by
  have hr : ∀ v, k.listed v + held v = k.listed v + held' v + Arcs.one u.arc v := by
    intro v
    rw [hh v, Nat.add_assoc]
  by_cases hlast : k.listed u.arc + held' u.arc = 0
  · have hlive : 0 < k.listed u.arc + held u.arc := by
      rw [hr u.arc, Arcs.one_self]
      omega
    obtain ⟨pr, hpr⟩ := s.probes.live hlive
    obtain ⟨hgone, howned, hval, htally⟩ := s.probes.drop_last hr hlast hpr
    unfold Kernel.dropProbe
    cases hd : k.probes.drop u.arc with
    | mk gone probes =>
      rw [hd] at hgone howned hval htally
      obtain rfl : gone = some pr := hgone
      have hmid : Sound L { k with probes := probes } held'
          fun q => pheld q + Arcs.one pr.point q := by
        refine ⟨howned, s.points.congr ?_, s.planted⟩
        intro q
        have hq := htally fun pr => Arcs.one pr.point q
        show Table.tally _ k.pointList + probes.tally _ + (pheld q + Arcs.one pr.point q) =
          Table.tally _ k.pointList + k.probes.tally _ + pheld q
        dsimp only at hq
        omega
      exact hmid.dropPoint fun _ => rfl
  · obtain ⟨hgone, howned, hval, htally⟩ := s.probes.drop_shared hr (by omega)
    unfold Kernel.dropProbe
    cases hd : k.probes.drop u.arc with
    | mk gone probes =>
      rw [hd] at hgone howned hval htally
      obtain rfl : gone = none := hgone
      refine ⟨howned, s.points.congr ?_, s.planted⟩
      intro q
      have hq := htally fun pr => Arcs.one pr.point q
      show Table.tally _ k.pointList + probes.tally _ + pheld q =
        Table.tally _ k.pointList + k.probes.tally _ + pheld q
      dsimp only at hq
      omega

theorem dropProbes (s : Sound L k held pheld) {l : List UniProbe}
    (hh : ∀ v, held v = held' v + Kernel.handles l v) :
    Sound L (k.dropProbes l) held' pheld := by
  induction l generalizing k held with
  | nil => exact s.congr (fun v => (hh v).symm) fun _ => rfl
  | cons u l ih =>
    have hfirst : Sound L (k.dropProbe u) (fun v => held' v + Kernel.handles l v) pheld := by
      apply s.dropProbe
      intro v
      rw [hh v, Kernel.handles_cons]
      omega
    exact ih hfirst fun _ => rfl

theorem cloneList (s : Sound L k held pheld) {l : List UniProbe}
    (hl : ∀ x ∈ l, ∃ pr, k.probes.value x.arc = some pr)
    (hh : ∀ v, held' v = held v + Kernel.handles l v) :
    Sound L (k.cloneList l) held' pheld := by
  induction l generalizing k held with
  | nil => exact s.congr hh fun _ => rfl
  | cons u l ih =>
    obtain ⟨pr, hpr⟩ := hl u List.mem_cons_self
    have hfirst : Sound L (k.cloneProbe u) (fun v => held v + Arcs.one u.arc v) pheld :=
      s.cloneProbe hpr fun _ => rfl
    refine ih hfirst ?_ ?_
    · intro x hx
      obtain ⟨pr', hpr'⟩ := hl x (List.mem_cons_of_mem _ hx)
      exact ⟨pr', by rw [Kernel.cloneProbe, Arcs.value_clone]; exact hpr'⟩
    · intro v
      rw [hh v, Kernel.handles_cons]
      omega

theorem insertBreakPoint (s : Sound L k held pheld) {a : Nat} {u : UniProbe}
    (hh : ∀ v, held v = held' v + Arcs.one u.arc v) :
    Sound L (k.insertBreakPoint a u) held' pheld where
  probes := s.probes.congr fun v => by
    show occ (refTo v) (push k.breakList a u) + occ _ k.debugList + held' v =
      occ _ k.breakList + occ _ k.debugList + held v
    rw [occ_push, hh v]
    unfold Kernel.refTo
    omega
  points := s.points
  planted := s.planted

theorem insertDebugPoint (s : Sound L k held pheld) {a : Nat} {u : UniProbe}
    (hh : ∀ v, held v = held' v + Arcs.one u.arc v) :
    Sound L (k.insertDebugPoint a u) held' pheld where
  probes := s.probes.congr fun v => by
    show occ _ k.breakList + occ (refTo v) (push k.debugList a u) + held' v =
      occ _ k.breakList + occ _ k.debugList + held v
    rw [occ_push, hh v]
    unfold Kernel.refTo
    omega
  points := s.points
  planted := s.planted

theorem removeOneBreak (s : Sound L k held pheld) (a : Nat) (u : UniProbe) :
    Sound L (k.removeOneBreak a u) held pheld := by
  have hmid : Sound L { k with breakList := removeOne k.breakList a u }
      (fun v => held v + Kernel.handles (removed k.breakList a u) v) pheld := by
    refine ⟨s.probes.congr ?_, s.points, s.planted⟩
    intro v
    have hocc := occ_removeOne (refTo v) k.breakList a u
    show occ (refTo v) (removeOne k.breakList a u) + occ _ k.debugList + _ =
      occ _ k.breakList + occ _ k.debugList + held v
    unfold Kernel.handles
    omega
  exact hmid.dropProbes fun _ => rfl

theorem removeOneDebug (s : Sound L k held pheld) (a : Nat) (u : UniProbe) :
    Sound L (k.removeOneDebug a u) held pheld := by
  have hmid : Sound L { k with debugList := removeOne k.debugList a u }
      (fun v => held v + Kernel.handles (removed k.debugList a u) v) pheld := by
    refine ⟨s.probes.congr ?_, s.points, s.planted⟩
    intro v
    have hocc := occ_removeOne (refTo v) k.debugList a u
    show occ _ k.breakList + occ (refTo v) (removeOne k.debugList a u) + _ =
      occ _ k.breakList + occ _ k.debugList + held v
    unfold Kernel.handles
    omega
  exact hmid.dropProbes fun _ => rfl

theorem replaceDebugList (s : Sound L k held pheld) (old new : Nat) :
    Sound L (k.replaceDebugListWithNewAddress old new) held pheld := by
  have hmid : Sound L { k with debugList := rekey k.debugList old new }
      (fun v => held v + Kernel.handles (overwritten k.debugList old new) v) pheld := by
    refine ⟨s.probes.congr ?_, s.points, s.planted⟩
    intro v
    have hocc := occ_rekey (refTo v) k.debugList old new
    show occ _ k.breakList + occ (refTo v) (rekey k.debugList old new) + _ =
      occ _ k.breakList + occ _ k.debugList + held v
    unfold Kernel.handles
    omega
  exact hmid.dropProbes fun _ => rfl

theorem insertPoint (s : Sound L k held pheld) {a p : Nat} (ha : k.pointList.lookup a = none)
    (hh : ∀ q, pheld q = pheld' q + Arcs.one p q) : Sound L (k.insertPoint a p) held pheld' := by
  unfold Kernel.insertPoint
  rw [ha]
  refine ⟨s.probes, s.points.congr ?_, s.planted⟩
  intro q
  show Table.tally (fun r => Arcs.one r q) (k.pointList.insert a p) + k.probes.tally _ + pheld' q =
    Table.tally _ k.pointList + k.probes.tally _ + pheld q
  rw [Table.tally_insert_new ha, hh q]
  omega

theorem removePoint (s : Sound L k held pheld) (a : Nat) :
    Sound L (k.removePoint a) held pheld := by
  unfold Kernel.removePoint
  cases ha : k.pointList.lookup a with
  | none => exact s
  | some p =>
    have hmid : Sound L { k with pointList := k.pointList.erase a } held
        fun q => pheld q + Arcs.one p q := by
      refine ⟨s.probes, s.points.congr ?_, s.planted⟩
      intro q
      have hsum := Table.tally_erase (fun r => Arcs.one r q) a k.pointList
      rw [ha, Option.elim_some] at hsum
      show Table.tally (fun r => Arcs.one r q) (k.pointList.erase a) + k.probes.tally _ +
        (pheld q + Arcs.one p q) = Table.tally _ k.pointList + k.probes.tally _ + pheld q
      omega
    exact hmid.dropPoint fun _ => rfl

theorem newProbe (s : Sound L k held pheld) {kind : ProbeKind} {pr : Probe}
    (hh : ∀ v, held' v = held v + Arcs.one k.probes.next v)
    (hp : ∀ q, pheld q = pheld' q + Arcs.one pr.point q) :
    Sound L (k.newProbe kind pr).2 held' pheld' where
  probes := by
    refine s.probes.alloc pr ?_
    intro v
    show k.listed v + held' v = _
    rw [hh v, Nat.add_assoc]
  points := s.points.congr fun q => by
    show Table.tally _ k.pointList + (k.probes.alloc pr).2.tally _ + pheld' q =
      Table.tally _ k.pointList + k.probes.tally _ + pheld q
    rw [s.probes.tally_alloc, hp q]
    omega
  planted := s.planted

theorem setEnable (s : Sound L k held pheld) (u : UniProbe) (b : Bool) :
    Sound L (k.setEnable u b) held pheld where
  probes := s.probes.modify _ _
  points := s.points.congr fun q => by
    unfold Kernel.filed Kernel.setEnable
    rw [Arcs.tally_modify]
    intro pr
    rfl
  planted := s.planted

end Sound

/-- What the allocator of kernel pages promises: the page is apart from those in use and is not
program text. -/
structure FreshPage (L : Layout) (k : Kernel) (page : Nat) : Prop where
  apart : ∀ q ∈ k.pages, Apart page q
  off : OffText L none page

/-- The point that `plant` makes. -/
def plantedPoint (sp : Space) (a page : Nat) (o : OpcodeTy) : ProbePoint where
  addr := a
  oldInstruction := o
  oldInstructionPtr := allocExecMemory sp page
  userPid := sp
  dynamicUserPtr := 0

/-- The registry after the instruction `o` was replaced. -/
def Kernel.planted (k : Kernel) (sp : Space) (a page : Nat) (o : OpcodeTy) : Kernel :=
  { k with
    pages := page :: k.pages
    mem := Planted.plantMem k.mem sp a page o
    points := (k.points.alloc (plantedPoint sp a page o)).2 }

theorem Kernel.plant_eq (k : Kernel) (sp : Space) (a page : Nat) (o : OpcodeTy) :
    { k with pages := page :: k.pages }.plant sp a (allocExecMemory sp page) o =
      (k.points.next, k.planted sp a page o) := by
  unfold plant planted Planted.plantMem
  simp only [asPtr_allocExecMemory]
  rfl

/-- `replace_inst` patches when the instruction can be fetched, and otherwise leaves things as
they were. -/
theorem Kernel.replaceInst_eq (k : Kernel) (b : ProbeBuilder) (page : Nat) :
    k.replaceInst b page =
      match fetch k.mem b.userPid b.probeAddr with
      | .error e => (.error e, k)
      | .ok o => (.ok k.points.next, k.planted b.userPid b.probeAddr page o) := by
  have hfree : ∀ k : Kernel,
      { k with pages := page :: k.pages }.dropExecMem (allocExecMemory b.userPid page) = k := by
    intro k
    unfold allocExecMemory dropExecMem
    cases b.userPid.isSome <;> simp
  unfold replaceInst fetch
  dsimp only
  split
  · rfl
  · split
    · cases validateInst16 _ with
      | error e => simp only [hfree, Except.map]
      | ok _ => simp only [plant_eq, Except.map]
    · split
      · simp only [hfree]
      · cases validateInst32 _ with
        | error e => simp only [hfree, Except.map]
        | ok _ => simp only [plant_eq, Except.map]

theorem Kernel.planted_value (k : Kernel) (sp : Space) (a page : Nat) (o : OpcodeTy) (q : Nat) :
    (k.planted sp a page o).points.value q =
      if q = k.points.next then some (plantedPoint sp a page o) else k.points.value q :=
  k.points.value_alloc _ q

theorem Sound.plant {L : Layout} {k : Kernel} {held pheld pheld' : Nat → Nat}
    (s : Sound L k held pheld) {sp : Space} {a page : Nat} {o : OpcodeTy}
    (hsite : L.site sp a) (hf : fetch k.mem sp a = .ok o) (hfresh : FreshPage L k page)
    (hh : ∀ q, pheld' q = pheld q + Arcs.one k.points.next q) :
    Sound L (k.planted sp a page o) held pheld' where
  probes := s.probes
  points := by
    refine s.points.alloc (plantedPoint sp a page o) ?_
    intro q
    show k.filed q + pheld' q = _
    rw [hh q, Nat.add_assoc]
  planted := by
    have hpage : (plantedPoint sp a page o).singleStepAddress = page :=
      asPtr_allocExecMemory sp page
    exact s.planted.plant s.points.next_unused hsite hf hfresh.apart hfresh.off
      ⟨rfl, rfl, hpage, rfl, rfl⟩ (k.planted_value sp a page o)

end ExtKtrace.Kprobe
