import ExtKtrace.Kprobe.Writer

/-!
# Keeping the books

Every step of a registration or a removal keeps `Books` and `Filed`.
-/

namespace ExtKtrace.Kprobe
set_option autoImplicit false

open Filing Kernel

/-- The probes of a list have the points they had. -/
def Same (k k' : Kernel) (l : List UniProbe) : Prop :=
  ∀ v ∈ l, k'.pointId v = k.pointId v ∧ k'.probePoint v = k.probePoint v

namespace Same
variable {k k₁ k₂ : Kernel} {l l' : List UniProbe}

theorem trans (h : Same k k₁ l) (h' : Same k₁ k₂ l) : Same k k₂ l := fun v hv =>
  ⟨(h' v hv).1.trans (h v hv).1, (h' v hv).2.trans (h v hv).2⟩

theorem mono (h : Same k k₁ l) (hl : ∀ v ∈ l', v ∈ l) : Same k k₁ l' := fun v hv => h v (hl v hv)

theorem of_values (hp : ∀ v ∈ l, k₁.probes.value v.arc = k.probes.value v.arc)
    (hq : ∀ v ∈ l, ∀ p, k.pointId v = some p → k₁.points.value p = k.points.value p) :
    Same k k₁ l := by
  intro v hv
  have hid : k₁.pointId v = k.pointId v := by
    unfold Kernel.pointId
    rw [hp v hv]
  refine ⟨hid, ?_⟩
  unfold Kernel.probePoint
  rw [hid]
  cases hid' : k.pointId v with
  | none => rfl
  | some p => exact hq v hv p hid'

theorem breakKey (h : Same k k₁ l) {v : UniProbe} (hv : v ∈ l) : k₁.breakKey v = k.breakKey v :=
  breakKey_congr (h v hv).2

theorem debugKey (h : Same k k₁ l) {v : UniProbe} (hv : v ∈ l) : k₁.debugKey v = k.debugKey v :=
  debugKey_congr (h v hv).2

end Same

theorem Shrinks.same {L : Layout} {k k' : Kernel} {held pheld : Nat → Nat} {l : List UniProbe}
    (h : Shrinks k k') (s : Sound L k' held pheld) (hl : ∀ v ∈ l, 0 < held v.arc) :
    Same k k' l := by
  intro v hv
  have hpos := hl v hv
  exact h.pointId_eq s (by omega)

namespace Writer

theorem held_fresh {w : Writer} {v : UniProbe} (hv : v ∈ w.fresh) : 0 < w.held v.arc := by
  cases w <;> simp only [fresh, List.not_mem_nil, List.mem_singleton] at hv
  all_goals
    subst hv
    simp only [held, Arcs.one_self]
    omega

theorem fresh_of_held (w : Writer) {v : Nat} (hv : 0 < w.held v) : ∃ x ∈ w.fresh, x.arc = v := by
  cases w <;> simp only [held, Nat.lt_irrefl] at hv
  all_goals
    rename_i u
    refine ⟨u, by simp [fresh], ?_⟩
    by_contra hne
    rw [Arcs.one_ne fun e => hne e.symm] at hv
    cases hv

theorem held_pos {w : Writer} {hs : List UniProbe} {extra : Nat → Nat} {v : UniProbe}
    (hv : v ∈ hs ++ w.fresh) : 0 < handles hs v.arc + w.held v.arc + extra v.arc := by
  rcases List.mem_append.mp hv with hv | hv
  · have hpos := handles_pos hv
    omega
  · have hpos := held_fresh hv
    omega

theorem inBreak_subset (w : Writer) {hs : List UniProbe} {v : UniProbe} (hv : v ∈ w.inBreak hs) :
    v ∈ hs ++ w.fresh := by
  cases w <;> simp only [inBreak, fresh, List.mem_filter] at hv ⊢
  all_goals simp only [List.mem_append, List.mem_singleton, List.not_mem_nil, or_false] at hv ⊢
  all_goals first | exact hv | exact hv.1 | exact .inl hv

theorem inDebug_subset (w : Writer) {hs : List UniProbe} {v : UniProbe} (hv : v ∈ w.inDebug hs) :
    v ∈ hs := by
  cases w <;> simp only [inDebug, List.mem_filter] at hv
  all_goals first | exact hv | exact hv.1

end Writer

namespace Books
variable {L : Layout} {k k' : Kernel} {hs : List UniProbe} {w : Writer} {extra extra' : Nat → Nat}

theorem live (b : Books L k hs w extra) {v : UniProbe} (hv : v ∈ hs ++ w.fresh) :
    ∃ pr pt, k.probes.value v.arc = some pr ∧ k.points.value pr.point = some pt ∧
      k.pointId v = some pr.point ∧ k.probePoint v = some pt := by
  obtain ⟨pr, hpr⟩ := b.sound.live_of_held (Writer.held_pos hv)
  obtain ⟨pt, hpt⟩ := b.sound.live_point hpr
  exact ⟨pr, pt, hpr, hpt, by simp [Kernel.pointId, hpr],
    by simp [Kernel.probePoint, Kernel.pointId, hpr, hpt]⟩

theorem live_handle (b : Books L k hs w extra) {v : UniProbe} (hv : v ∈ hs) :
    ∃ pr pt, k.probes.value v.arc = some pr ∧ k.points.value pr.point = some pt ∧
      k.pointId v = some pr.point ∧ k.probePoint v = some pt :=
  b.live (List.mem_append_left _ hv)

theorem nodup (b : Books L k hs w extra) : hs.Nodup :=
  (List.Nodup.of_map _ b.arcs).of_append_left

/-- A handle given up is one reference. -/
theorem handles_filter (b : Books L k hs w extra) {u : UniProbe} (hu : u ∈ hs) (v : Nat) :
    handles hs v = handles (hs.filter fun x => x ≠ u) v + Arcs.one u.arc v := by
  have hsum := sum_filter_ne (refTo v) u hs
  have hone : hs.filter (fun x => decide (x = u)) = [u] := by
    rw [List.filter_eq u, List.count_eq_one_of_mem b.nodup hu]
    rfl
  rw [hone] at hsum
  simp only [List.map_cons, List.map_nil, List.sum_cons, List.sum_nil, Nat.add_zero] at hsum
  exact hsum.symm

/-- Nothing is on the books when the kernel starts. -/
theorem boot (L : Layout) : Books L (Kernel.boot L.code) [] .idle fun _ => 0 where
  sound := (Sound.boot L).congr (fun _ => rfl) fun _ => rfl
  breaks := Files.empty _
  arcs := by simp [Writer.fresh]
  pointed := by simp [Writer.fresh]
  listed := fun a p h => by simp [Kernel.boot] at h
  valid := trivial

/-- The entry a handle is filed under is that of its point. -/
theorem pointed_handle (b : Books L k hs w extra) {v : UniProbe} (hv : v ∈ hs) :
    k.pointList.lookup (k.breakKey v) = k.pointId v :=
  b.pointed v (List.mem_append_left _ hv)

/-- A filed point sits at the address it is filed under. -/
theorem point_addr (b : Books L k hs w extra) {a p : Nat} (ha : k.pointList.lookup a = some p) :
    ∃ pt, k.points.value p = some pt ∧ pt.addr = a := by
  rcases b.listed a p ha with h | ⟨v, hv, rfl⟩
  · cases w <;> simp only [Writer.clearing] at h
    subst h
    exact b.valid p ha
  · obtain ⟨pr, pt, -, hpt, hid, hprobe⟩ := b.live hv
    rw [b.pointed v hv, hid] at ha
    cases ha
    exact ⟨pt, hpt, (breakKey_of hprobe).symm⟩

/-- Others drop or take references: what the books say stays. -/
theorem others (b : Books L k hs w extra) (h : Shrinks k k')
    (s : Sound L k' (fun v => handles hs v + w.held v + extra' v) w.pheld) :
    Books L k' hs w extra' := by
  have hsame := h.same s (l := hs ++ w.fresh) fun v hv => Writer.held_pos hv
  constructor
  · exact s
  · rw [h.breakList]
    apply b.breaks.congr
    intro v hv
    exact hsame.breakKey (w.inBreak_subset hv)
  · exact b.arcs
  · intro v hv
    rw [h.pointList, hsame.breakKey hv, (hsame v hv).1]
    exact b.pointed v hv
  · intro a p ha
    rw [h.pointList] at ha
    rcases b.listed a p ha with h | ⟨v, hv, hk⟩
    · exact .inl h
    · exact .inr ⟨v, hv, (hsame.breakKey hv).trans hk⟩
  · have hvalid := b.valid
    cases w with
    | filePoint kind probe point address =>
      obtain ⟨hnone, hpoint, pt, hpt, haddr⟩ := hvalid
      obtain ⟨pt', hpt'⟩ := s.points.live (i := point) (by
        simp only [Writer.pheld, Arcs.one_self]
        omega)
      have hback := h.points point pt' hpt'
      rw [hpt] at hback
      cases hback
      exact ⟨by rw [h.pointList]; exact hnone, hpoint, pt, hpt', haddr⟩
    | release u address =>
      exact ⟨hvalid.1, (hsame.breakKey (List.mem_append_left _ hvalid.1)).trans hvalid.2⟩
    | unfile address =>
      intro p hp
      obtain ⟨pt', hpt'⟩ := s.live_of_pointList hp
      rw [h.pointList] at hp
      obtain ⟨pt, hpt, haddr⟩ := hvalid p hp
      have hback := h.points p pt' hpt'
      rw [hpt] at hback
      cases hback
      exact ⟨_, hpt', haddr⟩
    | unlinkBreak u => exact hvalid
    | unlinkDebug u => exact hvalid
    | idle => trivial
    | linkBreak u => trivial
    | linkDebug u => trivial

end Books

theorem Filed.others {k k' : Kernel} {hs : List UniProbe} {w : Writer} (f : Filed k hs w)
    (hdl : k'.debugList = k.debugList) (hsame : Same k k' hs) : Filed k' hs w := by
  unfold Filed
  rw [hdl]
  refine Files.congr f ?_
  intro v hv
  exact hsame.debugKey (w.inDebug_subset hv)

section Register
variable {L : Layout} {k : Kernel} {hs : List UniProbe} {extra : Nat → Nat} {u : UniProbe}

theorem linkBreak_eq (b : Books L k hs (.linkBreak u) extra) :
    k.linkBreak u = (k.cloneProbe u).insertBreakPoint (k.breakKey u) u := by
  have hmem : u ∈ hs ++ (Writer.linkBreak u).fresh := by simp [Writer.fresh]
  obtain ⟨pr, pt, -, -, -, hpt⟩ := b.live hmem
  unfold Kernel.linkBreak
  rw [hpt, breakKey_of hpt]

theorem linkBreak_same (k : Kernel) (u : UniProbe) (l : List UniProbe) :
    Same k (k.linkBreak u) l := by
  intro v _
  unfold Kernel.linkBreak
  split
  · exact ⟨rfl, rfl⟩
  · exact ⟨k.pointId_cloneProbe v u, k.probePoint_cloneProbe v u⟩

theorem linkDebug_same (k : Kernel) (u : UniProbe) (l : List UniProbe) :
    Same k (k.linkDebug u) l := by
  intro v _
  unfold Kernel.linkDebug
  split
  · exact ⟨rfl, rfl⟩
  · exact ⟨rfl, rfl⟩

theorem Books.linkBreak (b : Books L k hs (.linkBreak u) extra) :
    Books L (k.linkBreak u) hs (.linkDebug u) extra := by
  have hmem : u ∈ hs ++ (Writer.linkBreak u).fresh := by simp [Writer.fresh]
  obtain ⟨pr, pt, hpr, -, -, -⟩ := b.live hmem
  have hstep := linkBreak_eq b
  have hsame := linkBreak_same k u (hs ++ [u])
  constructor
  · rw [hstep]
    have hclone := b.sound.cloneProbe hpr (fun v => rfl)
    refine hclone.insertBreakPoint ?_
    intro v
    simp only [Writer.held]
  · have hfiles : Files (k.linkBreak u).breakList k.breakKey (hs ++ [u]) := by
      rw [hstep]
      exact b.breaks.push u
    exact hfiles.congr fun v hv => hsame.breakKey hv
  · exact b.arcs
  · intro v hv
    rw [hsame.breakKey hv, (hsame v hv).1, hstep]
    exact b.pointed v hv
  · intro a p ha
    rw [hstep] at ha
    rcases b.listed a p ha with h | ⟨v, hv, hk⟩
    · cases h
    · exact .inr ⟨v, hv, (hsame.breakKey hv).trans hk⟩
  · trivial

theorem Filed.linkBreak (b : Books L k hs (.linkBreak u) extra) (f : Filed k hs (.linkBreak u)) :
    Filed (k.linkBreak u) hs (.linkDebug u) := by
  rw [linkBreak_eq b]
  refine Files.congr f ?_
  intro v _
  exact debugKey_congr (k.probePoint_cloneProbe v u)

theorem linkDebug_eq (b : Books L k hs (.linkDebug u) extra) :
    k.linkDebug u = k.insertDebugPoint (k.debugKey u) u := by
  have hmem : u ∈ hs ++ (Writer.linkDebug u).fresh := by simp [Writer.fresh]
  obtain ⟨pr, pt, -, -, -, hpt⟩ := b.live hmem
  unfold Kernel.linkDebug
  rw [hpt, debugKey_of hpt]

theorem Books.linkDebug (b : Books L k hs (.linkDebug u) extra) :
    Books L (k.linkDebug u) (hs ++ [u]) .idle extra := by
  have hnil : hs ++ [u] ++ Writer.idle.fresh = hs ++ [u] := by simp [Writer.fresh]
  rw [linkDebug_eq b]
  constructor
  · refine b.sound.insertDebugPoint ?_
    intro v
    simp only [Writer.held, handles_append, handles_cons, handles_nil]
    omega
  · exact b.breaks
  · rw [hnil]
    exact b.arcs
  · rw [hnil]
    exact b.pointed
  · rw [hnil]
    intro a p ha
    rcases b.listed a p ha with h | h
    · cases h
    · exact .inr h
  · trivial

theorem Filed.linkDebug (b : Books L k hs (.linkDebug u) extra) (f : Filed k hs (.linkDebug u)) :
    Filed (k.linkDebug u) (hs ++ [u]) .idle := by
  rw [linkDebug_eq b]
  exact Files.push f u

end Register

section Begin
variable {L : Layout} {k : Kernel} {hs : List UniProbe} {extra : Nat → Nat}

/-- A fresh `Arc` around a probe that holds a reference to a live point, cloned once. -/
theorem newProbe_spec {held pheld pheld' : Nat → Nat} (s : Sound L k held pheld)
    (kind : ProbeKind) (pr : Probe) {pt : ProbePoint} (hpt : k.points.value pr.point = some pt)
    (hp : ∀ q, pheld q = pheld' q + Arcs.one pr.point q) :
    ∃ u k', k.newProbe kind pr = (u, k') ∧ u.arc = k.probes.next ∧
      Sound L (k'.cloneProbe u) (fun v => held v + (Arcs.one u.arc v + Arcs.one u.arc v)) pheld' ∧
      (k'.cloneProbe u).breakList = k.breakList ∧ (k'.cloneProbe u).debugList = k.debugList ∧
      (k'.cloneProbe u).pointList = k.pointList ∧
      (∀ l : List UniProbe, (∀ v ∈ l, 0 < k.listed v.arc + held v.arc) →
        Same k (k'.cloneProbe u) l) ∧
      (k'.cloneProbe u).pointId u = some pr.point ∧
      (k'.cloneProbe u).probePoint u = some pt := by
  have hval : (k.newProbe kind pr).2.probes.value k.probes.next = some pr := by
    show (k.probes.alloc pr).2.value _ = _
    rw [Arcs.value_alloc, if_pos rfl]
  refine ⟨⟨kind, k.probes.next⟩, (k.newProbe kind pr).2, rfl, rfl, ?_, rfl, rfl, rfl, ?_, ?_, ?_⟩
  · have hnew : Sound L (k.newProbe kind pr).2
        (fun v => held v + Arcs.one k.probes.next v) pheld' := s.newProbe (fun _ => rfl) hp
    refine hnew.cloneProbe hval ?_
    intro v
    dsimp only
    omega
  · intro l hl
    apply Same.of_values
    · intro v hv
      have hne : v.arc ≠ k.probes.next := by
        intro heq
        have hpos := hl v hv
        have hzero := s.probes.refs_next
        rw [heq] at hpos
        omega
      show ((k.probes.alloc pr).2.clone _).value v.arc = _
      rw [Arcs.value_clone, Arcs.value_alloc, if_neg hne]
    · intro v _ p _
      rfl
  · rw [pointId_cloneProbe]
    show Option.map Probe.point ((k.newProbe kind pr).2.probes.value k.probes.next) = _
    rw [hval]
    rfl
  · rw [probePoint_cloneProbe]
    show (Option.map Probe.point ((k.newProbe kind pr).2.probes.value k.probes.next)).bind
      k.points.value = _
    rw [hval]
    exact hpt

/-- What a fresh probe on a filed point leaves to be linked. -/
theorem Books.linking {k' : Kernel} {w : Writer} {u : UniProbe} {a p : Nat} {pt : ProbePoint}
    (b : Books L k hs w extra) (hidle : w.fresh = []) (hbreak : w.inBreak hs = hs)
    (hclear : ∀ a, ¬ w.clearing a)
    (s : Sound L k' (fun v => handles hs v + (Writer.linkBreak u).held v + extra v) fun _ => 0)
    (hnew : ∀ v ∈ hs, v.arc ≠ u.arc) (hsame : Same k k' hs) (hbl : k'.breakList = k.breakList)
    (hpl : k'.pointList.lookup a = some p ∧
      ∀ c, c ≠ a → k'.pointList.lookup c = k.pointList.lookup c)
    (hold : ∀ v ∈ hs, k.breakKey v = a → k.pointId v = some p) (hid : k'.pointId u = some p)
    (hpt : k'.probePoint u = some pt) (haddr : pt.addr = a) :
    Books L k' hs (.linkBreak u) extra where
  sound := s
  breaks := by
    rw [hbl]
    have hfiles := b.breaks
    rw [hbreak] at hfiles
    exact hfiles.congr fun v hv => hsame.breakKey hv
  arcs := by
    have harcs := b.arcs
    rw [hidle, List.append_nil] at harcs
    simp only [Writer.fresh, List.map_append, List.map_cons, List.map_nil]
    rw [List.nodup_append]
    refine ⟨harcs, by simp, ?_⟩
    intro x hx y hy
    obtain ⟨v, hv, rfl⟩ := List.mem_map.mp hx
    rw [List.mem_singleton] at hy
    rw [hy]
    exact hnew v hv
  pointed v hv := by
    rcases List.mem_append.mp hv with hv | hv
    · rw [hsame.breakKey hv, (hsame v hv).1]
      by_cases hva : k.breakKey v = a
      · rw [hva, hpl.1, hold v hv hva]
      · rw [hpl.2 _ hva]
        exact b.pointed_handle hv
    · simp only [Writer.fresh, List.mem_singleton] at hv
      subst hv
      rw [breakKey_of hpt, ProbePoint.breakAddress, haddr, hpl.1, hid]
  listed c q hc := by
    right
    by_cases hca : c = a
    · refine ⟨u, by simp [Writer.fresh], ?_⟩
      rw [breakKey_of hpt, ProbePoint.breakAddress, haddr, hca]
    · rw [hpl.2 c hca] at hc
      rcases b.listed c q hc with h | ⟨v, hv, hk⟩
      · exact absurd h (hclear c)
      · rw [hidle, List.append_nil] at hv
        exact ⟨v, List.mem_append_left _ hv, (hsame.breakKey hv).trans hk⟩
  valid := trivial

/-- Registration on an address that has a point: the point is shared. -/
theorem beginRegister_shared (kind : ProbeKind) {pb : ProbeBuilder} (page : Nat) {p : Nat}
    (b : Books L k hs .idle extra) (hp : k.pointList.lookup pb.probeAddr = some p) :
    ∃ u k', k.beginRegister kind pb page = (.ok (.linkBreak u), k') ∧ u.kind = kind ∧
      Books L k' hs (.linkBreak u) extra ∧ (Filed k hs .idle → Filed k' hs (.linkBreak u)) ∧
      k'.breakKey u = pb.probeAddr ∧
      ∀ l : List UniProbe, (∀ v ∈ l, 0 < handles hs v.arc + extra v.arc) → Same k k' l := by
  obtain ⟨pt, hpt, haddr⟩ := b.point_addr hp
  have h1 : Sound L (k.clonePoint p)
      (fun v => handles hs v + Writer.idle.held v + extra v) (fun q => Arcs.one p q) :=
    b.sound.clonePoint hpt fun q => by simp [Writer.pheld]
  have hpt1 : (k.clonePoint p).points.value p = some pt := by
    rw [Kernel.clonePoint, Arcs.value_clone]
    exact hpt
  have h2 : Sound L ((k.clonePoint p).clonePoint p)
      (fun v => handles hs v + Writer.idle.held v + extra v)
      (fun q => Arcs.one p q + Arcs.one p q) := h1.clonePoint hpt1 fun _ => rfl
  have h3 : Sound L (((k.clonePoint p).clonePoint p).dropPoint p)
      (fun v => handles hs v + Writer.idle.held v + extra v) (fun q => Arcs.one p q) :=
    h2.dropPoint fun _ => rfl
  have hshr := Kernel.dropPoint_shrinks ((k.clonePoint p).clonePoint p) p
  have hsame3 : ∀ l : List UniProbe, (∀ v ∈ l, 0 < handles hs v.arc + extra v.arc) →
      Same k (((k.clonePoint p).clonePoint p).dropPoint p) l := by
    intro l hl
    have hclone : Same k ((k.clonePoint p).clonePoint p) l := fun v _ =>
      ⟨rfl, ((k.clonePoint p).probePoint_clonePoint p v).trans (k.probePoint_clonePoint p v)⟩
    exact hclone.trans (hshr.same h3 hl)
  have hpt3 : (((k.clonePoint p).clonePoint p).dropPoint p).points.value p = some pt := by
    obtain ⟨pt', hpt'⟩ := h3.points.live (i := p) (by rw [Arcs.one_self]; omega)
    have hback := hshr.points p pt' hpt'
    simp only [Kernel.clonePoint, Arcs.value_clone] at hback
    rw [hpt] at hback
    cases hback
    exact hpt'
  obtain ⟨u, k', hk', harc, hsound, hbl, hdl, hpl, hsame, hid, hprobe⟩ :=
    newProbe_spec h3 kind ⟨pb.basic, p⟩ hpt3 fun q => (Nat.zero_add _).symm
  have hall : ∀ l : List UniProbe, (∀ v ∈ l, 0 < handles hs v.arc + extra v.arc) →
      Same k (k'.cloneProbe u) l := fun l hl =>
    (hsame3 l hl).trans (hsame l fun v hv => Nat.lt_of_lt_of_le (hl v hv) (Nat.le_add_left _ _))
  have hsame' := hall hs fun v hv => Nat.lt_of_lt_of_le (handles_pos hv) (Nat.le_add_right _ _)
  refine ⟨u, k'.cloneProbe u, ?_, ?_, ?_, ?_, ?_, hall⟩
  · unfold Kernel.beginRegister
    simp only [hp, Kernel.install, hk']
  · have hkind := congrArg (fun r => r.1.kind) hk'
    exact hkind.symm
  · refine b.linking rfl rfl (fun _ h => h) ?_ ?_ hsame' ?_ ⟨?_, ?_⟩ ?_ hid hprobe haddr
    · refine hsound.congr (fun v => ?_) fun _ => rfl
      simp only [Writer.held]
      omega
    · intro v hv heq
      have hpos : 0 < handles hs v.arc + Writer.idle.held v.arc + extra v.arc :=
        Writer.held_pos (List.mem_append_left _ hv)
      have hzero := h3.probes.refs_next
      rw [← harc, ← heq] at hzero
      omega
    · rw [hbl, hshr.breakList]
      rfl
    · rw [hpl, hshr.pointList]
      exact hp
    · intro c _
      rw [hpl, hshr.pointList]
      rfl
    · intro v hv hva
      rw [← b.pointed_handle hv, hva, hp]
  · intro f
    exact Filed.others (w := .linkBreak u) f (by rw [hdl, hshr.debugList]; rfl) hsame'
  · rw [breakKey_of hprobe, ProbePoint.breakAddress, haddr]

/-- Registration on an address without a point plants one, or finds that it cannot. -/
theorem beginRegister_planted (kind : ProbeKind) {pb : ProbeBuilder} {page : Nat}
    (b : Books L k hs .idle extra) (hp : k.pointList.lookup pb.probeAddr = none)
    (hfresh : FreshPage L k page) {o : OpcodeTy}
    (hsite : L.site pb.userPid pb.probeAddr)
    (hf : fetch k.mem pb.userPid pb.probeAddr = .ok o) :
    ∃ k', k.beginRegister kind pb page =
        (.ok (.filePoint kind ⟨pb.basic, k.points.next⟩ k.points.next pb.probeAddr), k') ∧
      Books L k' hs (.filePoint kind ⟨pb.basic, k.points.next⟩ k.points.next pb.probeAddr) extra ∧
      (Filed k hs .idle → Filed k' hs
        (.filePoint kind ⟨pb.basic, k.points.next⟩ k.points.next pb.probeAddr)) ∧
      k'.points.value k.points.next =
        some (plantedPoint pb.userPid pb.probeAddr page o) ∧
      ∀ l : List UniProbe, (∀ v ∈ l, 0 < handles hs v.arc + extra v.arc) → Same k k' l := by
  have h1 : Sound L (k.planted pb.userPid pb.probeAddr page o)
      (fun v => handles hs v + Writer.idle.held v + extra v)
      (fun q => Arcs.one k.points.next q) :=
    b.sound.plant hsite hf hfresh fun q => by simp [Writer.pheld]
  have hpt := k.planted_value pb.userPid pb.probeAddr page o k.points.next
  rw [if_pos rfl] at hpt
  have h2 : Sound L ((k.planted pb.userPid pb.probeAddr page o).clonePoint k.points.next)
      (fun v => handles hs v + Writer.idle.held v + extra v)
      (fun q => Arcs.one k.points.next q + Arcs.one k.points.next q) :=
    h1.clonePoint hpt fun _ => rfl
  have hall : ∀ l : List UniProbe, (∀ v ∈ l, 0 < handles hs v.arc + extra v.arc) →
      Same k ((k.planted pb.userPid pb.probeAddr page o).clonePoint k.points.next) l := by
    intro l hl
    apply Same.of_values
    · intro v _
      rfl
    · intro v hv p hvp
      obtain ⟨pr, hpr⟩ := b.sound.live_of_held (hl v hv)
      obtain ⟨pt, hpt'⟩ := b.sound.live_point hpr
      have hid : k.pointId v = some pr.point := by simp [Kernel.pointId, hpr]
      rw [hid] at hvp
      cases hvp
      have hne : pr.point ≠ k.points.next := by
        intro heq
        rw [heq, b.sound.points.next_unused] at hpt'
        cases hpt'
      show ((k.points.alloc _).2.clone _).value pr.point = _
      rw [Arcs.value_clone, Arcs.value_alloc, if_neg hne]
  have hsame := hall hs fun v hv => Nat.lt_of_lt_of_le (handles_pos hv) (Nat.le_add_right _ _)
  have hpt2 : ((k.planted pb.userPid pb.probeAddr page o).clonePoint
      k.points.next).points.value k.points.next =
        some (plantedPoint pb.userPid pb.probeAddr page o) := by
    show ((k.planted _ _ _ _).points.clone _).value k.points.next = _
    rw [Arcs.value_clone]
    exact hpt
  refine ⟨(k.planted pb.userPid pb.probeAddr page o).clonePoint k.points.next, ?_, ?_, ?_, hpt2,
    hall⟩
  · unfold Kernel.beginRegister
    simp only [hp, Kernel.install, Kernel.replaceInst_eq, hf]
  · constructor
    · exact h2
    · exact b.breaks.congr fun v hv => hsame.breakKey hv
    · exact b.arcs
    · intro v hv
      have hv' : v ∈ hs := by simpa [Writer.fresh] using hv
      rw [hsame.breakKey hv', (hsame v hv').1]
      exact b.pointed_handle hv'
    · intro a q ha
      rcases b.listed a q ha with h | ⟨v, hv, hk⟩
      · cases h
      · have hv' : v ∈ hs := by simpa [Writer.fresh] using hv
        exact .inr ⟨v, by simpa [Writer.fresh] using hv', (hsame.breakKey hv').trans hk⟩
    · exact ⟨hp, rfl, plantedPoint pb.userPid pb.probeAddr page o, hpt2, rfl⟩
  · intro f
    exact Filed.others (w := .filePoint kind ⟨pb.basic, k.points.next⟩ k.points.next pb.probeAddr)
      f rfl hsame

theorem beginRegister_refused (kind : ProbeKind) {pb : ProbeBuilder} (page : Nat)
    (hp : k.pointList.lookup pb.probeAddr = none) {e : ProbeInstallError}
    (hf : fetch k.mem pb.userPid pb.probeAddr = .error e) :
    k.beginRegister kind pb page = (.error e, k) := by
  unfold Kernel.beginRegister
  simp only [hp, Kernel.install, Kernel.replaceInst_eq, hf]

/-- The new point is filed, and there is a probe on it. -/
theorem Books.filePoint {kind : ProbeKind} {pr : Probe} {p a : Nat}
    (b : Books L k hs (.filePoint kind pr p a) extra) :
    ∃ u k', k.filePoint kind pr p a = (u, k') ∧ u.kind = kind ∧
      Books L k' hs (.linkBreak u) extra ∧
      (Filed k hs (.filePoint kind pr p a) → Filed k' hs (.linkBreak u)) ∧
      k'.breakKey u = a ∧
      ∀ l : List UniProbe, (∀ v ∈ l, 0 < handles hs v.arc + extra v.arc) → Same k k' l := by
  obtain ⟨hnone, rfl, pt, hpt, haddr⟩ := b.valid
  have h1 : Sound L (k.insertPoint a pr.point)
      (fun v => handles hs v + (Writer.filePoint kind pr pr.point a).held v + extra v)
      (fun q => Arcs.one pr.point q) := b.sound.insertPoint hnone fun q => rfl
  have hinsert : k.insertPoint a pr.point =
      { k with pointList := k.pointList.insert a pr.point } := by
    unfold Kernel.insertPoint
    rw [hnone]
  rw [hinsert] at h1
  have hpos : ∀ v ∈ hs, 0 < k.listed v.arc +
      (handles hs v.arc + (Writer.filePoint kind pr pr.point a).held v.arc + extra v.arc) :=
    fun v hv => Nat.lt_of_lt_of_le (Writer.held_pos (List.mem_append_left _ hv)) (Nat.le_add_left _ _)
  obtain ⟨u, k', hk', harc, hsound, hbl, hdl, hpl, hsame, hid, hprobe⟩ :=
    newProbe_spec h1 kind pr hpt fun q => (Nat.zero_add _).symm
  have hsame' : Same k (k'.cloneProbe u) hs := hsame hs hpos
  have hall : ∀ l : List UniProbe, (∀ v ∈ l, 0 < handles hs v.arc + extra v.arc) →
      Same k (k'.cloneProbe u) l := fun l hl =>
    hsame l fun v hv => Nat.lt_of_lt_of_le (hl v hv) (Nat.le_add_left _ _)
  refine ⟨u, k'.cloneProbe u, ?_, ?_, ?_, ?_, ?_, hall⟩
  · unfold Kernel.filePoint
    simp only [hinsert, hk']
  · exact (congrArg (fun r => r.1.kind) hk').symm
  · refine b.linking rfl rfl (fun _ h => h) ?_ ?_ hsame' hbl ⟨?_, ?_⟩ ?_ hid hprobe haddr
    · refine hsound.congr (fun v => ?_) fun _ => rfl
      simp only [Writer.held]
      omega
    · intro v hv heq
      have hzero := b.sound.probes.refs_next
      have hv' := hpos v hv
      rw [heq, harc] at hv'
      exact Nat.lt_irrefl 0 (hzero ▸ hv')
    · rw [hpl]
      exact AList.lookup_insert _
    · intro c hc
      rw [hpl]
      exact AList.lookup_insert_ne hc
    · intro v hv hva
      have hpointed := b.pointed_handle hv
      obtain ⟨pr', pt', -, -, hid', -⟩ := b.live_handle hv
      rw [hva, hnone, hid'] at hpointed
      cases hpointed
  · intro f
    exact Filed.others (w := .linkBreak u) f hdl hsame'
  · rw [breakKey_of hprobe, ProbePoint.breakAddress, haddr]

end Begin

section Unregister
variable {L : Layout} {k : Kernel} {hs : List UniProbe} {extra : Nat → Nat} {u : UniProbe}

/-- A removal begins with a handle given back. -/
theorem Books.beginUnregister (b : Books L k hs .idle extra) (hu : u ∈ hs) :
    Books L k hs (.unlinkBreak u) extra :=
  ⟨b.sound, b.breaks, b.arcs, b.pointed, b.listed, hu⟩

theorem removeOneBreak_shrinks (k : Kernel) (a : Nat) (u : UniProbe) :
    Shrinks { k with breakList := removeOne k.breakList a u } (k.removeOneBreak a u) :=
  dropProbes_shrinks _ _

theorem removeOneDebug_shrinks (k : Kernel) (a : Nat) (u : UniProbe) :
    Shrinks { k with debugList := removeOne k.debugList a u } (k.removeOneDebug a u) :=
  dropProbes_shrinks _ _

theorem unlinkBreak_eq (b : Books L k hs (.unlinkBreak u) extra) :
    k.unlinkBreak u = k.removeOneBreak (k.breakKey u) u := by
  obtain ⟨pr, pt, -, -, -, hpt⟩ := b.live_handle (show u ∈ hs from b.valid)
  unfold Kernel.unlinkBreak
  rw [hpt, breakKey_of hpt]

theorem unlinkBreak_same (b : Books L k hs (.unlinkBreak u) extra) :
    Same k (k.unlinkBreak u) hs := by
  rw [unlinkBreak_eq b]
  apply (removeOneBreak_shrinks k _ u).same (b.sound.removeOneBreak _ u)
  intro v hv
  exact Writer.held_pos (List.mem_append_left _ hv)

/-- Handles whose points stay are filed as they were. -/
theorem Books.pointed_same {w : Writer} {k' : Kernel} (b : Books L k hs w extra)
    (hsame : Same k k' hs) (hlist : k'.pointList = k.pointList) :
    ∀ v ∈ hs, k'.pointList.lookup (k'.breakKey v) = k'.pointId v := by
  intro v hv
  rw [hlist, hsame.breakKey hv, (hsame v hv).1]
  exact b.pointed_handle hv

/-- Between registrations, what is filed belongs to a handle. -/
theorem Books.listed_same {w : Writer} {k' : Kernel} (b : Books L k hs w extra)
    (hfresh : w.fresh = []) (hclear : ∀ a, ¬ w.clearing a) (hsame : Same k k' hs)
    (hlist : k'.pointList = k.pointList) {a p : Nat} (ha : k'.pointList.lookup a = some p) :
    ∃ v ∈ hs, k'.breakKey v = a := by
  rw [hlist] at ha
  rcases b.listed a p ha with h | ⟨v, hv, hk⟩
  · exact absurd h (hclear a)
  · rw [hfresh, List.append_nil] at hv
    exact ⟨v, hv, (hsame.breakKey hv).trans hk⟩

theorem Books.unlinkBreak (b : Books L k hs (.unlinkBreak u) extra) :
    Books L (k.unlinkBreak u) hs (.unlinkDebug u) extra := by
  have hsame := unlinkBreak_same b
  have hshr := removeOneBreak_shrinks k (k.breakKey u) u
  rw [← unlinkBreak_eq b] at hshr
  have hnil : hs ++ (Writer.unlinkDebug u).fresh = hs := List.append_nil hs
  constructor
  · rw [unlinkBreak_eq b]
    exact b.sound.removeOneBreak _ u
  · rw [hshr.breakList]
    refine (b.breaks.removeOne u).congr ?_
    intro v hv
    exact hsame.breakKey (List.mem_filter.mp hv).1
  · exact b.arcs
  · rw [hnil]
    exact b.pointed_same hsame hshr.pointList
  · rw [hnil]
    exact fun a p ha => .inr (b.listed_same rfl (fun _ h => h) hsame hshr.pointList ha)
  · exact b.valid

theorem Filed.unlinkBreak (b : Books L k hs (.unlinkBreak u) extra)
    (f : Filed k hs (.unlinkBreak u)) : Filed (k.unlinkBreak u) hs (.unlinkDebug u) := by
  have hshr := removeOneBreak_shrinks k (k.breakKey u) u
  rw [← unlinkBreak_eq b] at hshr
  unfold Filed
  rw [hshr.debugList]
  exact Files.congr f fun v hv => (unlinkBreak_same b).debugKey hv

theorem unlinkDebug_eq (b : Books L k hs (.unlinkDebug u) extra) :
    k.unlinkDebug u = k.removeOneDebug (k.debugKey u) u := by
  obtain ⟨pr, pt, -, -, -, hpt⟩ := b.live_handle (show u ∈ hs from b.valid)
  unfold Kernel.unlinkDebug
  rw [hpt, debugKey_of hpt]

theorem unlinkDebug_same (b : Books L k hs (.unlinkDebug u) extra) :
    Same k (k.unlinkDebug u) hs := by
  rw [unlinkDebug_eq b]
  apply (removeOneDebug_shrinks k _ u).same (b.sound.removeOneDebug _ u)
  intro v hv
  exact Writer.held_pos (List.mem_append_left _ hv)

theorem Books.unlinkDebug (b : Books L k hs (.unlinkDebug u) extra) :
    Books L (k.unlinkDebug u) hs (.release u (k.breakKey u)) extra := by
  have hsame := unlinkDebug_same b
  have hshr := removeOneDebug_shrinks k (k.debugKey u) u
  rw [← unlinkDebug_eq b] at hshr
  have hu : u ∈ hs := b.valid
  have hnil : hs ++ (Writer.release u (k.breakKey u)).fresh = hs := List.append_nil hs
  constructor
  · rw [unlinkDebug_eq b]
    exact b.sound.removeOneDebug _ u
  · rw [hshr.breakList]
    refine b.breaks.congr ?_
    intro v hv
    exact hsame.breakKey (List.mem_filter.mp hv).1
  · exact b.arcs
  · rw [hnil]
    exact b.pointed_same hsame hshr.pointList
  · rw [hnil]
    exact fun a p ha => .inr (b.listed_same rfl (fun _ h => h) hsame hshr.pointList ha)
  · exact ⟨hu, hsame.breakKey hu⟩

theorem Filed.unlinkDebug (b : Books L k hs (.unlinkDebug u) extra)
    (f : Filed k hs (.unlinkDebug u)) :
    Filed (k.unlinkDebug u) hs (.release u (k.breakKey u)) := by
  have hshr := removeOneDebug_shrinks k (k.debugKey u) u
  rw [← unlinkDebug_eq b] at hshr
  unfold Filed
  rw [hshr.debugList]
  refine (Files.removeOne f u).congr ?_
  intro v hv
  exact (unlinkDebug_same b).debugKey (List.mem_filter.mp hv).1

/-- What is left of the handles when one is dropped. -/
theorem release_sound {a : Nat} (b : Books L k hs (.release u a) extra) :
    Sound L (k.dropProbe u)
      (fun v => handles (hs.filter fun x => x ≠ u) v + (Writer.unfile a).held v + extra v)
      (Writer.unfile a).pheld := by
  refine b.sound.dropProbe ?_
  intro v
  have hu : u ∈ hs := b.valid.1
  have hsplit := b.handles_filter hu v
  simp only [Writer.held]
  omega

theorem release_same {a : Nat} (b : Books L k hs (.release u a) extra) :
    Same k (k.dropProbe u) (hs.filter fun x => x ≠ u) := by
  apply (k.dropProbe_shrinks u).same (release_sound b)
  intro v hv
  have hpos := handles_pos hv
  omega

theorem Books.release {a : Nat} (b : Books L k hs (.release u a) extra) :
    Books L (k.dropProbe u) (hs.filter fun v => v ≠ u) (.unfile a) extra := by
  have hsame := release_same b
  have hshr := k.dropProbe_shrinks u
  have hnil : (hs.filter fun v => v ≠ u) ++ (Writer.unfile a).fresh =
      hs.filter fun v => v ≠ u := by simp [Writer.fresh]
  obtain ⟨hu, hkey⟩ := b.valid
  constructor
  · exact release_sound b
  · rw [hshr.breakList]
    exact b.breaks.congr fun v hv => hsame.breakKey hv
  · rw [hnil]
    have harcs := b.arcs
    simp only [Writer.fresh, List.append_nil] at harcs
    exact harcs.sublist (List.filter_sublist.map UniProbe.arc)
  · rw [hnil]
    intro v hv
    rw [hshr.pointList, hsame.breakKey hv, (hsame v hv).1]
    exact b.pointed_handle (List.mem_filter.mp hv).1
  · rw [hnil]
    intro c p hc
    rw [hshr.pointList] at hc
    rcases b.listed c p hc with h | ⟨v, hv, hk⟩
    · cases h
    · have hv' : v ∈ hs := by simpa [Writer.fresh] using hv
      by_cases hvu : v = u
      · subst hvu
        exact .inl (hk.symm.trans hkey)
      · have hin : v ∈ hs.filter fun x => x ≠ u := by simp [hv', hvu]
        exact .inr ⟨v, hin, (hsame.breakKey hin).trans hk⟩
  · intro p hp
    obtain ⟨pt, hpt⟩ := (release_sound b).live_of_pointList hp
    rw [hshr.pointList] at hp
    have hold := hshr.points p pt hpt
    obtain ⟨pt', hpt', haddr⟩ := b.point_addr hp
    rw [hold] at hpt'
    cases hpt'
    exact ⟨pt, hpt, haddr⟩

theorem Filed.release {a : Nat} (b : Books L k hs (.release u a) extra)
    (f : Filed k hs (.release u a)) :
    Filed (k.dropProbe u) (hs.filter fun v => v ≠ u) (.unfile a) := by
  unfold Filed
  rw [(k.dropProbe_shrinks u).debugList]
  exact Files.congr f fun v hv => (release_same b).debugKey hv

/-- The break list is empty at an address where no handle is. -/
theorem kprobeNum_eq_zero {a : Nat} (b : Books L k hs (.unfile a) extra) :
    k.kprobeNum a = 0 ↔ ∀ v ∈ hs, k.breakKey v ≠ a := by
  have hlook : k.breakList.lookup a = stored (hs.filter fun v => k.breakKey v = a) := b.breaks a
  unfold Kernel.kprobeNum
  rw [hlook]
  constructor
  · intro hlen v hv hk
    have hin : v ∈ hs.filter fun v => k.breakKey v = a := by simp [hv, hk]
    rw [stored_of_ne (List.ne_nil_of_mem hin)] at hlen
    simp only [Option.map_some, Option.getD_some, List.length_eq_zero_iff] at hlen
    rw [hlen] at hin
    cases hin
  · intro hnone
    have hnil : (hs.filter fun v => k.breakKey v = a) = [] := by
      rw [List.filter_eq_nil_iff]
      intro v hv
      simpa using hnone v hv
    rw [hnil]
    rfl

theorem removePoint_shrinks (k : Kernel) (a : Nat) :
    Shrinks { k with pointList := k.pointList.erase a } (k.removePoint a) := by
  unfold Kernel.removePoint
  cases ha : k.pointList.lookup a with
  | some p => exact dropPoint_shrinks _ _
  | none =>
    refine ⟨rfl, rfl, ?_, fun _ _ h => h, fun _ _ h => h⟩
    have hnot : a ∉ k.pointList := AList.lookup_eq_none.mp ha
    apply AList.ext
    show k.pointList.entries = k.pointList.entries.kerase a
    rw [List.kerase_of_notMem_keys]
    exact hnot

theorem removePoint_same {a : Nat} (b : Books L k hs (.unfile a) extra) :
    Same k (k.removePoint a) hs := by
  have hshr := removePoint_shrinks k a
  have hmid : Same { k with pointList := k.pointList.erase a } (k.removePoint a) hs := by
    apply hshr.same (b.sound.removePoint a)
    intro v hv
    exact Writer.held_pos (List.mem_append_left _ hv)
  exact hmid

theorem Books.unfile {a : Nat} (b : Books L k hs (.unfile a) extra) :
    Books L (k.unfile a) hs .idle extra := by
  have hnil : hs ++ Writer.idle.fresh = hs := by simp [Writer.fresh]
  unfold Kernel.unfile
  split
  · rename_i hnum
    have hgone := (kprobeNum_eq_zero b).mp hnum
    have hsame := removePoint_same b
    have hshr := removePoint_shrinks k a
    constructor
    · exact b.sound.removePoint a
    · rw [hshr.breakList]
      exact b.breaks.congr fun v hv => hsame.breakKey hv
    · exact b.arcs
    · rw [hnil]
      intro v hv
      rw [hshr.pointList, hsame.breakKey hv, (hsame v hv).1]
      show AList.lookup _ (k.pointList.erase a) = _
      rw [AList.lookup_erase_ne (hgone v hv)]
      exact b.pointed_handle hv
    · rw [hnil]
      intro c p hc
      rw [hshr.pointList] at hc
      have hca : c ≠ a := by
        rintro rfl
        have hnone : AList.lookup c (k.pointList.erase c) = none := AList.lookup_erase _ _
        rw [hnone] at hc
        cases hc
      have hc' : k.pointList.lookup c = some p := by
        rwa [show AList.lookup c (k.pointList.erase a) = _ from AList.lookup_erase_ne hca] at hc
      rcases b.listed c p hc' with h | ⟨v, hv, hk⟩
      · exact absurd h hca
      · have hv' : v ∈ hs := by simpa [Writer.fresh] using hv
        exact .inr ⟨v, hv', (hsame.breakKey hv').trans hk⟩
    · trivial
  · rename_i hnum
    have hsome := mt (kprobeNum_eq_zero b).mpr hnum
    push Not at hsome
    obtain ⟨v, hv, hk⟩ := hsome
    refine ⟨b.sound, b.breaks, b.arcs, b.pointed, ?_, trivial⟩
    rw [hnil]
    intro c p hc
    rcases b.listed c p hc with h | ⟨x, hx, hkx⟩
    · exact .inr ⟨v, hv, hk.trans h.symm⟩
    · exact .inr ⟨x, by simpa [Writer.fresh] using hx, hkx⟩

theorem Filed.unfile {a : Nat} (b : Books L k hs (.unfile a) extra)
    (f : Filed k hs (.unfile a)) : Filed (k.unfile a) hs .idle := by
  unfold Kernel.unfile
  split
  · unfold Filed
    rw [(removePoint_shrinks k a).debugList]
    exact Files.congr f fun v hv => (removePoint_same b).debugKey hv
  · exact f

end Unregister

section Points
variable (k : Kernel)

/-- No point is new or changed. -/
def FewerPoints (k k' : Kernel) : Prop :=
  ∀ q y, k'.points.value q = some y → k.points.value q = some y

/-- At most one point is new, one that was just planted. -/
def NewPoint (k k' : Kernel) (sp : Space) (page : Nat) : Prop :=
  ∀ q y, k'.points.value q = some y → k.points.value q = some y ∨
    q = k.points.next ∧ ∃ a o, y = plantedPoint sp a page o

theorem FewerPoints.trans {k k₁ k₂ : Kernel} (h : FewerPoints k k₁) (h' : FewerPoints k₁ k₂) :
    FewerPoints k k₂ := fun q y hy => h q y (h' q y hy)

theorem NewPoint.trans {k k₁ k₂ : Kernel} {sp : Space} {page : Nat} (h : NewPoint k k₁ sp page)
    (h' : FewerPoints k₁ k₂) : NewPoint k k₂ sp page := fun q y hy => h q y (h' q y hy)

theorem linkBreak_points (u : UniProbe) : FewerPoints k (k.linkBreak u) := by
  intro q y hy
  unfold Kernel.linkBreak at hy
  split at hy <;> exact hy

theorem linkDebug_points (u : UniProbe) : FewerPoints k (k.linkDebug u) := by
  intro q y hy
  unfold Kernel.linkDebug at hy
  split at hy <;> exact hy

theorem clonePoint_points (p : Nat) : FewerPoints k (k.clonePoint p) := by
  intro q y hy
  rw [Kernel.clonePoint, Arcs.value_clone] at hy
  exact hy

theorem insertPoint_points (a p : Nat) : FewerPoints k (k.insertPoint a p) := by
  unfold Kernel.insertPoint
  dsimp only
  split
  · exact fun q y hy => hy
  · exact fun q y hy =>
      (dropPoint_shrinks { k with pointList := k.pointList.insert a p } _).points q y hy

theorem unregisterProbe_points (u : UniProbe) : FewerPoints k (k.unregisterProbe u) := by
  unfold Kernel.unregisterProbe Kernel.removeProbe
  split
  · exact fun q y hy => hy
  · rename_i p hp
    simp only
    have hremove : FewerPoints k
        (((k.removeOneBreak p.breakAddress u).removeOneDebug p.debugAddress u).dropProbe u) := by
      intro q y hy
      have h1 := (dropProbe_shrinks _ u).points q y hy
      have h2 := (removeOneDebug_shrinks _ _ u).points q y h1
      exact (removeOneBreak_shrinks k _ u).points q y h2
    split
    · exact hremove.trans fun q y hy => (removePoint_shrinks _ _).points q y hy
    · exact hremove

theorem beginRegister_points (kind : ProbeKind) (pb : ProbeBuilder) (page : Nat) :
    NewPoint k (k.beginRegister kind pb page).2 pb.userPid page := by
  unfold Kernel.beginRegister
  dsimp only
  cases hl : k.pointList.lookup pb.probeAddr with
  | some p =>
    intro q y hy
    left
    have h1 := (dropPoint_shrinks ((k.clonePoint p).clonePoint p) p).points q y hy
    exact clonePoint_points k p q y (clonePoint_points _ p q y h1)
  | none =>
    cases hf : fetch k.mem pb.userPid pb.probeAddr with
    | error e =>
      simp only [Kernel.install, Kernel.replaceInst_eq, hf]
      exact fun q y hy => .inl hy
    | ok o =>
      simp only [Kernel.install, Kernel.replaceInst_eq, hf]
      intro q y hy
      have h1 := clonePoint_points _ _ q y hy
      rw [Kernel.planted_value] at h1
      split at h1
      · rename_i hq
        cases h1
        exact .inr ⟨hq, _, _, rfl⟩
      · exact .inl h1

theorem registerProbe_points (kind : ProbeKind) (pb : ProbeBuilder) (page : Nat) :
    NewPoint k (k.registerProbe kind pb page).2 pb.userPid page := by
  have hbegin := beginRegister_points k kind pb page
  rcases k.registerProbe_cases kind pb page with ⟨e, k', h, heq⟩ | ⟨u, k', h, heq⟩ |
    ⟨pr, p, k', h, heq⟩
  · rw [heq]
    rwa [h] at hbegin
  · rw [heq]
    rw [h] at hbegin
    exact (hbegin.trans (linkBreak_points k' u)).trans (linkDebug_points _ u)
  · rw [heq]
    rw [h] at hbegin
    refine NewPoint.trans ?_ (linkDebug_points _ _)
    refine NewPoint.trans ?_ (linkBreak_points _ _)
    exact hbegin.trans fun q y hy => insertPoint_points k' _ _ q y hy

end Points

section Calls
variable {L : Layout} {k : Kernel} {hs : List UniProbe}

/-- Only instructions at probe sites are patched. -/
def AtSite (L : Layout) (k : Kernel) (pb : ProbeBuilder) : Prop :=
  k.pointList.lookup pb.probeAddr = none → ∀ o, fetch k.mem pb.userPid pb.probeAddr = .ok o →
    L.site pb.userPid pb.probeAddr

/-- A registration either changes nothing or adds one probe. -/
theorem Books.register (b : Books L k hs .idle fun _ => 0) (kind : ProbeKind) (pb : ProbeBuilder)
    {page : Nat} (hsite : AtSite L k pb) (hfresh : FreshPage L k page) :
    (∃ e, k.registerProbe kind pb page = (.error e, k)) ∨
    ∃ u k', k.registerProbe kind pb page = (.ok u, k') ∧ u.kind = kind ∧
      Books L k' (hs ++ [u]) .idle (fun _ => 0) ∧
      (Filed k hs .idle → Filed k' (hs ++ [u]) .idle) ∧ k'.breakKey u = pb.probeAddr ∧
      Same k k' hs := by
  -- both ways of installing end with the two insertions
  have hlink : ∀ (u : UniProbe) (k₁ : Kernel), u.kind = kind →
      Books L k₁ hs (.linkBreak u) (fun _ => 0) →
      (Filed k hs .idle → Filed k₁ hs (.linkBreak u)) → k₁.breakKey u = pb.probeAddr →
      Same k k₁ hs → k.registerProbe kind pb page = (.ok u, (k₁.linkBreak u).linkDebug u) →
      ∃ u k', k.registerProbe kind pb page = (.ok u, k') ∧ u.kind = kind ∧
        Books L k' (hs ++ [u]) .idle (fun _ => 0) ∧
        (Filed k hs .idle → Filed k' (hs ++ [u]) .idle) ∧ k'.breakKey u = pb.probeAddr ∧
        Same k k' hs := by
    intro u k₁ hkind hb hf hkey hsame heq
    refine ⟨u, _, heq, hkind, hb.linkBreak.linkDebug, ?_, ?_, ?_⟩
    · intro f
      exact Filed.linkDebug hb.linkBreak (Filed.linkBreak hb (hf f))
    · rw [(linkDebug_same _ u [u]).breakKey List.mem_cons_self,
        (linkBreak_same _ u [u]).breakKey List.mem_cons_self, hkey]
    · exact (hsame.trans (linkBreak_same _ u hs)).trans (linkDebug_same _ u hs)
  cases hp : k.pointList.lookup pb.probeAddr with
  | some p =>
    obtain ⟨u, k₁, hbegin, hkind, hb, hf, hkey, hsame⟩ :=
      beginRegister_shared kind page b hp
    right
    apply hlink u k₁ hkind hb hf hkey (hsame hs fun v hv => handles_pos hv)
    rcases k.registerProbe_cases kind pb page with ⟨e, k', h, -⟩ | ⟨u', k', h, heq⟩ |
      ⟨pr, q, k', h, -⟩ <;> rw [hbegin] at h <;> cases h
    exact heq
  | none =>
    cases hf : fetch k.mem pb.userPid pb.probeAddr with
    | error e =>
      left
      have hbegin := beginRegister_refused kind page hp hf
      refine ⟨e, ?_⟩
      rcases k.registerProbe_cases kind pb page with ⟨e', k', h, heq⟩ | ⟨u', k', h, -⟩ |
        ⟨pr, q, k', h, -⟩ <;> rw [hbegin] at h <;> cases h
      exact heq
    | ok o =>
      obtain ⟨k₁, hbegin, hb, hf₁, -, hsame₁⟩ :=
        beginRegister_planted kind b hp hfresh (hsite hp o hf) hf
      obtain ⟨u, k₂, hfile, hkind, hb₂, hf₂, hkey, hsame₂⟩ := hb.filePoint
      right
      apply hlink u k₂ hkind hb₂ (fun f => hf₂ (hf₁ f)) hkey
        ((hsame₁ hs fun v hv => handles_pos hv).trans (hsame₂ hs fun v hv => handles_pos hv))
      rcases k.registerProbe_cases kind pb page with ⟨e, k', h, -⟩ | ⟨u', k', h, -⟩ |
        ⟨pr, q, k', h, heq⟩ <;> rw [hbegin] at h <;> cases h
      rw [heq, hfile]

/-- A removal is its steps. -/
theorem Books.unregister_eq (b : Books L k hs .idle fun _ => 0) {u : UniProbe} (hu : u ∈ hs) :
    k.unregisterProbe u =
      (((k.unlinkBreak u).unlinkDebug u).dropProbe u).unfile (k.breakKey u) := by
  have hb := b.beginUnregister hu
  obtain ⟨pr, pt, -, -, -, hpt⟩ := b.live_handle hu
  have hpt' := (unlinkBreak_same hb u hu).2.trans hpt
  have hfirst : k.unlinkBreak u = k.removeOneBreak pt.breakAddress u := by
    rw [unlinkBreak_eq hb, breakKey_of hpt]
  have hsecond : (k.unlinkBreak u).unlinkDebug u =
      (k.unlinkBreak u).removeOneDebug pt.debugAddress u := by
    rw [unlinkDebug_eq hb.unlinkBreak, debugKey_of hpt']
  unfold Kernel.unregisterProbe Kernel.removeProbe
  simp only [hpt]
  rw [hsecond, hfirst, breakKey_of hpt]
  rfl

/-- A removal takes one probe off the books. -/
theorem Books.unregister (b : Books L k hs .idle fun _ => 0) {u : UniProbe} (hu : u ∈ hs) :
    Books L (k.unregisterProbe u) (hs.filter fun v => v ≠ u) .idle (fun _ => 0) ∧
      (Filed k hs .idle → Filed (k.unregisterProbe u) (hs.filter fun v => v ≠ u) .idle) ∧
      Same k (k.unregisterProbe u) (hs.filter fun v => v ≠ u) := by
  have h1 := b.beginUnregister hu
  have h2 := h1.unlinkBreak
  have h3 := h2.unlinkDebug
  have hkey : (k.unlinkBreak u).breakKey u = k.breakKey u := (unlinkBreak_same h1).breakKey hu
  rw [hkey] at h3
  have h4 := h3.release
  have h5 := h4.unfile
  rw [b.unregister_eq hu]
  refine ⟨h5, ?_, ?_⟩
  · intro f
    have f2 := Filed.unlinkDebug h2 (Filed.unlinkBreak h1 f)
    rw [hkey] at f2
    exact Filed.unfile h4 (Filed.release h3 f2)
  · have hsub : ∀ v ∈ hs.filter fun v => v ≠ u, v ∈ hs := fun v hv => (List.mem_filter.mp hv).1
    refine (((unlinkBreak_same h1).mono hsub).trans ((unlinkDebug_same h2).mono hsub)).trans
      ((release_same h3).trans ?_)
    unfold Kernel.unfile
    split
    · exact removePoint_same h4
    · exact fun v _ => ⟨rfl, rfl⟩

/-- Between calls every live probe is one of the handles, -/
theorem Books.handle_of_live (b : Books L k hs .idle fun _ => 0)
    (hd : ∀ a l, k.debugList.lookup a = some l → ∀ x ∈ l, x ∈ hs) {u : Nat} {pr : Probe}
    (hu : k.probes.value u = some pr) : ∃ x ∈ hs, x.arc = u := by
  have hpos := b.sound.probes.refs_pos hu
  simp only [Kernel.listed, Writer.held, Nat.add_zero] at hpos
  by_cases hbreak : 0 < occ (refTo u) k.breakList
  · obtain ⟨a, l, x, hl, hx, harc⟩ := exists_of_occ_pos hbreak
    exact ⟨x, (Files.mem_of_lookup b.breaks hl hx).1, harc⟩
  · by_cases hdebug : 0 < occ (refTo u) k.debugList
    · obtain ⟨a, l, x, hl, hx, harc⟩ := exists_of_occ_pos hdebug
      exact ⟨x, hd a l hl x hx, harc⟩
    · exact exists_of_handles_pos (by omega)

/-- and every live point is the point of a handle and filed. -/
theorem Books.point_of_live (b : Books L k hs .idle fun _ => 0)
    (hd : ∀ a l, k.debugList.lookup a = some l → ∀ x ∈ l, x ∈ hs) {p : Nat} {pt : ProbePoint}
    (hp : k.points.value p = some pt) :
    k.pointList.lookup pt.addr = some p ∧ ∃ u ∈ hs, k.pointId u = some p := by
  have hhandle : ∃ u ∈ hs, k.pointId u = some p := by
    have hpos := b.sound.points.refs_pos hp
    simp only [Kernel.filed, Writer.pheld, Nat.add_zero] at hpos
    by_cases hlist : 0 < Table.tally (fun q => Arcs.one q p) k.pointList
    · obtain ⟨a, q, ha, hq⟩ := Table.exists_of_tally_pos hlist
      cases Arcs.one_pos hq
      rcases b.listed a p ha with h | ⟨v, hv, rfl⟩
      · cases h
      · have hv' : v ∈ hs := by simpa [Writer.fresh] using hv
        exact ⟨v, hv', by rw [← b.pointed_handle hv', ha]⟩
    · have hprobe : 0 < k.probes.tally fun pr => Arcs.one pr.point p := by omega
      obtain ⟨u, pr, hu, hone⟩ := Arcs.exists_of_tally_pos hprobe
      obtain ⟨x, hx, rfl⟩ := b.handle_of_live hd hu
      refine ⟨x, hx, ?_⟩
      rw [Arcs.one_pos hone]
      simp [Kernel.pointId, hu]
  obtain ⟨u, hu, hid⟩ := hhandle
  refine ⟨?_, u, hu, hid⟩
  have hprobe : k.probePoint u = some pt := by simp [Kernel.probePoint, hid, hp]
  have hpointed := b.pointed_handle hu
  rw [breakKey_of hprobe, hid] at hpointed
  exact hpointed

end Calls

end ExtKtrace.Kprobe
