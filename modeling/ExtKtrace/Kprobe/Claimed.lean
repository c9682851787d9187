import ExtKtrace.Kprobe.Cpus
import ExtKtrace.Kprobe.InStep

/-!
# Planted breakpoints and their handler

A breakpoint that the library has planted is claimed by `kprobe_handler_from_break` except in
three windows: while the first probe at the address is being registered, while the last one is
being removed, and while a trap handler on another CPU keeps removed probes alive.
-/

namespace ExtKtrace.Kprobe
set_option autoImplicit false

open Filing Kernel

namespace Sys
variable (s : Sys) (a : Nat)

/-- The first probe at the address is being registered: the breakpoint is planted and no probe
is in the break list yet. -/
def Opening : Prop :=
  match s.writer with
  | .filePoint _ _ _ address => address = a
  | .linkBreak u => s.k.breakKey u = a ∧ ∀ v ∈ s.registered, s.k.breakKey v ≠ a
  | _ => False

/-- The last probe at the address is being removed: it is out of the break list and the point is
not dropped yet. -/
def Closing : Prop :=
  match s.writer with
  | .unlinkDebug u => s.k.breakKey u = a ∧ ∀ v ∈ s.registered, v ≠ u → s.k.breakKey v ≠ a
  | .release u _ => s.k.breakKey u = a ∧ ∀ v ∈ s.registered, v ≠ u → s.k.breakKey v ≠ a
  | .unfile address => address = a ∧ ∀ v ∈ s.registered, s.k.breakKey v ≠ a
  | _ => False

/-- No probe at the address is registered any more, but a trap handler still holds one. -/
def Lingering : Prop :=
  (∀ v ∈ s.registered ++ s.writer.fresh, s.k.breakKey v ≠ a) ∧
    ∃ i th v, s.threads.lookup i = some th ∧ v ∈ th.clones ∧ s.k.breakKey v = a

def Window : Prop := s.Opening a ∨ s.Closing a ∨ s.Lingering a

section
variable {s a} {L : Layout}

/-- Debug addresses are in slots, and no slot is program text. -/
theorem Kept.debugKey_off (h : Kept L s) {u : UniProbe} (hu : u ∈ s.registered) :
    ¬ L.text none (s.k.debugKey u) := by
  obtain ⟨pr, pt, -, hpt, -, hprobe⟩ := h.books.live_handle hu
  have hdyn := (h.kernel _ _ hpt).2
  have hlen := pt.oldInstruction.len_le
  have hpage := h.books.sound.planted.pages_off _
    (h.books.sound.planted.slot_mem _ _ hpt)
  rw [debugKey_of hprobe, pt.debugAddress_eq, ProbePoint.debugPage, if_pos hdyn]
  exact hpage _ (by omega) (by unfold pageSize; omega)

theorem Kept.firstPoint (h : Kept L s) {l : List UniProbe} (hne : l ≠ [])
    (hl : ∀ x ∈ l, x ∈ s.registered ++ s.writer.fresh) : (s.k.firstPoint l).isSome := by
  cases l with
  | nil => exact absurd rfl hne
  | cons x l =>
    obtain ⟨pr, pt, -, -, -, hprobe⟩ := h.books.live (hl x List.mem_cons_self)
    simp [Kernel.firstPoint, hprobe]

/-- A trap at a text address is claimed exactly when a probe is linked there. -/
theorem Kept.claimed_iff_linked (h : Kept L s) {t : Trap} (htext : L.text none t.regs.epc) :
    (s.k.kprobeHandlerFromBreak t).isClaimed ↔
      ∃ u ∈ s.writer.inBreak s.registered, s.k.breakKey u = t.regs.epc := by
  rw [← Files.lookup_isSome h.books.breaks]
  unfold Kernel.kprobeHandlerFromBreak Kernel.getBreakList PtRegs.breakAddress
  cases hl : s.k.breakList.lookup t.regs.epc with
  | some l =>
    have hsome := h.firstPoint (Files.ne_nil h.books.breaks hl) fun x hx =>
      s.writer.inBreak_subset (Files.mem_of_lookup h.books.breaks hl hx).1
    obtain ⟨p, hp⟩ := Option.isSome_iff_exists.mp hsome
    simp [hp, Handled.isClaimed]
  | none =>
    have hnone : s.k.debugList.lookup t.regs.epc = none := by
      by_contra hsome
      obtain ⟨u, hu, hk⟩ :=
        (Files.lookup_isSome h.filed t.regs.epc).mp (Option.isSome_iff_ne_none.mpr hsome)
      have hoff := h.debugKey_off (s.writer.inDebug_subset hu)
      rw [hk] at hoff
      exact hoff htext
    simp [Kernel.kprobeHandlerFromDebug, Kernel.getDebugList, PtRegs.debugAddress, hnone,
      Handled.isClaimed]

theorem not_linked_of_window (hb : Books L s.k s.registered s.writer s.cloned)
    (hw : s.Window a) : ∀ u ∈ s.writer.inBreak s.registered, s.k.breakKey u ≠ a := by
  intro u hu hk
  rcases hw with hw | hw | ⟨hnone, -⟩
  · unfold Opening at hw
    cases hwriter : s.writer with
    | filePoint kind pr p address =>
      rw [hwriter] at hw hu hb
      obtain ⟨hlook, -, -⟩ := hb.valid
      obtain ⟨pr', pt, -, -, hid, -⟩ := hb.live_handle (show u ∈ s.registered from hu)
      have hpointed := hb.pointed_handle (show u ∈ s.registered from hu)
      rw [hk, ← show address = a from hw, hlook, hid] at hpointed
      cases hpointed
    | linkBreak v =>
      rw [hwriter] at hw hu
      exact hw.2 u hu hk
    | idle => rw [hwriter] at hw; exact hw
    | linkDebug v => rw [hwriter] at hw; exact hw
    | unlinkBreak v => rw [hwriter] at hw; exact hw
    | unlinkDebug v => rw [hwriter] at hw; exact hw
    | release v c => rw [hwriter] at hw; exact hw
    | unfile c => rw [hwriter] at hw; exact hw
  · unfold Closing at hw
    cases hwriter : s.writer with
    | unlinkDebug v =>
      rw [hwriter] at hw hu
      obtain ⟨hu', hne⟩ := List.mem_filter.mp hu
      exact hw.2 u hu' (of_decide_eq_true hne) hk
    | release v c =>
      rw [hwriter] at hw hu
      obtain ⟨hu', hne⟩ := List.mem_filter.mp hu
      exact hw.2 u hu' (of_decide_eq_true hne) hk
    | unfile c =>
      rw [hwriter] at hw hu
      exact hw.2 u hu hk
    | idle => rw [hwriter] at hw; exact hw
    | filePoint kind pr p address => rw [hwriter] at hw; exact hw
    | linkBreak v => rw [hwriter] at hw; exact hw
    | linkDebug v => rw [hwriter] at hw; exact hw
    | unlinkBreak v => rw [hwriter] at hw; exact hw
  · exact hnone u (s.writer.inBreak_subset hu) hk

theorem Kept.referrer (h : Kept L s) {u : Nat} {pr : Probe} (hu : s.k.probes.value u = some pr) :
    (∃ x ∈ s.registered ++ s.writer.fresh, x.arc = u) ∨
      ∃ i th x, s.threads.lookup i = some th ∧ x ∈ th.clones ∧ x.arc = u := by
  have hpos := h.books.sound.probes.refs_pos hu
  simp only [Kernel.listed] at hpos
  by_cases hbreak : 0 < occ (refTo u) s.k.breakList
  · obtain ⟨c, l, x, hl, hx, harc⟩ := exists_of_occ_pos hbreak
    exact .inl ⟨x, s.writer.inBreak_subset (Files.mem_of_lookup h.books.breaks hl hx).1, harc⟩
  · by_cases hdebug : 0 < occ (refTo u) s.k.debugList
    · obtain ⟨c, l, x, hl, hx, harc⟩ := exists_of_occ_pos hdebug
      have hx' := s.writer.inDebug_subset (Files.mem_of_lookup h.filed hl hx).1
      exact .inl ⟨x, List.mem_append_left _ hx', harc⟩
    · by_cases hhandle : 0 < handles s.registered u
      · obtain ⟨x, hx, harc⟩ := exists_of_handles_pos hhandle
        exact .inl ⟨x, List.mem_append_left _ hx, harc⟩
      · by_cases hheld : 0 < s.writer.held u
        · obtain ⟨x, hx, harc⟩ := s.writer.fresh_of_held hheld
          exact .inl ⟨x, List.mem_append_right _ hx, harc⟩
        · have hcloned : 0 < s.cloned u := by omega
          obtain ⟨i, th, hi, hth⟩ := Table.exists_of_tally_pos hcloned
          obtain ⟨x, hx, harc⟩ := exists_of_handles_pos hth
          exact .inr ⟨i, th, x, hi, hx, harc⟩

theorem only_filtered {key : UniProbe → Nat} {hs : List UniProbe} {u x : UniProbe}
    (hnone : ∀ v ∈ hs.filter fun v => v ≠ u, key v ≠ a) (hx : x ∈ hs) (hk : key x = a) :
    x = u ∧ ∀ v ∈ hs, v ≠ u → key v ≠ a := by
  have hall : ∀ v ∈ hs, v ≠ u → key v ≠ a := fun v hv hne =>
    hnone v (List.mem_filter.mpr ⟨hv, by simp [hne]⟩)
  refine ⟨?_, hall⟩
  by_contra hne
  exact hall x hx hne hk

/-- A probe on the books at an address where none is linked is on its way in or out. -/
theorem window_of_member {x : UniProbe} (hx : x ∈ s.registered ++ s.writer.fresh)
    (hk : s.k.breakKey x = a) (hnone : ∀ u ∈ s.writer.inBreak s.registered, s.k.breakKey u ≠ a) :
    s.Window a := by
  unfold Window Opening Closing
  cases hwriter : s.writer with
  | linkBreak u =>
    rw [hwriter] at hnone hx
    have hall : ∀ v ∈ s.registered, s.k.breakKey v ≠ a := hnone
    rcases List.mem_append.mp hx with hx | hx
    · exact absurd hk (hall x hx)
    · simp only [Writer.fresh, List.mem_singleton] at hx
      subst hx
      exact .inl ⟨hk, hall⟩
  | unlinkDebug u =>
    rw [hwriter] at hnone hx
    simp only [Writer.fresh, List.append_nil] at hx
    obtain ⟨rfl, hall⟩ := only_filtered hnone hx hk
    exact .inr (.inl ⟨hk, hall⟩)
  | release u c =>
    rw [hwriter] at hnone hx
    simp only [Writer.fresh, List.append_nil] at hx
    obtain ⟨rfl, hall⟩ := only_filtered hnone hx hk
    exact .inr (.inl ⟨hk, hall⟩)
  | linkDebug u =>
    rw [hwriter] at hnone hx
    exact absurd hk (hnone x hx)
  | idle =>
    rw [hwriter] at hnone hx
    exact absurd hk (hnone x (by simpa [Writer.fresh, Writer.inBreak] using hx))
  | filePoint kind pr q c =>
    rw [hwriter] at hnone hx
    exact absurd hk (hnone x (by simpa [Writer.fresh, Writer.inBreak] using hx))
  | unlinkBreak u =>
    rw [hwriter] at hnone hx
    exact absurd hk (hnone x (by simpa [Writer.fresh, Writer.inBreak] using hx))
  | unfile c =>
    rw [hwriter] at hnone hx
    exact absurd hk (hnone x (by simpa [Writer.fresh, Writer.inBreak] using hx))

/-- A point that only the registration under way holds. -/
theorem Kept.opening_of_pheld (h : Kept L s) {p : Nat} {pt : ProbePoint}
    (hp : s.k.points.value p = some pt) (hpheld : 0 < s.writer.pheld p) : s.Opening pt.addr := by
  have hvalid := h.books.valid
  unfold Opening
  cases hwriter : s.writer <;> rw [hwriter] at hpheld hvalid <;>
    simp only [Writer.pheld, Nat.lt_irrefl] at hpheld
  rename_i kind pr q c
  obtain ⟨-, rfl, pt', hpt', haddr⟩ := hvalid
  have hpq : p = pr.point := by
    apply Arcs.one_pos
    omega
  rw [← hpq, hp] at hpt'
  cases hpt'
  exact haddr.symm

/-- A live point at an address where no probe is linked: one of the windows is open. -/
theorem Kept.window_of_not_linked (h : Kept L s) {p : Nat} {pt : ProbePoint}
    (hp : s.k.points.value p = some pt)
    (hnone : ∀ u ∈ s.writer.inBreak s.registered, s.k.breakKey u ≠ pt.addr) :
    s.Window pt.addr := by
  by_cases hbooks : ∃ x ∈ s.registered ++ s.writer.fresh, s.k.breakKey x = pt.addr
  · obtain ⟨x, hx, hk⟩ := hbooks
    exact window_of_member hx hk hnone
  push Not at hbooks
  -- the point list, a probe or the writer holds the point
  have hpos := h.books.sound.points.refs_pos hp
  simp only [Kernel.filed] at hpos
  by_cases hlist : 0 < Table.tally (fun q => Arcs.one q p) s.k.pointList
  · obtain ⟨c, q, hc, hq⟩ := Table.exists_of_tally_pos hlist
    cases Arcs.one_pos hq
    obtain ⟨pt', hpt', haddr⟩ := h.books.point_addr hc
    rw [hp] at hpt'
    cases hpt'
    rcases h.books.listed c p hc with hclear | ⟨v, hv, hk⟩
    · right
      left
      unfold Closing
      cases hwriter : s.writer <;> rw [hwriter] at hclear <;>
        simp only [Writer.clearing] at hclear
      refine ⟨hclear.symm.trans haddr.symm, ?_⟩
      intro v hv
      exact hbooks v (List.mem_append_left _ hv)
    · exact absurd (hk.trans haddr.symm) (hbooks v hv)
  by_cases hprobe : 0 < s.k.probes.tally fun pr => Arcs.one pr.point p
  · obtain ⟨u, pr, hu, hone⟩ := Arcs.exists_of_tally_pos hprobe
    have hpoint := Arcs.one_pos hone
    have hkey : ∀ x : UniProbe, x.arc = u → s.k.breakKey x = pt.addr := by
      rintro x rfl
      have hprobePoint : s.k.probePoint x = some pt := by
        simp [Kernel.probePoint, Kernel.pointId, hu, ← hpoint, hp]
      exact breakKey_of hprobePoint
    rcases h.referrer hu with ⟨x, hx, harc⟩ | ⟨i, th, x, hi, hx, harc⟩
    · exact absurd (hkey x harc) (hbooks x hx)
    · exact .inr (.inr ⟨hbooks, i, th, x, hi, hx, hkey x harc⟩)
  · exact .inl (h.opening_of_pheld hp (by omega))

/-- Whatever the interleaving, a planted breakpoint is claimed exactly outside the windows. -/
theorem breakpoint_claimed_iff (L : Layout) (s : Sys) (h : Reachable L s) (t : Trap)
    (hbreak : Breaks L s.k.mem none t.regs.epc) (hnative : ¬ Breaks L L.code none t.regs.epc) :
    (s.k.kprobeHandlerFromBreak t).isClaimed ↔ ¬ s.Window t.regs.epc := by
  have hkept := h.kept
  have htext : L.text none t.regs.epc := by
    obtain ⟨o, hin, -⟩ := hbreak
    have h0 := hin 0 o.len_pos
    rwa [Nat.add_zero] at h0
  rw [hkept.claimed_iff_linked htext]
  constructor
  · rintro ⟨u, hu, hk⟩ hw
    exact not_linked_of_window hkept.books hw u hu hk
  · intro hw
    by_contra hnone
    push Not at hnone
    obtain ⟨p, pt, hp, -, haddr⟩ := hkept.books.sound.planted.planted_of_breaks hbreak hnative
    rw [← haddr] at hw hnone
    exact hw (hkept.window_of_not_linked hp hnone)

end

open Registry (oneInsn oneProbe oneInsn_fresh)

def advance (s : Sys) : Sys := s.writerStep.getD s

def planted : Sys :=
  (boot (oneInsn 1)).begun ((boot (oneInsn 1)).k.beginRegister .kprobe oneProbe 8192)

def installed : Sys := planted.advance.advance.advance

/-- The probe is being given back and is out of the break list. -/
def unlinked : Sys := { installed with writer := .unlinkBreak ⟨.kprobe, 0⟩ }.advance

theorem planted_step : Step (oneInsn 1) (boot (oneInsn 1)) planted :=
  Step.beginRegister _ oneProbe 8192 rfl rfl (fun _ _ _ => ⟨rfl, rfl⟩) (oneInsn_fresh rfl)

theorem planted_reachable : Reachable (oneInsn 1) planted := by
  have hboot : Reachable (oneInsn 1) (boot (oneInsn 1)) := Machine.Reachable.start rfl
  exact hboot.next planted_step

theorem installed_reachable : Reachable (oneInsn 1) installed := by
  have h1 : Reachable (oneInsn 1) planted.advance :=
    planted_reachable.next (Step.writer _ _ rfl)
  have h2 : Reachable (oneInsn 1) planted.advance.advance := h1.next (Step.writer _ _ rfl)
  exact h2.next (Step.writer _ _ rfl)

theorem unlinked_reachable : Reachable (oneInsn 1) unlinked := by
  have h1 : Reachable (oneInsn 1) { installed with writer := .unlinkBreak ⟨.kprobe, 0⟩ } :=
    installed_reachable.next (Step.beginUnregister _ _ rfl (by decide +kernel))
  exact h1.next (Step.writer _ _ rfl)

theorem oneInsn_native : ¬ Breaks (oneInsn 1) (oneInsn 1).code none 4096 := by
  rintro ⟨o, -, hread⟩
  cases o with
  | inst16 i =>
    have h : (oneInsn 1).code.read none 4096 2 = Endian.toLe 2 cEbreakInst := hread
    revert h
    decide
  | inst32 i =>
    have h : (oneInsn 1).code.read none 4096 4 = Endian.toLe 4 ebreakInst := hread
    revert h
    decide

theorem oneInsn_text (i : Nat) (hi : i < 2) : (oneInsn 1).text none (4096 + i) :=
  ⟨rfl, by omega, by omega⟩

def atProbe : Trap := ⟨⟨4096, 0, 0, []⟩, []⟩

theorem breakpoint_claimed_iff_installed :
    (installed.k.kprobeHandlerFromBreak atProbe).isClaimed ↔ ¬ installed.Window 4096 :=
  breakpoint_claimed_iff (oneInsn 1) installed installed_reachable atProbe
    ⟨.inst16 0, oneInsn_text, by decide +kernel⟩ oneInsn_native

/-- In both windows the breakpoint is in the text and the trap is not claimed. -/
theorem planted_breakpoint_unclaimed :
    (Reachable (oneInsn 1) planted ∧ Breaks (oneInsn 1) planted.k.mem none 4096 ∧
      (planted.k.kprobeHandlerFromBreak atProbe).isClaimed = false) ∧
    (Reachable (oneInsn 1) unlinked ∧ Breaks (oneInsn 1) unlinked.k.mem none 4096 ∧
      (unlinked.k.kprobeHandlerFromBreak atProbe).isClaimed = false) ∧
    ¬ Breaks (oneInsn 1) (oneInsn 1).code none 4096 :=
  ⟨⟨planted_reachable, ⟨.inst16 0, oneInsn_text, by decide +kernel⟩, by decide +kernel⟩,
    ⟨unlinked_reachable, ⟨.inst16 0, oneInsn_text, by decide +kernel⟩, by decide +kernel⟩,
    oneInsn_native⟩

end Sys

end ExtKtrace.Kprobe
