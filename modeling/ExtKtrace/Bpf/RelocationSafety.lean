import ExtKtrace.Bpf.Relocation

/-!
# What a hostile program can do to the preprocessor

A load in the last slot has no second one, and the offset of a value load is never compared with
the size of the map.
-/

namespace ExtKtrace.Bpf
set_option autoImplicit false

open Preprocess

namespace EbpfPreProcessor
variable {ι : Type} {crate : LruCrate Bytes Bytes} (E : EbpfInst ι) (fds : MapFds crate)

/-- A slot that the loop can deal with: a load has a second slot, and the sum of base and offset
fits a word. -/
def Harmless (insns : List ι) (i : Nat) : Prop :=
  ∀ load, insns[i]? = some load → E.opc load = LD_DW_IMM →
    ∃ next, insns[i + 1]? = some next ∧ ¬ Overflows E fds i load next

/-- All that the loop has passed was harmless. -/
structure Passed (insns : List ι) (s : Scan ι) : Prop where
  rewritten : Rewritten E fds insns s
  harmless : ∀ i, Scanned E fds insns i → i < s.index → Harmless E fds insns i

variable {E fds} {insns : List ι} {s s' : Scan ι}

theorem not_overflows_of_error {i : Nat} {load next next' : ι} {e : BpfError}
    (h : target E fds i load next = .error e) : ¬ Overflows E fds i load next' := by
  rintro ⟨hvalue, range, hrange, -⟩
  rw [target_of_value E fds hvalue, hrange] at h
  cases h

/-- Between a slot the loop comes to and the next it comes to there is none. -/
theorem Follows.between {i j k : Nat} (h : Follows E fds insns i j) (hi : Scanned E fds insns i)
    (hk : Scanned E fds insns k) (hlt : i < k) : j ≤ k := by
  cases h with
  | one => exact hlt
  | two load next ptr hload => exact hload.skips hi hk hlt

theorem Passed.turn (h : Passed E fds insns s)
    (hturn : Turn E fds true s (.ok (.ok s'))) : Passed E fds insns s' := by
  have hat := h.rewritten.ahead s.index (Nat.le_refl _)
  have hafter := h.rewritten.ahead (s.index + 1) (Nat.le_succ _)
  have hhere : Harmless E fds insns s.index ∧ Follows E fds insns s.index s'.index := by
    cases hturn with
    | skip insn hhere hplain hwhole =>
      refine ⟨?_, .one _ insn (hat.symm.trans hhere) hplain⟩
      intro load hload hopc
      cases (hat.symm.trans hhere).symm.trans hload
      obtain ⟨next, hnext⟩ := hwhole hopc
      exact ⟨next, hafter.symm.trans hnext, fun hover => hplain (.inr hover.1)⟩
    | value load next hhere hnext hvalue ptr hlookup hsmall =>
      refine ⟨?_, .two _ load next ptr
        ⟨hat.symm.trans hhere, hafter.symm.trans hnext, .inr hvalue, hlookup⟩⟩
      intro load' hload hopc
      cases (hat.symm.trans hhere).symm.trans hload
      exact ⟨next, hafter.symm.trans hnext, hsmall rfl⟩
    | fd load next hhere hnext hfd ptr hlookup =>
      refine ⟨?_, .two _ load next ptr
        ⟨hat.symm.trans hhere, hafter.symm.trans hnext, .inl hfd, hlookup⟩⟩
      intro load' hload hopc
      cases (hat.symm.trans hhere).symm.trans hload
      exact ⟨next, hafter.symm.trans hnext, fun hover => hfd.not_value hover.1.src⟩
  refine ⟨h.rewritten.turn hturn, ?_⟩
  intro i hi hlt
  rcases Nat.lt_trichotomy i s.index with hbehind | rfl | hahead
  · exact h.harmless i hi hbehind
  · exact hhere.1
  · have hle := hhere.2.between h.rewritten.scanned hi hahead
    omega

theorem Passed.start (insns : List ι) : Passed E fds insns ⟨0, insns, []⟩ :=
  ⟨.start insns, fun i _ hi => absurd hi (Nat.not_lt_zero i)⟩

/-- A lookup that fails is the end of the way. -/
theorem harmless_of_refused {load next : ι} {e : BpfError} (h : Passed E fds insns s)
    (hhere : s.fmtInsn[s.index]? = some load) (hnext : s.fmtInsn[s.index + 1]? = some next)
    (hmap : IsMapLoad E load) (hlookup : target E fds s.index load next = .error e) {i : Nat}
    (hi : Scanned E fds insns i) : Harmless E fds insns i := by
  have hat := (h.rewritten.ahead s.index (Nat.le_refl _)).symm.trans hhere
  have hafter := (h.rewritten.ahead (s.index + 1) (Nat.le_succ _)).symm.trans hnext
  have hstop : ∀ j, ¬ Follows E fds insns s.index j := by
    intro j hfollows
    cases hfollows with
    | one insn hinsn hplain =>
      cases hat.symm.trans hinsn
      exact hplain hmap
    | two load' next' ptr hload =>
      cases hat.symm.trans hload.here
      cases hafter.symm.trans hload.after
      cases hlookup.symm.trans hload.lookup
  rcases Relation.ReflTransGen.total_of_right_unique follows_unique h.rewritten.scanned hi with
    hrun | hback
  · rcases Relation.ReflTransGen.cases_head hrun with rfl | ⟨j, hfollows, -⟩
    · intro load' hload hopc
      cases hat.symm.trans hload
      exact ⟨next, hafter, not_overflows_of_error hlookup⟩
    · exact absurd hfollows (hstop j)
  · rcases Nat.lt_or_eq_of_le (le_of_follows_star hback) with hbehind | rfl
    · exact h.harmless i hi hbehind
    · intro load' hload hopc
      cases hat.symm.trans hload
      exact ⟨next, hafter, not_overflows_of_error hlookup⟩

variable (E fds)

theorem scanLoop_returns_iff (insns : List ι) :
    (∃ r, Outcome.result (scanLoop E fds true insns.length ⟨0, insns, []⟩) = .ok r) ↔
      ∀ i, Scanned E fds insns i → Harmless E fds insns i := by
  have hturns : ∀ s s', Passed E fds insns s → Turn E fds true s (.ok (.ok s')) →
      Passed E fds insns s' := fun _ _ h hturn => Passed.turn h hturn
  rcases scanLoop_stops hturns insns.length (Passed.start insns) with ⟨s, hok, hs, hend⟩ | ⟨s, hturn, hs, hmore, hnot⟩ |
      ⟨s, -, hs, hmore, hfar⟩
  · rw [hs.rewritten.length] at hend
    refine ⟨fun _ => ?_, fun _ => ⟨_, hok⟩⟩
    intro i hi load hload
    have hlt : i < insns.length := (List.getElem?_eq_some_iff.mp hload).1
    exact hs.harmless i hi (by omega) load hload
  · have hat := hs.rewritten.ahead s.index (Nat.le_refl _)
    have hafter := hs.rewritten.ahead (s.index + 1) (Nat.le_succ _)
    generalize Outcome.result (scanLoop E fds true insns.length ⟨0, insns, []⟩) = r at hturn hnot
    cases hturn with
    | past hnone =>
      have hle := List.getElem?_eq_none_iff.mp hnone
      omega
    | skip => exact absurd rfl (hnot _)
    | value => exact absurd rfl (hnot _)
    | fd => exact absurd rfl (hnot _)
    | cut insn hhere hopc hlast =>
      constructor
      · rintro ⟨r, ⟨⟩⟩
      · intro hall
        obtain ⟨next, hnext, -⟩ := hall s.index hs.rewritten.scanned insn (hat.symm.trans hhere) hopc
        cases (hafter.symm.trans hlast).symm.trans hnext
    | refused load next hhere hnext hmap e hlookup =>
      constructor
      · exact fun _ i hi => harmless_of_refused hs hhere hnext hmap hlookup hi
      · exact fun _ => ⟨_, rfl⟩
    | overflow load next hhere hnext hchecked hlarge =>
      constructor
      · rintro ⟨r, ⟨⟩⟩
      · intro hall
        obtain ⟨next', hnext', hsmall⟩ := hall s.index hs.rewritten.scanned load
          (hat.symm.trans hhere) hlarge.1.opc
        cases (hafter.symm.trans hnext).symm.trans hnext'
        exact absurd hlarge hsmall
  · have hlength := hs.rewritten.length
    have hfar' : 0 + insns.length ≤ s.index := hfar
    omega

/-- Behind the loop there is nothing left to go wrong: the slots are stored back one by one. -/
theorem preprocess_returns_iff_loop {instructions : Bytes} {insns : List ι}
    (htranslate : E.translateInstruction instructions = .ok insns) :
    (∃ r, Outcome.result (preprocess E fds true instructions) = .ok r) ↔
      ∃ r, Outcome.result (scanLoop E fds true insns.length ⟨0, insns, []⟩) = .ok r := by
  have hlength : ∀ s, Outcome.result (scanLoop E fds true insns.length ⟨0, insns, []⟩) =
      .ok (.ok s) → s.fmtInsn.length = insns.length := by
    intro s hok
    have hturns : ∀ s s', Rewritten E fds insns s → Turn E fds true s (.ok (.ok s')) →
        Rewritten E fds insns s' := fun _ _ h hturn => h.turn hturn
    exact (scanLoop_invariant hturns (.start insns) hok).1.length
  unfold preprocess ofCall
  rw [Outcome.result_bind, Outcome.result_ofResult, htranslate]
  dsimp only
  rw [Outcome.result_bind]
  generalize Outcome.result (scanLoop E fds true insns.length ⟨0, insns, []⟩) = r at hlength
  rcases r with fault | e | s
  · exact Iff.rfl.trans ⟨nofun, nofun⟩
  · exact ⟨fun _ => ⟨_, rfl⟩, fun _ => ⟨_, rfl⟩⟩
  · dsimp only
    rw [Outcome.result_bind, storeBack_all htranslate (hlength s rfl)]
    exact ⟨fun _ => ⟨_, rfl⟩, fun _ => ⟨_, rfl⟩⟩

/-- The preprocessor comes back, in a build with overflow checks, exactly when the loop comes to
no load in the last slot and to no offset that takes the base of its map over the end of the
address space. -/
theorem preprocess_returns_iff (instructions : Bytes) :
    (∃ r, Outcome.result (preprocess E fds true instructions) = .ok r) ↔
      ∀ insns, E.translateInstruction instructions = .ok insns →
        ∀ i, Scanned E fds insns i → Harmless E fds insns i := by
  cases htranslate : E.translateInstruction instructions with
  | error e =>
    unfold preprocess ofCall
    rw [Outcome.result_bind, Outcome.result_ofResult, htranslate]
    exact ⟨fun _ insns h => (nomatch h), fun _ => ⟨_, rfl⟩⟩
  | ok insns =>
    rw [preprocess_returns_iff_loop E fds htranslate, scanLoop_returns_iff]
    constructor
    · intro h insns' heq
      cases heq
      exact h
    · exact fun h => h insns rfl

/-- Eight bytes are enough: a load with nothing behind it. -/
theorem lone_load_panics : Outcome.result (preprocess Slot.inst someFds true
    [0x18, 0, 0, 0, 0, 0, 0, 0]) = .error .indexOutOfBounds := by
  rfl

/-- An offset of -1. -/
theorem negative_offset_overflows : Outcome.result (preprocess Slot.inst someFds true
    [0x18, 0x20, 0, 0, 4, 0, 0, 0, 0, 0, 0, 0, 0xff, 0xff, 0xff, 0xff]) =
      .error .addWithOverflow := by
  rfl

/-- The address in a value load is one of a value of its map. -/
def Inside (out : List ι) (i : Nat) (load : ι) : Prop :=
  ∃ range address, valuePtr E fds i load = .ok range ∧ loadedAddress E out i = some address ∧
    range.start ≤ address ∧ address < range.stop

/-- The offset, with its sign extended, is less than the bytes of the values. -/
def OffsetFits (i : Nat) (load next : ι) : Prop :=
  ∀ m data, fds.getUnifiedMapFromFd i (mapFd E load) = .ok m → m.map.values m.cpu = some data →
    (immAsUsize E next).toNat < data.length

/-- The range of a map goes from its first value to behind its last. -/
theorem valuePtr_ok {i : Nat} {load : ι} {range : Range}
    (h : valuePtr E fds i load = .ok range) :
    ∃ m data, fds.getUnifiedMapFromFd i (mapFd E load) = .ok m ∧ m.map.values m.cpu = some data ∧
      range.stop.toNat = range.start.toNat + data.length := by
  unfold valuePtr at h
  cases hmap : fds.getUnifiedMapFromFd i (mapFd E load) with
  | error e =>
    rw [hmap] at h
    cases h
  | ok m =>
    rw [hmap] at h
    have hrange : m.mapValuesPtrRange = .ok range := h
    unfold PlacedMap.mapValuesPtrRange at hrange
    split at hrange
    · rename_i data hdata
      cases hrange
      have hfits := m.fits data hdata
      refine ⟨m, data, rfl, hdata, ?_⟩
      show (m.address + .ofNat data.length).toNat = m.address.toNat + data.length
      rw [UInt64.toNat_add, UInt64.toNat_ofNat']
      omega
    · cases hrange

/-- An offset into the range is one that is less than its size, as the sum comes round below
the base. -/
theorem range_contains_iff {range : Range} {n : Nat}
    (hstop : range.stop.toNat = range.start.toNat + n) (offset : UInt64) :
    (range.start ≤ range.start + offset ∧ range.start + offset < range.stop) ↔
      offset.toNat < n := by
  have hlt := range.stop.toNat_lt
  have hoffset := offset.toNat_lt
  have hsum : (range.start + offset).toNat = (range.start.toNat + offset.toNat) % 2 ^ 64 :=
    UInt64.toNat_add _ _
  rw [UInt64.le_iff_toNat_le, UInt64.lt_iff_toNat_lt, hsum, hstop]
  rcases Nat.lt_or_ge (range.start.toNat + offset.toNat) (2 ^ 64) with hbelow | hround
  · rw [Nat.mod_eq_of_lt hbelow]
    omega
  · omega

theorem inside_iff {out : List ι} {i : Nat} {load next : ι} {ptr : UInt64}
    (hat : LoadAt E fds insns i load next ptr) (hvalue : IsValueLoad E load)
    (haddress : loadedAddress E out i = some ptr) :
    Inside E fds out i load ↔ OffsetFits E fds i load next := by
  obtain ⟨range, hrange, rfl⟩ := hat.value hvalue
  obtain ⟨m, data, hmap, hdata, hstop⟩ := valuePtr_ok E fds hrange
  have hcontains := range_contains_iff hstop (immAsUsize E next)
  constructor
  · rintro ⟨range', address, hrange', haddress', hinside⟩ m' data' hmap' hdata'
    cases hrange.symm.trans hrange'
    cases haddress.symm.trans haddress'
    cases hmap.symm.trans hmap'
    cases hdata.symm.trans hdata'
    exact hcontains.mp hinside
  · intro hfits
    obtain ⟨hfirst, hlast⟩ := hcontains.mpr (hfits m data hmap hdata)
    exact ⟨range, _, hrange, haddress, hfirst, hlast⟩

/-- Every value load ends up inside its map exactly when every offset is less than the bytes of
its values. -/
theorem value_loads_inside_iff (overflowChecks : Bool) (instructions : Bytes) (insns out : List ι)
    (p : EbpfPreProcessor) (htranslate : E.translateInstruction instructions = .ok insns)
    (hok : Outcome.result (preprocess E fds overflowChecks instructions) = .ok (.ok p))
    (hout : E.translateInstruction p.newInsn = .ok out) :
    (∀ i load, Scanned E fds insns i → insns[i]? = some load → IsValueLoad E load →
      Inside E fds out i load) ↔
    ∀ i load next, Scanned E fds insns i → insns[i]? = some load → insns[i + 1]? = some next →
      IsValueLoad E load → OffsetFits E fds i load next := by
  obtain ⟨s, hs, hend, rfl⟩ := preprocess_ok htranslate (fun _ _ h hturn => Rewritten.turn h hturn)
    (fun _ h => h.length) (.start insns) hok
  cases (E.translate_toArray s.fmtInsn).symm.trans hout
  constructor
  · intro h i load next hi hload hnext hvalue
    obtain ⟨next', ptr, hat, haddress⟩ := hs.load_done hend hi hload (.inr hvalue)
    cases hat.after.symm.trans hnext
    exact (inside_iff E fds hat hvalue haddress).mp (h i load hi hload hvalue)
  · intro h i load hi hload hvalue
    obtain ⟨next, ptr, hat, haddress⟩ := hs.load_done hend hi hload (.inr hvalue)
    exact (inside_iff E fds hat hvalue haddress).mpr (h i load next hi hload hat.after hvalue)

theorem third_value_inside : ∃ p out,
    Outcome.result (preprocess Slot.inst someFds true (twoLoads.flatMap Slot.toArray)) =
      .ok (.ok p) ∧ Slot.inst.translateInstruction p.newInsn = .ok out ∧
    ∀ i load, Scanned Slot.inst someFds twoLoads i → twoLoads[i]? = some load →
      IsValueLoad Slot.inst load → Inside Slot.inst someFds out i load := by
  obtain ⟨p, out, hok, hout⟩ : ∃ p out,
      Outcome.result (preprocess Slot.inst someFds true (twoLoads.flatMap Slot.toArray)) =
        .ok (.ok p) ∧ Slot.inst.translateInstruction p.newInsn = .ok out := ⟨_, _, rfl, rfl⟩
  refine ⟨p, out, hok, hout, ?_⟩
  apply (value_loads_inside_iff Slot.inst someFds true _ twoLoads out p
    (Slot.inst.translate_toArray twoLoads) hok hout).mpr
  intro i load next _ hload hnext hvalue m data hmap hdata
  cases hmap
  cases hdata
  match i, hload with
  | 0, rfl => exact absurd hvalue.src (by decide)
  | 1, rfl => exact absurd hvalue.opc (by decide)
  | 2, rfl =>
    cases hnext
    decide
  | 3, rfl => exact absurd hvalue.opc (by decide)
  | 4, rfl => exact absurd hvalue.opc (by decide)
  | _ + 5, h => cases h

/-- A page behind the first of 64 bytes of values. -/
def farLoad : List Slot := [⟨LD_DW_IMM, 0x22, 0, 0, 4⟩, ⟨0, 0, 0, 0, 0x1000⟩]

theorem farLoad_outside : ∃ p out load,
    Outcome.result (preprocess Slot.inst someFds true (farLoad.flatMap Slot.toArray)) =
      .ok (.ok p) ∧ Slot.inst.translateInstruction p.newInsn = .ok out ∧
    Scanned Slot.inst someFds farLoad 0 ∧ farLoad[0]? = some load ∧ IsValueLoad Slot.inst load ∧
    loadedAddress Slot.inst out 0 = some 0xffff888000003000 ∧
    ¬ Inside Slot.inst someFds out 0 load := by
  refine ⟨_, _, _, rfl, rfl, .refl, rfl, ⟨rfl, rfl⟩, rfl, ?_⟩
  rintro ⟨range, address, hrange, haddress, -, hlast⟩
  cases hrange
  cases haddress
  exact absurd hlast (by decide)

end EbpfPreProcessor

end ExtKtrace.Bpf
