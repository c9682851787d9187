import ExtKtrace.Bpf.LruMapRecency
import ExtKtrace.Bpf.Preprocessor
import ExtKtrace.Lib.Slots
import Mathlib.Data.List.Forall2

/-!
# Map relocation

What one turn of the preprocessor's loop does, the slots it comes to, and what it has made of
the program in the end.
-/

namespace ExtKtrace.Bpf
set_option autoImplicit false

open Preprocess

namespace EbpfPreProcessor
variable {ι : Type} {crate : LruCrate Bytes Bytes} (E : EbpfInst ι) (fds : MapFds crate)
  (overflowChecks : Bool)

structure IsFdLoad (insn : ι) : Prop where
  opc : E.opc insn = LD_DW_IMM
  src : (E.src insn).toUInt32 = BPF_PSEUDO_MAP_FD

structure IsValueLoad (insn : ι) : Prop where
  opc : E.opc insn = LD_DW_IMM
  src : (E.src insn).toUInt32 = BPF_PSEUDO_MAP_VALUE

def IsMapLoad (insn : ι) : Prop := IsFdLoad E insn ∨ IsValueLoad E insn

variable {E} in
theorem IsMapLoad.opc {insn : ι} (h : IsMapLoad E insn) : E.opc insn = LD_DW_IMM := by
  rcases h with hfd | hvalue
  · exact hfd.opc
  · exact hvalue.opc

variable {E} in
theorem IsFdLoad.not_value {insn : ι} (h : IsFdLoad E insn) :
    ¬ (E.src insn).toUInt32 = BPF_PSEUDO_MAP_VALUE := by
  rw [h.src]
  decide

/-- The address that goes into a load. -/
def target (index : Nat) (load next : ι) : Except BpfError UInt64 :=
  if (E.src load).toUInt32 = BPF_PSEUDO_MAP_VALUE then
    (valuePtr E fds index load).map fun range => range.start + immAsUsize E next
  else fds.getUnifiedMapPtrFromFd index (mapFd E load)

theorem target_of_fd {index : Nat} {load next : ι} (h : IsFdLoad E load) :
    target E fds index load next = fds.getUnifiedMapPtrFromFd index (mapFd E load) :=
  if_neg h.not_value

theorem target_of_value {index : Nat} {load next : ι} (h : IsValueLoad E load) :
    target E fds index load next =
      (valuePtr E fds index load).map fun range => range.start + immAsUsize E next :=
  if_pos h.src

/-- The sum of base and offset does not fit a word. -/
def Overflows (index : Nat) (load next : ι) : Prop :=
  IsValueLoad E load ∧ ∃ range, valuePtr E fds index load = .ok range ∧
    2 ^ 64 ≤ range.start.toNat + (immAsUsize E next).toNat

def lowImm (ptr : UInt64) : Int32 := ptr.toUInt32.toInt32

def highImm (ptr : UInt64) : Int32 := (ptr >>> 32).toUInt32.toInt32

def Scan.skip (s : Scan ι) : Scan ι := { s with index := s.index + 1 }

/-- The loop's variables after a load has been rewritten. -/
def Scan.patch (s : Scan ι) (load next : ι) (ptr : UInt64) (rawFilePtr : List UInt64) : Scan ι where
  index := s.index + 2
  fmtInsn := (s.fmtInsn.set s.index (E.setImm (lowImm ptr) load)).set (s.index + 1)
    (E.setImm (highImm ptr) next)
  rawFilePtr := rawFilePtr

/-- What a turn of the loop can do. -/
inductive Turn (s : Scan ι) : Except Fault (Except BpfError (Scan ι)) → Prop
  | past (none : s.fmtInsn[s.index]? = none) : Turn s (.error .indexOutOfBounds)
  | skip (insn : ι) (here : s.fmtInsn[s.index]? = some insn) (plain : ¬ IsMapLoad E insn)
      (whole : E.opc insn = LD_DW_IMM → ∃ next, s.fmtInsn[s.index + 1]? = some next) :
      Turn s (.ok (.ok s.skip))
  | cut (insn : ι) (here : s.fmtInsn[s.index]? = some insn) (opc : E.opc insn = LD_DW_IMM)
      (last : s.fmtInsn[s.index + 1]? = none) : Turn s (.error .indexOutOfBounds)
  | refused (load next : ι) (here : s.fmtInsn[s.index]? = some load)
      (after : s.fmtInsn[s.index + 1]? = some next) (map : IsMapLoad E load) (e : BpfError)
      (lookup : target E fds s.index load next = .error e) : Turn s (.ok (.error e))
  | overflow (load next : ι) (here : s.fmtInsn[s.index]? = some load)
      (after : s.fmtInsn[s.index + 1]? = some next) (checked : overflowChecks = true)
      (large : Overflows E fds s.index load next) : Turn s (.error .addWithOverflow)
  | value (load next : ι) (here : s.fmtInsn[s.index]? = some load)
      (after : s.fmtInsn[s.index + 1]? = some next) (value : IsValueLoad E load) (ptr : UInt64)
      (lookup : target E fds s.index load next = .ok ptr)
      (small : overflowChecks = true → ¬ Overflows E fds s.index load next) :
      Turn s (.ok (.ok (s.patch E load next ptr s.rawFilePtr)))
  | fd (load next : ι) (here : s.fmtInsn[s.index]? = some load)
      (after : s.fmtInsn[s.index + 1]? = some next) (fd : IsFdLoad E load) (ptr : UInt64)
      (lookup : target E fds s.index load next = .ok ptr) :
      Turn s (.ok (.ok (s.patch E load next ptr (s.rawFilePtr ++ [ptr]))))

theorem relocate_turn (s : Scan ι) :
    Turn E fds overflowChecks s (Outcome.result (relocate E fds overflowChecks s)) := by
  unfold relocate
  rw [Outcome.result_bind]
  unfold Preprocess.index
  cases hhere : s.fmtInsn[s.index]? with
  | none => exact .past hhere
  | some insn =>
    dsimp only [Outcome.result_pure]
    split
    swap
    · rename_i hopc
      refine .skip insn hhere ?_ fun h => absurd h hopc
      exact fun hmap => hopc hmap.opc
    rename_i hopc
    rw [Outcome.result_bind]
    cases hafter : s.fmtInsn[s.index + 1]? with
    | none => exact .cut insn hhere hopc hafter
    | some next =>
      dsimp only [Outcome.result_pure]
      split
      · rename_i hvalue
        have hload : IsValueLoad E insn := ⟨hopc, hvalue⟩
        have htarget : target E fds s.index insn next = _ := target_of_value E fds hload
        rw [Outcome.result_bind]
        unfold ofCall
        rw [Outcome.result_ofResult]
        cases hlookup : valuePtr E fds s.index insn with
        | error e =>
          rw [hlookup] at htarget
          exact .refused insn next hhere hafter (.inr hload) e htarget
        | ok range =>
          rw [hlookup] at htarget
          dsimp only
          rw [Outcome.result_bind]
          unfold add
          by_cases hlarge : overflowChecks = true ∧
              2 ^ 64 ≤ range.start.toNat + (immAsUsize E next).toNat
          · rw [if_pos hlarge]
            exact .overflow insn next hhere hafter hlarge.1 ⟨hload, range, hlookup, hlarge.2⟩
          · rw [if_neg hlarge]
            refine .value insn next hhere hafter hload _ htarget ?_
            rintro hchecked ⟨-, range', hrange, hsum⟩
            cases hlookup.symm.trans hrange
            exact hlarge ⟨hchecked, hsum⟩
      · split
        · rename_i hvalue hfd
          have hload : IsFdLoad E insn := ⟨hopc, hfd⟩
          have htarget : target E fds s.index insn next = _ := target_of_fd E fds hload
          rw [Outcome.result_bind]
          unfold ofCall
          rw [Outcome.result_ofResult]
          cases hlookup : fds.getUnifiedMapPtrFromFd s.index (mapFd E insn) with
          | error e =>
            rw [hlookup] at htarget
            exact .refused insn next hhere hafter (.inl hload) e htarget
          | ok mapPtr =>
            rw [hlookup] at htarget
            exact .fd insn next hhere hafter hload mapPtr htarget
        · rename_i hvalue hfd
          refine .skip insn hhere ?_ fun _ => ⟨next, hafter⟩
          rintro (hmap | hmap)
          · exact hfd hmap.src
          · exact hvalue hmap.src

section
variable (insns : List ι)

/-- A load with its second slot, and the address that goes in. -/
structure LoadAt (i : Nat) (load next : ι) (ptr : UInt64) : Prop where
  here : insns[i]? = some load
  after : insns[i + 1]? = some next
  map : IsMapLoad E load
  lookup : target E fds i load next = .ok ptr

/-- From a slot to the one looked at next: behind a load that has been rewritten, it is the
second next. -/
inductive Follows : Nat → Nat → Prop
  | one (i : Nat) (insn : ι) (here : insns[i]? = some insn) (plain : ¬ IsMapLoad E insn) :
      Follows i (i + 1)
  | two (i : Nat) (load next : ι) (ptr : UInt64) (load : LoadAt E fds insns i load next ptr) :
      Follows i (i + 2)

def Scanned (i : Nat) : Prop := Relation.ReflTransGen (Follows E fds insns) 0 i

variable {E fds insns}

theorem Follows.lt {i j : Nat} (h : Follows E fds insns i j) : i < j := by
  cases h with
  | one => exact Nat.lt_succ_self i
  | two => exact Nat.lt_add_of_pos_right (Nat.succ_pos 1)

theorem LoadAt.unique {i : Nat} {load load' next next' : ι} {ptr ptr' : UInt64}
    (h : LoadAt E fds insns i load next ptr) (h' : LoadAt E fds insns i load' next' ptr') :
    load' = load ∧ next' = next ∧ ptr' = ptr := by
  cases h.here.symm.trans h'.here
  cases h.after.symm.trans h'.after
  cases h.lookup.symm.trans h'.lookup
  exact ⟨rfl, rfl, rfl⟩

theorem follows_unique : Relator.RightUnique (Follows E fds insns) := by
  intro i j k hj hk
  cases hj with
  | one insn hhere hplain =>
    cases hk with
    | one => rfl
    | two load next ptr hload =>
      cases hhere.symm.trans hload.here
      exact absurd hload.map hplain
  | two load next ptr hload =>
    cases hk with
    | one insn hhere hplain =>
      cases hhere.symm.trans hload.here
      exact absurd hload.map hplain
    | two => rfl

theorem le_of_follows_star {i j : Nat} (h : Relation.ReflTransGen (Follows E fds insns) i j) :
    i ≤ j := by
  induction h with
  | refl => exact Nat.le_refl i
  | tail _ hlast ih => exact Nat.le_trans ih (Nat.le_of_lt hlast.lt)

/-- A load that the loop comes to takes both of its slots: the loop comes to nothing in
between. -/
theorem LoadAt.skips {i j : Nat} {load next : ι} {ptr : UInt64}
    (h : LoadAt E fds insns i load next ptr) (hi : Scanned E fds insns i)
    (hj : Scanned E fds insns j) (hij : i < j) : i + 2 ≤ j := by
  rcases Relation.ReflTransGen.total_of_right_unique follows_unique hi hj with hrun | hback
  · rcases Relation.ReflTransGen.cases_head hrun with rfl | ⟨k, hik, hkj⟩
    · exact absurd hij (Nat.lt_irrefl i)
    · have hk : i + 2 = k := follows_unique (.two i load next ptr h) hik
      rw [hk]
      exact le_of_follows_star hkj
  · have hle := le_of_follows_star hback
    omega

end

/-- The loads behind the index are rewritten, and nothing else is. -/
structure Rewritten (insns : List ι) (s : Scan ι) : Prop where
  scanned : Scanned E fds insns s.index
  length : s.fmtInsn.length = insns.length
  ahead : ∀ j, s.index ≤ j → s.fmtInsn[j]? = insns[j]?
  loads : ∀ i load next ptr, LoadAt E fds insns i load next ptr → Scanned E fds insns i →
    i < s.index → s.fmtInsn[i]? = some (E.setImm (lowImm ptr) load) ∧
      s.fmtInsn[i + 1]? = some (E.setImm (highImm ptr) next)
  kept : ∀ j, (∀ i load next ptr, LoadAt E fds insns i load next ptr → Scanned E fds insns i →
    j ≠ i ∧ j ≠ i + 1) → s.fmtInsn[j]? = insns[j]?

section
variable {E fds overflowChecks} {insns : List ι} {s s' : Scan ι}

theorem Rewritten.start (insns : List ι) : Rewritten E fds insns ⟨0, insns, []⟩ where
  scanned := .refl
  length := rfl
  ahead := fun _ _ => rfl
  loads := fun i _ _ _ _ _ hi => absurd hi (Nat.not_lt_zero i)
  kept := fun _ _ => rfl

theorem Rewritten.skip (h : Rewritten E fds insns s) {insn : ι}
    (hhere : s.fmtInsn[s.index]? = some insn) (hplain : ¬ IsMapLoad E insn) :
    Rewritten E fds insns s.skip := by
  have hat : insns[s.index]? = some insn := (h.ahead _ (Nat.le_refl _)).symm.trans hhere
  refine ⟨h.scanned.tail (.one _ insn hat hplain), h.length, ?_, ?_, h.kept⟩
  · exact fun j hj => h.ahead j (Nat.le_of_succ_le hj)
  · intro i load next ptr hload hi hlt
    rcases Nat.lt_succ_iff_lt_or_eq.mp hlt with hbehind | rfl
    · exact h.loads i load next ptr hload hi hbehind
    · cases hat.symm.trans hload.here
      exact absurd hload.map hplain

theorem Rewritten.patch (h : Rewritten E fds insns s) {load next : ι} {ptr : UInt64}
    (hload : LoadAt E fds insns s.index load next ptr) (rawFilePtr : List UInt64) :
    Rewritten E fds insns (s.patch E load next ptr rawFilePtr) := by
  have hscanned : Scanned E fds insns (s.index + 2) :=
    h.scanned.tail (.two _ load next ptr hload)
  have hlength : s.index + 1 < s.fmtInsn.length := by
    rw [h.length]
    exact (List.getElem?_eq_some_iff.mp hload.after).1
  have hother : ∀ j, j ≠ s.index → j ≠ s.index + 1 →
      (s.patch E load next ptr rawFilePtr).fmtInsn[j]? = s.fmtInsn[j]? := by
    intro j hfirst hsecond
    unfold Scan.patch
    rw [List.getElem?_set_ne hsecond.symm, List.getElem?_set_ne hfirst.symm]
  refine ⟨hscanned, ?_, ?_, ?_, ?_⟩
  · unfold Scan.patch
    rw [List.length_set, List.length_set, h.length]
  · intro j hj
    have hj' : s.index + 2 ≤ j := hj
    rw [hother j (by omega) (by omega), h.ahead j (by omega)]
  · intro i load' next' ptr' hload' hi hlt
    have hlt' : i < s.index + 2 := hlt
    rcases Nat.lt_trichotomy i s.index with hbehind | rfl | hahead
    · have hskips := hload'.skips hi h.scanned hbehind
      rw [hother i (by omega) (by omega), hother (i + 1) (by omega) (by omega)]
      exact h.loads i load' next' ptr' hload' hi hbehind
    · obtain ⟨rfl, rfl, rfl⟩ := hload.unique hload'
      unfold Scan.patch
      constructor
      · rw [List.getElem?_set_ne (by omega), List.getElem?_set_self (by omega)]
      · rw [List.getElem?_set_self (by rw [List.length_set]; omega)]
    · -- the second slot of this load is no load of its own
      have hskips := hload.skips h.scanned hi hahead
      omega
  · intro j hj
    obtain ⟨hfirst, hsecond⟩ := hj s.index load next ptr hload h.scanned
    rw [hother j hfirst hsecond]
    exact h.kept j hj

theorem Rewritten.turn (h : Rewritten E fds insns s)
    (hturn : Turn E fds overflowChecks s (.ok (.ok s'))) : Rewritten E fds insns s' := by
  have hat := h.ahead s.index (Nat.le_refl _)
  have hafter := h.ahead (s.index + 1) (Nat.le_succ _)
  cases hturn with
  | skip insn hhere hplain hwhole => exact h.skip hhere hplain
  | value load next hhere hnext hvalue ptr hlookup hsmall =>
    exact h.patch ⟨hat.symm.trans hhere, hafter.symm.trans hnext, .inr hvalue, hlookup⟩ _
  | fd load next hhere hnext hfd ptr hlookup =>
    exact h.patch ⟨hat.symm.trans hhere, hafter.symm.trans hnext, .inl hfd, hlookup⟩ _

theorem Turn.lt (h : Turn E fds overflowChecks s (.ok (.ok s'))) : s.index < s'.index := by
  cases h with
  | skip => exact Nat.lt_succ_self _
  | value => exact Nat.lt_add_of_pos_right (Nat.succ_pos 1)
  | fd => exact Nat.lt_add_of_pos_right (Nat.succ_pos 1)

/-- How the loop comes to its end: behind the last slot, in a turn that is the last, or with the
fuel used up. What a turn preserves holds until then. -/
theorem scanLoop_stops {Inv : Scan ι → Prop}
    (hturn : ∀ s s', Inv s → Turn E fds overflowChecks s (.ok (.ok s')) → Inv s') (fuel : Nat)
    (hs : Inv s) :
    (∃ s', Outcome.result (scanLoop E fds overflowChecks fuel s) = .ok (.ok s') ∧ Inv s' ∧
        s'.fmtInsn.length ≤ s'.index) ∨
      (∃ s', Turn E fds overflowChecks s'
          (Outcome.result (scanLoop E fds overflowChecks fuel s)) ∧ Inv s' ∧
        s'.index < s'.fmtInsn.length ∧
        ∀ t, Outcome.result (scanLoop E fds overflowChecks fuel s) ≠ .ok (.ok t)) ∨
      (∃ s', Outcome.result (scanLoop E fds overflowChecks fuel s) = .error .unfinished ∧ Inv s' ∧
        s'.index < s'.fmtInsn.length ∧ s.index + fuel ≤ s'.index) := by
  induction fuel generalizing s with
  | zero =>
    unfold scanLoop
    split
    · rename_i hend
      exact .inl ⟨s, rfl, hs, hend⟩
    · rename_i hmore
      exact .inr (.inr ⟨s, rfl, hs, by omega, Nat.le_refl _⟩)
  | succ fuel ih =>
    unfold scanLoop
    split
    · rename_i hend
      exact .inl ⟨s, rfl, hs, hend⟩
    · rename_i hmore
      have hdone := relocate_turn E fds overflowChecks s
      rw [Outcome.result_bind]
      generalize Outcome.result (relocate E fds overflowChecks s) = r at hdone
      rcases r with fault | e | s₁
      · exact .inr (.inl ⟨s, hdone, hs, by omega, nofun⟩)
      · exact .inr (.inl ⟨s, hdone, hs, by omega, nofun⟩)
      · have hlt := hdone.lt
        rcases ih (hturn s s₁ hs hdone) with hend | hlast | ⟨s', hunfinished, hinv, hmore', hfar⟩
        · exact .inl hend
        · exact .inr (.inl hlast)
        · exact .inr (.inr ⟨s', hunfinished, hinv, hmore', by omega⟩)

theorem scanLoop_invariant {Inv : Scan ι → Prop}
    (hturn : ∀ s s', Inv s → Turn E fds overflowChecks s (.ok (.ok s')) → Inv s') {fuel : Nat}
    (hs : Inv s)
    (h : Outcome.result (scanLoop E fds overflowChecks fuel s) = .ok (.ok s')) :
    Inv s' ∧ s'.fmtInsn.length ≤ s'.index := by
  rcases scanLoop_stops hturn fuel hs with
    ⟨s₁, hok, hinv, hend⟩ | ⟨s₁, -, -, -, hnot⟩ | ⟨s₁, hunfinished, -⟩
  · cases hok.symm.trans h
    exact ⟨hinv, hend⟩
  · exact absurd h (hnot s')
  · cases hunfinished.symm.trans h

end

theorem storeBack_eq (insns : List ι) (idx : Nat) (instructions : Bytes)
    (hfits : idx + insns.length * 8 ≤ instructions.length) :
    Outcome.result (storeBack E insns idx instructions) =
      .ok (.ok (instructions.take idx ++ insns.flatMap E.toArray ++
        instructions.drop (idx + insns.length * 8))) := by
  induction insns generalizing idx instructions with
  | nil =>
    rw [List.length_nil, Nat.zero_mul, Nat.add_zero, List.flatMap_nil, List.append_nil,
      List.take_append_drop]
    rfl
  | cons ins rest ih =>
    rw [List.length_cons] at hfits ⊢
    have hstored : (instructions.take idx ++ E.toArray ins ++ instructions.drop (idx + 8)).length =
        instructions.length := by
      rw [List.length_append, List.length_append, List.length_take, List.length_drop,
        E.length_toArray]
      omega
    have hfront : (instructions.take idx ++ E.toArray ins).length = idx + 8 := by
      rw [List.length_append, List.length_take, E.length_toArray]
      omega
    have hback : (instructions.take idx ++ E.toArray ins ++ instructions.drop (idx + 8)).drop
        (idx + 8 + rest.length * 8) = instructions.drop (idx + (rest.length + 1) * 8) := by
      rw [← hfront, List.drop_length_add_append, List.drop_drop, hfront]
      congr 1
      omega
    unfold storeBack
    rw [if_pos (by omega), ih _ _ (by rw [hstored]; omega), List.take_left' hfront, hback,
      List.flatMap_cons, List.append_assoc (instructions.take idx)]

variable {E fds overflowChecks}

theorem flatMap_of_translate {instructions : Bytes} {insns : List ι}
    (h : E.translateInstruction instructions = .ok insns) :
    insns.flatMap E.toArray = instructions := by
  by_cases hwhole : instructions.length % 8 = 0
  · obtain ⟨insns', htranslate, hflat⟩ := E.translate_whole instructions hwhole
    cases h.symm.trans htranslate
    exact hflat
  · obtain ⟨e, herror⟩ := E.translate_odd instructions hwhole
    cases h.symm.trans herror

/-- The slots go back where they came from. -/
theorem storeBack_all {instructions : Bytes} {insns out : List ι}
    (h : E.translateInstruction instructions = .ok insns) (hlength : out.length = insns.length) :
    Outcome.result (storeBack E out 0 instructions) = .ok (.ok (out.flatMap E.toArray)) := by
  have hbytes : instructions.length = insns.length * 8 := by
    rw [← flatMap_of_translate h]
    exact Slots.length_flatMap E.length_toArray insns
  rw [storeBack_eq E out 0 instructions (by omega), List.take_zero, List.nil_append,
    List.drop_of_length_le (by omega), List.append_nil]

/-- A program that comes out is what the loop leaves. -/
theorem preprocess_ok {instructions : Bytes} {insns : List ι} {p : EbpfPreProcessor}
    (htranslate : E.translateInstruction instructions = .ok insns) {Inv : Scan ι → Prop}
    (hturn : ∀ s s', Inv s → Turn E fds overflowChecks s (.ok (.ok s')) → Inv s')
    (hlength : ∀ s, Inv s → s.fmtInsn.length = insns.length) (hstart : Inv ⟨0, insns, []⟩)
    (h : Outcome.result (preprocess E fds overflowChecks instructions) = .ok (.ok p)) :
    ∃ s, Inv s ∧ insns.length ≤ s.index ∧ p = ⟨s.fmtInsn.flatMap E.toArray, s.rawFilePtr⟩ := by
  unfold preprocess ofCall at h
  rw [Outcome.result_bind, Outcome.result_ofResult, htranslate] at h
  dsimp only at h
  rw [Outcome.result_bind] at h
  generalize hscan : Outcome.result (scanLoop E fds overflowChecks insns.length ⟨0, insns, []⟩) = r
    at h
  rcases r with fault | e | s
  · cases h
  · cases h
  · obtain ⟨hs, hend⟩ := scanLoop_invariant hturn hstart hscan
    have hsame := hlength s hs
    dsimp only at h
    rw [Outcome.result_bind, storeBack_all htranslate hsame] at h
    cases h
    exact ⟨s, hs, by omega, rfl⟩

/-- The address in the two immediates of a load. -/
def loadedAddress (E : EbpfInst ι) (out : List ι) (i : Nat) : Option UInt64 := do
  let load ← out[i]?
  let next ← out[i + 1]?
  return (E.imm next).toUInt32.toUInt64 <<< 32 ||| (E.imm load).toUInt32.toUInt64

/-- Every `LD_DW_IMM` has a second slot with another opcode. -/
def Paired (E : EbpfInst ι) (insns : List ι) : Prop :=
  ∀ i load, insns[i]? = some load → E.opc load = LD_DW_IMM →
    ∃ next, insns[i + 1]? = some next ∧ E.opc next ≠ LD_DW_IMM

/-- The byte belongs to an immediate of a map load. -/
def Touched (E : EbpfInst ι) (insns : List ι) (b : Nat) : Prop :=
  4 ≤ b % 8 ∧ ∃ i load, insns[i]? = some load ∧ IsMapLoad E load ∧ (b / 8 = i ∨ b / 8 = i + 1)

instance (E : EbpfInst ι) (insn : ι) : Decidable (IsFdLoad E insn) :=
  decidable_of_iff (E.opc insn = LD_DW_IMM ∧ (E.src insn).toUInt32 = BPF_PSEUDO_MAP_FD)
    ⟨fun h => ⟨h.1, h.2⟩, fun h => ⟨h.opc, h.src⟩⟩

def isFdLoadAt (E : EbpfInst ι) (insns : List ι) (i : Nat) : Bool :=
  insns[i]?.any fun insn => decide (IsFdLoad E insn)

/-- The loads of map pointers below an index, in program order. -/
def fdLoads (E : EbpfInst ι) (insns : List ι) (n : Nat) : List Nat :=
  (List.range n).filter (isFdLoadAt E insns)

/-- What has become of a program. -/
structure Relocated (E : EbpfInst ι) (fds : MapFds crate) (insns : List ι) (instructions : Bytes)
    (p : EbpfPreProcessor) (out : List ι) : Prop where
  translated : E.translateInstruction p.newInsn = .ok out
  fd : ∀ i load, insns[i]? = some load → IsFdLoad E load →
    ∃ ptr, fds.getUnifiedMapPtrFromFd i (mapFd E load) = .ok ptr ∧
      loadedAddress E out i = some ptr
  value : ∀ i load, insns[i]? = some load → IsValueLoad E load →
    ∃ next range, insns[i + 1]? = some next ∧ valuePtr E fds i load = .ok range ∧
      loadedAddress E out i = some (range.start + immAsUsize E next)
  length : p.newInsn.length = instructions.length
  bytes : ∀ b, ¬ Touched E insns b → p.newInsn[b]? = instructions[b]?
  listed : List.Forall₂ (fun i ptr => ∃ load, insns[i]? = some load ∧
    fds.getUnifiedMapPtrFromFd i (mapFd E load) = .ok ptr) (fdLoads E insns insns.length)
      p.rawFilePtr

/-- The two halves of an address, one in each immediate. -/
theorem join_imm (ptr : UInt64) :
    (highImm ptr).toUInt32.toUInt64 <<< 32 ||| (lowImm ptr).toUInt32.toUInt64 = ptr := by
  have hlt := ptr.toNat_lt
  have hlow : ptr.toNat % 2 ^ 32 < 2 ^ 32 := Nat.mod_lt _ (Nat.two_pow_pos 32)
  have hhigh : (ptr >>> 32).toUInt32.toUInt64.toNat = ptr.toNat / 2 ^ 32 := by
    simp only [UInt32.toNat_toUInt64, UInt64.toNat_toUInt32, UInt64.toNat_shiftRight,
      UInt64.reduceToNat, Nat.reduceMod, Nat.shiftRight_eq_div_pow]
    omega
  have hsum := Nat.shiftLeft_add_eq_or_of_lt hlow (ptr.toNat / 2 ^ 32)
  have hshift : (ptr.toNat / 2 ^ 32) <<< 32 % 2 ^ 64 = (ptr.toNat / 2 ^ 32) <<< 32 := by
    rw [Nat.shiftLeft_eq]
    omega
  have h32 : (32 : UInt64).toNat % 64 = 32 := rfl
  unfold highImm lowImm
  apply UInt64.toNat_inj.mp
  rw [UInt32.toUInt32_toInt32, UInt32.toUInt32_toInt32, UInt64.toNat_or, UInt64.toNat_shiftLeft,
    hhigh, h32, UInt32.toNat_toUInt64, UInt64.toNat_toUInt32, hshift, ← hsum, Nat.shiftLeft_eq]
  omega

section
variable {insns : List ι} {s : Scan ι}

theorem Rewritten.loadedAddress (h : Rewritten E fds insns s) {i : Nat} {load next : ι}
    {ptr : UInt64} (hload : LoadAt E fds insns i load next ptr) (hi : Scanned E fds insns i)
    (hlt : i < s.index) : loadedAddress E s.fmtInsn i = some ptr := by
  obtain ⟨hfirst, hsecond⟩ := h.loads i load next ptr hload hi hlt
  unfold EbpfPreProcessor.loadedAddress
  rw [hfirst, hsecond]
  show some _ = some ptr
  rw [E.imm_setImm, E.imm_setImm, join_imm]

/-- With every load followed by a slot of another kind, the loop comes to all of them. -/
theorem scanned_of_paired (hpaired : Paired E insns) {n : Nat} (hn : Scanned E fds insns n) {i : Nat}
    {load : ι} (hload : insns[i]? = some load) (hopc : E.opc load = LD_DW_IMM) (hlt : i < n) :
    Scanned E fds insns i := by
  induction hn with
  | refl => exact absurd hlt (Nat.not_lt_zero i)
  | tail hk hfollows ih =>
    cases hfollows with
    | one insn hhere hplain =>
      rcases Nat.lt_succ_iff_lt_or_eq.mp hlt with hbefore | rfl
      · exact ih hbefore
      · exact hk
    | two first next ptr hfirst =>
      rename_i k
      have hcases : i < k ∨ i = k ∨ i = k + 1 := by omega
      rcases hcases with hbefore | rfl | rfl
      · exact ih hbefore
      · exact hk
      · obtain ⟨next', hnext', hother⟩ := hpaired k first hfirst.here hfirst.map.opc
        cases hnext'.symm.trans hload
        exact absurd hopc hother

/-- The loop does not pass a load whose lookup fails. -/
theorem loadAt_of_passed {i n : Nat} (hi : Scanned E fds insns i) (hn : Scanned E fds insns n)
    (hlt : i < n) {load : ι} (hhere : insns[i]? = some load) (hmap : IsMapLoad E load) :
    ∃ next ptr, LoadAt E fds insns i load next ptr := by
  rcases Relation.ReflTransGen.total_of_right_unique follows_unique hi hn with hrun | hback
  · rcases Relation.ReflTransGen.cases_head hrun with rfl | ⟨k, hfollows, -⟩
    · exact absurd hlt (Nat.lt_irrefl i)
    · cases hfollows with
      | one insn hplainHere hplain =>
        cases hhere.symm.trans hplainHere
        exact absurd hmap hplain
      | two load' next ptr hload =>
        cases hhere.symm.trans hload.here
        exact ⟨next, ptr, hload⟩
  · have hle := le_of_follows_star hback
    omega

/-- When the loop has come to its end, every map load that it came to has its address. -/
theorem Rewritten.load_done (h : Rewritten E fds insns s) (hend : insns.length ≤ s.index) {i : Nat}
    (hi : Scanned E fds insns i) {load : ι} (hload : insns[i]? = some load)
    (hmap : IsMapLoad E load) :
    ∃ next ptr, LoadAt E fds insns i load next ptr ∧
      EbpfPreProcessor.loadedAddress E s.fmtInsn i = some ptr := by
  have hlt : i < s.index := Nat.lt_of_lt_of_le (List.getElem?_eq_some_iff.mp hload).1 hend
  obtain ⟨next, ptr, hat⟩ := loadAt_of_passed hi h.scanned hlt hload hmap
  exact ⟨next, ptr, hat, h.loadedAddress hat hi hlt⟩

theorem LoadAt.fd {i : Nat} {load next : ι} {ptr : UInt64} (h : LoadAt E fds insns i load next ptr)
    (hfd : IsFdLoad E load) : fds.getUnifiedMapPtrFromFd i (mapFd E load) = .ok ptr :=
  (target_of_fd E fds hfd).symm.trans h.lookup

theorem LoadAt.value {i : Nat} {load next : ι} {ptr : UInt64}
    (h : LoadAt E fds insns i load next ptr) (hvalue : IsValueLoad E load) :
    ∃ range, valuePtr E fds i load = .ok range ∧ ptr = range.start + immAsUsize E next := by
  have hlookup := (target_of_value E fds hvalue).symm.trans h.lookup
  cases hrange : valuePtr E fds i load with
  | error e =>
    rw [hrange] at hlookup
    cases hlookup
  | ok range =>
    rw [hrange] at hlookup
    cases hlookup
    exact ⟨range, rfl, rfl⟩

theorem getElem?_toArray_setImm (v : Int32) (insn : ι) {k : Nat} (hk : k < 4) :
    (E.toArray (E.setImm v insn))[k]? = (E.toArray insn)[k]? := by
  have htake := congrArg (fun l => l[k]?) (E.take_setImm v insn)
  rw [List.getElem?_take_of_lt hk, List.getElem?_take_of_lt hk] at htake
  exact htake

/-- Bytes outside the immediates of map loads stay. -/
theorem Rewritten.bytes (h : Rewritten E fds insns s) {b : Nat} (hb : ¬ Touched E insns b) :
    (s.fmtInsn.flatMap E.toArray)[b]? = (insns.flatMap E.toArray)[b]? := by
  rw [Slots.getElem?_flatMap (by omega) E.length_toArray,
    Slots.getElem?_flatMap (by omega) E.length_toArray]
  by_cases hload : ∃ i load next ptr, LoadAt E fds insns i load next ptr ∧
      Scanned E fds insns i ∧ (b / 8 = i ∨ b / 8 = i + 1)
  · obtain ⟨i, load, next, ptr, hload, hi, hat⟩ := hload
    have hfront : b % 8 < 4 := by
      by_contra hback
      exact hb ⟨by omega, i, load, hload.here, hload.map, hat⟩
    rcases Nat.lt_or_ge i s.index with hbehind | hahead
    · obtain ⟨hfirst, hsecond⟩ := h.loads i load next ptr hload hi hbehind
      rcases hat with hat | hat
      · rw [hat, hfirst, hload.here]
        exact getElem?_toArray_setImm _ load hfront
      · rw [hat, hsecond, hload.after]
        exact getElem?_toArray_setImm _ next hfront
    · rw [h.ahead (b / 8) (by omega)]
  · have hsame : s.fmtInsn[b / 8]? = insns[b / 8]? := by
      apply h.kept
      intro i load next ptr hat hi
      constructor
      · exact fun heq => hload ⟨i, load, next, ptr, hat, hi, .inl heq⟩
      · exact fun heq => hload ⟨i, load, next, ptr, hat, hi, .inr heq⟩
    rw [hsame]

theorem fdLoads_succ_of_not {n : Nat} (h : ∀ insn, insns[n]? = some insn → ¬ IsFdLoad E insn) :
    fdLoads E insns (n + 1) = fdLoads E insns n := by
  have hnot : ¬ isFdLoadAt E insns n = true := by
    unfold isFdLoadAt
    cases hat : insns[n]? with
    | none => exact Bool.false_ne_true
    | some insn =>
      intro hany
      exact h insn hat (of_decide_eq_true hany)
  unfold fdLoads
  rw [List.range_succ, List.filter_append, List.filter_cons_of_neg hnot, List.filter_nil,
    List.append_nil]

theorem fdLoads_succ {n : Nat} {load : ι} (hat : insns[n]? = some load) (h : IsFdLoad E load) :
    fdLoads E insns (n + 1) = fdLoads E insns n ++ [n] := by
  have hany : isFdLoadAt E insns n = true := by
    unfold isFdLoadAt
    rw [hat]
    exact decide_eq_true h
  unfold fdLoads
  rw [List.range_succ, List.filter_append, List.filter_cons_of_pos hany, List.filter_nil]

theorem fdLoads_of_le {n : Nat} (hn : insns.length ≤ n) :
    fdLoads E insns n = fdLoads E insns insns.length := by
  induction n, hn using Nat.le_induction with
  | base => rfl
  | succ n hn ih =>
    rw [fdLoads_succ_of_not, ih]
    intro insn hat
    cases (List.getElem?_eq_none hn).symm.trans hat

/-- The pointers so far are those of the loads behind the index. -/
def Listed (E : EbpfInst ι) (fds : MapFds crate) (insns : List ι) (s : Scan ι) : Prop :=
  List.Forall₂ (fun i ptr => ∃ load, insns[i]? = some load ∧
    fds.getUnifiedMapPtrFromFd i (mapFd E load) = .ok ptr) (fdLoads E insns s.index) s.rawFilePtr

theorem Listed.turn {s' : Scan ι} (hpaired : Paired E insns) (hs : Rewritten E fds insns s)
    (h : Listed E fds insns s) (hturn : Turn E fds overflowChecks s (.ok (.ok s'))) :
    Listed E fds insns s' := by
  have hat := hs.ahead s.index (Nat.le_refl _)
  -- the second slot of a pair is no load
  have hsecond : ∀ load, insns[s.index]? = some load → E.opc load = LD_DW_IMM →
      fdLoads E insns (s.index + 2) = fdLoads E insns (s.index + 1) := by
    intro load hload hopc
    obtain ⟨next, hnext, hother⟩ := hpaired s.index load hload hopc
    apply fdLoads_succ_of_not
    intro insn hinsn hfd
    cases hnext.symm.trans hinsn
    exact hother hfd.opc
  unfold Listed at *
  cases hturn with
  | skip insn hhere hplain hwhole =>
    have hsame : fdLoads E insns (s.index + 1) = fdLoads E insns s.index := by
      apply fdLoads_succ_of_not
      intro insn' hinsn hfd
      cases (hat.symm.trans hhere).symm.trans hinsn
      exact hplain (.inl hfd)
    unfold Scan.skip
    rw [hsame]
    exact h
  | value load next hhere hnext hvalue ptr hlookup hsmall =>
    have hload := hat.symm.trans hhere
    have hsame : fdLoads E insns (s.index + 1) = fdLoads E insns s.index := by
      apply fdLoads_succ_of_not
      intro insn' hinsn hfd
      cases hload.symm.trans hinsn
      exact hfd.not_value hvalue.src
    unfold Scan.patch
    rw [hsecond load hload hvalue.opc, hsame]
    exact h
  | fd load next hhere hnext hfd ptr hlookup =>
    have hload := hat.symm.trans hhere
    rw [target_of_fd E fds hfd] at hlookup
    unfold Scan.patch
    rw [hsecond load hload hfd.opc, fdLoads_succ hload hfd]
    exact List.rel_append h (.cons ⟨load, hload, hlookup⟩ .nil)

end

/-- Map loads get the addresses that the lookups give, in two halves; no other byte changes, and
the map pointers are listed in program order. -/
theorem map_loads_relocated (E : EbpfInst ι) (fds : MapFds crate) (overflowChecks : Bool)
    (instructions : Bytes) (insns : List ι) (p : EbpfPreProcessor)
    (htranslate : E.translateInstruction instructions = .ok insns) (hpaired : Paired E insns)
    (hok : Outcome.result (preprocess E fds overflowChecks instructions) = .ok (.ok p)) :
    ∃ out, Relocated E fds insns instructions p out := by
  obtain ⟨s, ⟨hs, hlisted⟩, hend, rfl⟩ : ∃ s : Scan ι,
      (Rewritten E fds insns s ∧ Listed E fds insns s) ∧ insns.length ≤ s.index ∧
        p = ⟨s.fmtInsn.flatMap E.toArray, s.rawFilePtr⟩ := by
    apply preprocess_ok htranslate _ (fun s hinv => hinv.1.length) ⟨.start insns, .nil⟩ hok
    exact fun s s' hinv hturn => ⟨hinv.1.turn hturn, hinv.2.turn hpaired hinv.1 hturn⟩
  have hall : ∀ i load, insns[i]? = some load → IsMapLoad E load →
      ∃ next ptr, LoadAt E fds insns i load next ptr ∧
        loadedAddress E s.fmtInsn i = some ptr := by
    intro i load hload hmap
    have hlt : i < s.index := Nat.lt_of_lt_of_le (List.getElem?_eq_some_iff.mp hload).1 hend
    exact hs.load_done hend (scanned_of_paired hpaired hs.scanned hload hmap.opc hlt) hload hmap
  refine ⟨s.fmtInsn, E.translate_toArray _, ?_, ?_, ?_, ?_, ?_⟩
  · intro i load hload hfd
    obtain ⟨next, ptr, hat, haddress⟩ := hall i load hload (.inl hfd)
    exact ⟨ptr, hat.fd hfd, haddress⟩
  · intro i load hload hvalue
    obtain ⟨next, ptr, hat, haddress⟩ := hall i load hload (.inr hvalue)
    obtain ⟨range, hrange, rfl⟩ := hat.value hvalue
    exact ⟨next, range, hat.after, hrange, haddress⟩
  · rw [← flatMap_of_translate htranslate, Slots.length_flatMap E.length_toArray,
      Slots.length_flatMap E.length_toArray, hs.length]
  · intro b hb
    rw [← flatMap_of_translate htranslate]
    exact hs.bytes hb
  · unfold Listed at hlisted
    rwa [fdLoads_of_le hend] at hlisted

/-- An array map of eight values of eight bytes, and a map pointer, whatever the descriptor. -/
def someFds : MapFds (LruMapRecency.listCrate Bytes Bytes) where
  getUnifiedMapFromFd _ _ := .ok {
    map := .array ⟨.new 8 8, 8, 8⟩
    cpu := 0
    address := 0xffff888000002000
    fits := by
      intro data hdata
      cases hdata
      decide }
  getUnifiedMapPtrFromFd _ _ := .ok 0xffff888000001000

/-- A map pointer and the third value of a map are loaded; the last slot is `exit`. -/
def twoLoads : List Slot :=
  [⟨LD_DW_IMM, 0x11, 0, 0, 3⟩, ⟨0, 0, 0, 0, 0⟩, ⟨LD_DW_IMM, 0x22, 0, 0, 4⟩, ⟨0, 0, 0, 0, 16⟩,
    ⟨0x95, 0, 0, 0, 0⟩]

theorem twoLoads_paired : Paired Slot.inst twoLoads := by
  intro i load hload hopc
  match i, hload with
  | 0, _ => exact ⟨_, rfl, by decide⟩
  | 1, rfl => exact absurd hopc (by decide)
  | 2, _ => exact ⟨_, rfl, by decide⟩
  | 3, rfl => exact absurd hopc (by decide)
  | 4, rfl => exact absurd hopc (by decide)
  | _ + 5, h => cases h

theorem twoLoads_relocated : ∃ p out,
    Outcome.result (preprocess Slot.inst someFds false (twoLoads.flatMap Slot.toArray)) =
      .ok (.ok p) ∧ p.rawFilePtr = [0xffff888000001000] ∧
    Relocated Slot.inst someFds twoLoads (twoLoads.flatMap Slot.toArray) p out := by
  obtain ⟨p, hok, hlisted⟩ : ∃ p,
      Outcome.result (preprocess Slot.inst someFds false (twoLoads.flatMap Slot.toArray)) =
        .ok (.ok p) ∧ p.rawFilePtr = [0xffff888000001000] := ⟨_, rfl, rfl⟩
  obtain ⟨out, hout⟩ := map_loads_relocated Slot.inst someFds false _ twoLoads p
    (Slot.inst.translate_toArray twoLoads) twoLoads_paired hok
  exact ⟨p, out, hok, hlisted, hout⟩

end EbpfPreProcessor

end ExtKtrace.Bpf
