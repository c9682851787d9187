import ExtKtrace.Bpf.KeyLoop
import ExtKtrace.Bpf.LruMapRecency

/-!
# Dumping an LRU map

A process lists a map by asking for the next key and looking that key up, which brings the key
to the front of the list it is walking.
-/

namespace ExtKtrace.Bpf.LruMapDump
set_option autoImplicit false

open RecencyList (keys)
open LruMapRecency KeyLoop

variable {crate : LruCrate Bytes Bytes} {γ : Type}

abbrev dump (m : LruMap crate) (cursor : Option Bytes) (turns : Nat) : List Bytes × LoopEnd :=
  loop LruMap.keySize LruMap.getNextKey LruMap.lookupElem m cursor turns

/-- The loop ends with `ENOENT` after every key has been returned once. -/
def DumpsAll (m : LruMap crate) : Prop :=
  ∃ found, dump m none ((entries m).length + 1) = (found, .ended .ENOENT) ∧
    found.Perm (keys (entries m))

/-- What the walk relies on. -/
structure Listed (m : LruMap crate) : Prop where
  nodup : (keys (entries m)).Nodup
  lengths : ∀ e ∈ entries m, e.1.length = m.keySize.toNat

theorem listed_of_history {mapMeta : BpfMapMeta} {m₀ m : LruMap crate}
    {log : List (Op γ × Answer γ)} (contract : crate.KeepsRecency)
    (hnew : LruMap.new crate mapMeta = .ok m₀) (h : History m₀ log m) : Listed m :=
  have hm := h.inv contract hnew
  ⟨hm.ordered.nodup, hm.key_lengths⟩

/-- The map after a lookup that brings `key` to the front. -/
def lookedUp (m : LruMap crate) (key : Bytes) : LruMap crate :=
  { m with data := (crate.get key m.data).2 }

theorem nextOf_front {m : LruMap crate} (contract : crate.KeepsRecency) {k v : Bytes}
    {l : List (Bytes × Bytes)} (hl : entries m = (k, v) :: l) :
    nextOf entries (fun m key => crate.contains key m.data) (some k) m = l.head? := by
  have hcontains : crate.contains k m.data = true := by
    rw [contract.contains_iff, RecencyList.lookup_isSome]
    show k ∈ keys (entries m)
    rw [hl, RecencyList.keys_cons]
    exact List.mem_cons_self
  simp only [nextOf, hcontains, if_true, entryAfter, hl]
  rw [List.dropWhile_cons_of_neg (by simp)]
  rfl

section Turn
variable {m : LruMap crate} {cursor : Option Bytes} (hm : Listed m)
  (hcursor : ∀ k, cursor = some k → k.length = m.keySize.toNat)
include hm hcursor

theorem dump_end
    (hnext : nextOf entries (fun m key => crate.contains key m.data) cursor m = none)
    (turns : Nat) : dump m cursor (turns + 1) = ([], .ended .ENOENT) := by
  have hexec : (LruMap.getNextKey cursor (List.replicate m.keySize.toNat 0)).exec m =
      some (.error .ENOENT, m) := by
    refine (exec_nextKeyOf_sized List.length_replicate hcursor hm.lengths).trans ?_
    rw [hnext]
    rfl
  exact loop_end hexec turns

theorem dump_turn {e : Bytes × Bytes}
    (hnext : nextOf entries (fun m key => crate.contains key m.data) cursor m = some e)
    (he : e ∈ entries m) (turns : Nat) :
    dump m cursor (turns + 1) =
      (e.1 :: (dump (lookedUp m e.1) (some e.1) turns).1,
        (dump (lookedUp m e.1) (some e.1) turns).2) := by
  have hexec : (LruMap.getNextKey cursor (List.replicate m.keySize.toNat 0)).exec m =
      some (.ok e.1, m) := by
    refine (exec_nextKeyOf_sized List.length_replicate hcursor hm.lengths).trans ?_
    rw [hnext]
    rfl
  have hlookup : (LruMap.lookupElem e.1).exec m =
      some (.ok (crate.get e.1 m.data).1, lookedUp m e.1) := by
    rw [LruMap.exec_lookupElem, if_neg (not_not_intro (hm.lengths e he))]
    rfl
  exact loop_turn hexec hlookup turns

end Turn

theorem entries_lookedUp (contract : crate.KeepsRecency) (m : LruMap crate) (key : Bytes) :
    entries (lookedUp m key) = RecencyList.touch key (entries m) := contract.iter_get key m.data

theorem Listed.lookedUp {m : LruMap crate} (contract : crate.KeepsRecency) (hm : Listed m)
    (key : Bytes) : Listed (lookedUp m key) where
  nodup := by
    rw [entries_lookedUp contract]
    exact RecencyList.nodup_touch hm.nodup
  lengths := by
    intro e he
    rw [entries_lookedUp contract] at he
    exact hm.lengths e (RecencyList.mem_of_mem_touch he)

/-- The loop is at the start, or at the front of the list. -/
def AtFront (m : LruMap crate) (cursor : Option Bytes) : Prop :=
  ∀ k, cursor = some k → ∃ v l, entries m = (k, v) :: l

theorem AtFront.length_eq {m : LruMap crate} {cursor : Option Bytes} (hm : Listed m)
    (h : AtFront m cursor) (k : Bytes) (hk : cursor = some k) : k.length = m.keySize.toNat := by
  obtain ⟨v, l, hl⟩ := h k hk
  exact hm.lengths (k, v) (hl ▸ List.mem_cons_self)

/-- With two entries at least the next key is one of the first two, and its lookup puts the loop
at the front again. -/
theorem dump_running (contract : crate.KeepsRecency) (turns : Nat) {m : LruMap crate}
    {cursor : Option Bytes} (hm : Listed m) (hfront : AtFront m cursor)
    (hsize : 2 ≤ (entries m).length) : (dump m cursor turns).2 = .running := by
  induction turns generalizing m cursor with
  | zero => rfl
  | succ turns ih =>
    obtain ⟨e₁, e₂, l, hl⟩ : ∃ e₁ e₂ l, entries m = e₁ :: e₂ :: l := by
      match h : entries m with
      | [] => simp [h] at hsize
      | [_] => simp [h] at hsize
      | e₁ :: e₂ :: l => exact ⟨e₁, e₂, l, rfl⟩
    have hnodup := hm.nodup
    rw [hl] at hnodup
    cases cursor with
    | none =>
      have hnext : nextOf entries (fun m key => crate.contains key m.data) none m = some e₁ := by
        rw [nextOf, hl]
        rfl
      have hafter : entries (lookedUp m e₁.1) = e₁ :: e₂ :: l := by
        rw [entries_lookedUp contract, hl]
        exact RecencyList.touch_front hnodup
      rw [dump_turn hm (hfront.length_eq hm) hnext (hl ▸ List.mem_cons_self)]
      refine ih (hm.lookedUp contract e₁.1) ?_ ?_
      · rintro k ⟨⟩
        exact ⟨e₁.2, e₂ :: l, hafter⟩
      · rw [hafter]
        simp
    | some k =>
      obtain ⟨v, l', hl'⟩ := hfront k rfl
      have hnext : nextOf entries (fun m key => crate.contains key m.data) (some k) m =
          some e₂ := by
        rw [nextOf_front contract hl']
        rw [hl] at hl'
        rw [← (List.cons.inj hl').2]
        rfl
      have hafter : entries (lookedUp m e₂.1) = e₂ :: e₁ :: l := by
        rw [entries_lookedUp contract, hl]
        exact RecencyList.touch_second hnodup
      rw [dump_turn hm (hfront.length_eq hm) hnext
        (hl ▸ List.mem_cons_of_mem _ List.mem_cons_self)]
      refine ih (hm.lookedUp contract e₂.1) ?_ ?_
      · rintro k ⟨⟩
        exact ⟨e₂.2, e₁ :: l, hafter⟩
      · rw [hafter]
        simp

theorem dump_none (contract : crate.KeepsRecency) {m : LruMap crate} (hm : Listed m)
    (hsize : (entries m).length ≤ 1) : DumpsAll m := by
  have hstart : AtFront m none := fun k hk => nomatch hk
  match hl : entries m with
  | [] =>
    have hnext : nextOf entries (fun m key => crate.contains key m.data) none m = none := by
      rw [nextOf, hl]
      rfl
    refine ⟨[], ?_, by rw [hl]; exact List.Perm.refl _⟩
    rw [hl]
    exact dump_end hm (hstart.length_eq hm) hnext 0
  | [e] =>
    have hnodup := hm.nodup
    rw [hl] at hnodup
    have hnext : nextOf entries (fun m key => crate.contains key m.data) none m = some e := by
      rw [nextOf, hl]
      rfl
    have hafter : entries (lookedUp m e.1) = [e] := by
      rw [entries_lookedUp contract, hl]
      exact RecencyList.touch_front hnodup
    have hend := nextOf_front contract (k := e.1) (v := e.2) (l := []) hafter
    have hm' := hm.lookedUp contract e.1
    have hfront : AtFront (lookedUp m e.1) (some e.1) := by
      rintro k ⟨⟩
      exact ⟨e.2, [], hafter⟩
    refine ⟨[e.1], ?_, by rw [hl]; exact List.Perm.refl _⟩
    rw [hl]
    refine (dump_turn hm (hstart.length_eq hm) hnext (hl ▸ List.mem_cons_self) 1).trans ?_
    rw [dump_end hm' (hfront.length_eq hm') hend 0]
  | _ :: _ :: _ => simp [hl] at hsize

/-- A dump lists an LRU map exactly when it has at most one entry; with more entries the loop
never ends. -/
theorem dumpsAll_iff (contract : crate.KeepsRecency) (mapMeta : BpfMapMeta) (m₀ : LruMap crate)
    (hnew : LruMap.new crate mapMeta = .ok m₀) (log : List (Op γ × Answer γ)) (m : LruMap crate)
    (hlog : History m₀ log m) :
    (DumpsAll m ↔ (entries m).length ≤ 1) ∧
      (2 ≤ (entries m).length → ∀ turns, (dump m none turns).2 = .running) := by
  have hm := listed_of_history contract hnew hlog
  have hendless : 2 ≤ (entries m).length → ∀ turns, (dump m none turns).2 = .running :=
    fun hsize turns => dump_running contract turns hm (fun k hk => nomatch hk) hsize
  refine ⟨⟨fun ⟨found, hdump, _⟩ => ?_, dump_none contract hm⟩, hendless⟩
  by_contra hsize
  have hrunning := hendless (by omega) ((entries m).length + 1)
  rw [hdump] at hrunning
  cases hrunning

/-- A map of two that keys of one byte have been stored in, the newest first. -/
def stored (l : List (Bytes × Bytes)) : LruMap (listCrate Bytes Bytes) := ⟨1, 1, (2, l)⟩

def storing (key value : Bytes) : Op Unit × Answer Unit := (.update key value 0, .done (.ok ()))

theorem dumpsAll_one :
    LruMap.new (listCrate Bytes Bytes) ⟨1, 1, 2, 0⟩ = .ok (stored []) ∧
      History (stored []) [storing [1] [10]] (stored [([1], [10])]) ∧
      DumpsAll (stored [([1], [10])]) := by
  have hnew : LruMap.new (listCrate Bytes Bytes) ⟨1, 1, 2, 0⟩ = .ok (stored []) := rfl
  have hlog : History (stored []) [storing [1] [10]] (stored [([1], [10])]) := .call .start rfl
  obtain ⟨hiff, -⟩ := dumpsAll_iff (listCrate_keepsRecency _ _) ⟨1, 1, 2, 0⟩ _ hnew _ _ hlog
  exact ⟨hnew, hlog, hiff.mpr (by decide)⟩

/-- Two keys are returned in turn for ever. -/
theorem dump_of_two_endless :
    LruMap.new (listCrate Bytes Bytes) ⟨1, 1, 2, 0⟩ = .ok (stored []) ∧
      History (stored []) [storing [2] [20], storing [1] [10]]
        (stored [([2], [20]), ([1], [10])]) ∧
      (dump (stored [([2], [20]), ([1], [10])]) none 5).1 = [[2], [1], [2], [1], [2]] ∧
      ¬ DumpsAll (stored [([2], [20]), ([1], [10])]) := by
  have hlisted : Listed (stored [([2], [20]), ([1], [10])]) := ⟨by decide, by decide⟩
  have hrunning := @dump_running _ (listCrate_keepsRecency _ _) 3 _ none hlisted
    (fun k hk => nomatch hk) (by decide)
  refine ⟨rfl, .call (.call .start rfl) rfl, by decide, fun ⟨found, hdump, _⟩ => ?_⟩
  have hturns : (entries (stored [([2], [20]), ([1], [10])])).length + 1 = 3 := rfl
  rw [hturns] at hdump
  rw [hdump] at hrunning
  cases hrunning

end ExtKtrace.Bpf.LruMapDump
