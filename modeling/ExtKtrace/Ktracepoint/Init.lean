import Mathlib.Data.List.Nodup
import ExtKtrace.Ktracepoint.Point
import ExtKtrace.Lib.StableSort
import ExtKtrace.Lib.Tally

/-!
# The tracepoints of an image

The linker puts a record of each tracepoint into a section, in whatever order. Initialisation sorts
the section by name and hands out the ids.
-/

namespace ExtKtrace.Ktracepoint
set_option autoImplicit false

open StableSort
open Utf8 (Str encode)

/-- A record of the section `.tracepoint`. -/
structure CommonTracePointMeta (κ : Type) where
  tracePoint : StaticTracePoint κ
  printFunc : FnPtr

abbrev TracePointMap (κ : Type) := Table UInt32 (StaticTracePoint κ)

/-- The counter of ids, the memory of the default callbacks and what is returned. -/
structure Events (κ : Type) where
  tracePointId : UInt32
  heap : List TraceDefaultFunc
  tpMap : TracePointMap κ
  extTps : List (ExtTracePointState κ)

variable {κ : Type}

def cmpMeta (a b : CommonTracePointMeta κ) : Ordering :=
  (compare (encode a.tracePoint.name) (encode b.tracePoint.name)).then
    (compare (encode a.tracePoint.system) (encode b.tracePoint.system))

def initEvent (s : Events κ) (m : CommonTracePointMeta κ) : Events κ :=
  let id := s.tracePointId
  let tracepoint := m.tracePoint.setId id
  let defaultCallback := s.heap.length
  { tracePointId := s.tracePointId + 1
    heap := s.heap ++ [{ func := m.printFunc, data := 0 }]
    tpMap := s.tpMap.insert id tracepoint
    extTps := s.extTps ++ [.new tracepoint defaultCallback] }

/-- `global_init_events`, with the counter as it is before. -/
def globalInitEvents (tracePointId : UInt32) (heap : List TraceDefaultFunc)
    (tracepointData : List (CommonTracePointMeta κ)) : Events κ :=
  (sortBy cmpMeta tracepointData).foldl initEvent
    { tracePointId := tracePointId, heap := heap, tpMap := ∅, extTps := [] }

namespace Events

attribute [local instance] lexOrd

/-- What a record is sorted by. -/
def sortKey (m : CommonTracePointMeta κ) : List UInt8 × List UInt8 :=
  (encode m.tracePoint.name, encode m.tracePoint.system)

theorem sortBy_map {α : Type} (f : α → CommonTracePointMeta κ) (l : List α) :
    sortBy cmpMeta (l.map f) = (sortBy (fun a b => cmpMeta (f a) (f b)) l).map f :=
  (map_sortByKey f sortKey l).symm

theorem sortKey_inj {m n : CommonTracePointMeta κ} (h : sortKey m = sortKey n) :
    (m.tracePoint.name, m.tracePoint.system) = (n.tracePoint.name, n.tracePoint.system) := by
  obtain ⟨hname, hsystem⟩ := Prod.mk.inj h
  rw [Utf8.encode_injective hname, Utf8.encode_injective hsystem]

/-- Records with different names come out in one order. -/
theorem sortBy_eq_of_perm {l m : List (CommonTracePointMeta κ)} (h : l.Perm m)
    (hdistinct : (l.map fun e => (e.tracePoint.name, e.tracePoint.system)).Nodup) :
    sortBy cmpMeta l = sortBy cmpMeta m := by
  have hperm : (sortBy cmpMeta l).Perm (sortBy cmpMeta m) :=
    (perm_sortBy _ l).trans (h.trans (perm_sortBy _ m).symm)
  refine List.Perm.eq_of_pairwise ?_ (sorted_sortByKey sortKey l) (sorted_sortByKey sortKey m) hperm
  intro a b ha hb hab hba
  have hkey : sortKey a = sortKey b :=
    Std.LawfulEqOrd.eq_of_compare (Std.OrientedCmp.isLE_antisymm hab hba)
  have ha' := (perm_sortBy cmpMeta l).mem_iff.mp ha
  have hb' := h.mem_iff.mpr ((perm_sortBy cmpMeta m).mem_iff.mp hb)
  exact List.inj_on_of_nodup_map hdistinct ha' hb' (sortKey_inj hkey)

/-- The runtime state of the record at a place of the sorted section. -/
def stateAt (first : UInt32) (callbacks : Nat) (i : Nat) (m : CommonTracePointMeta κ) :
    ExtTracePointState κ := .new (m.tracePoint.setId (first + .ofNat i)) (callbacks + i)

/-- What is there after the records of a section have been gone through. -/
structure Registered (first : UInt32) (heap : List TraceDefaultFunc)
    (l : List (CommonTracePointMeta κ)) (s : Events κ) : Prop where
  next : s.tracePointId = first + .ofNat l.length
  callbacks : s.heap = heap ++ l.map fun m => { func := m.printFunc, data := 0 }
  states : s.extTps = l.mapIdx (stateAt first heap.length)
  ids : (s.extTps.map fun ext => ext.tracepoint.id).Nodup
  found : ∀ id tp, s.tpMap.lookup id = some tp ↔
    ∃ ext ∈ s.extTps, ext.tracepoint = tp ∧ tp.id = id

variable {first : UInt32} {heap : List TraceDefaultFunc}

theorem add_ofNat_inj {i j : Nat} (hi : i < 2 ^ 32) (hj : j < 2 ^ 32)
    (h : first + UInt32.ofNat i = first + UInt32.ofNat j) : i = j := by
  have hnat := congrArg UInt32.toNat ((UInt32.add_right_inj first).mp h)
  rwa [UInt32.toNat_ofNat_of_lt' hi, UInt32.toNat_ofNat_of_lt' hj] at hnat

theorem Registered.nil (first : UInt32) (heap : List TraceDefaultFunc) :
    Registered first heap [] (⟨first, heap, ∅, []⟩ : Events κ) where
  next := (UInt32.add_zero first).symm
  callbacks := (List.append_nil heap).symm
  states := rfl
  ids := List.nodup_nil
  found id tp := by simp

/-- The id that the counter has come to is new as long as the counter has not gone round. -/
theorem Registered.concat {l : List (CommonTracePointMeta κ)} {s : Events κ}
    (h : Registered first heap l s) (m : CommonTracePointMeta κ) (hroom : l.length < 2 ^ 32) :
    Registered first heap (l ++ [m]) (initEvent s m) := by
  have hnew : ∀ ext ∈ s.extTps, ext.tracepoint.id ≠ s.tracePointId := by
    intro ext hext heq
    rw [h.states, List.mem_mapIdx] at hext
    obtain ⟨i, hi, rfl⟩ := hext
    rw [h.next] at heq
    exact absurd (add_ofNat_inj (by omega) hroom heq) (by omega)
  refine ⟨?_, ?_, ?_, ?_, ?_⟩
  · rw [List.length_append, List.length_singleton, UInt32.ofNat_add]
    show s.tracePointId + 1 = _
    rw [h.next, UInt32.add_assoc]
    rfl
  · rw [List.map_append, ← List.append_assoc, ← h.callbacks]
    rfl
  · rw [List.mapIdx_concat, ← h.states]
    show s.extTps ++ [_] = s.extTps ++ [_]
    rw [h.next, h.callbacks, List.length_append, List.length_map]
    rfl
  · show ((s.extTps ++ [_]).map _).Nodup
    rw [List.map_append, List.nodup_append]
    refine ⟨h.ids, List.nodup_singleton _, ?_⟩
    intro id hid id' hid' heq
    obtain ⟨ext, hext, rfl⟩ := List.mem_map.mp hid
    rw [List.map_singleton, List.mem_singleton] at hid'
    exact hnew ext hext (heq.trans hid')
  · intro id tp
    show (s.tpMap.insert s.tracePointId _).lookup id = some tp ↔ ∃ ext ∈ s.extTps ++ [_], _
    simp only [List.mem_append, List.mem_singleton, or_and_right, exists_or, exists_eq_left]
    by_cases hid : id = s.tracePointId
    · subst hid
      rw [AList.lookup_insert, Option.some_inj]
      constructor
      · rintro rfl
        exact .inr ⟨rfl, rfl⟩
      · rintro (⟨ext, hext, rfl, heq⟩ | ⟨rfl, -⟩)
        · exact absurd heq (hnew ext hext)
        · rfl
    · rw [AList.lookup_insert_ne hid, h.found]
      refine ⟨.inl, ?_⟩
      rintro (hold | ⟨rfl, heq⟩)
      · exact hold
      · exact absurd heq.symm hid

theorem registered_foldl (first : UInt32) (heap : List TraceDefaultFunc)
    (l : List (CommonTracePointMeta κ)) (hlen : l.length ≤ 2 ^ 32) :
    Registered first heap l (l.foldl initEvent ⟨first, heap, ∅, []⟩) := by
  induction l using List.reverseRecOn with
  | nil => exact .nil first heap
  | append_singleton l m ih =>
    rw [List.length_append, List.length_singleton] at hlen
    rw [List.foldl_concat]
    exact (ih (by omega)).concat m (by omega)

/-- Initialisation gives each tracepoint of the section one id of its own and one runtime state, the
map finds just these under their ids, and none of this depends on the order in which the linker has
put tracepoints of different names. -/
theorem init_registers (first : UInt32) (heap : List TraceDefaultFunc)
    (tracepointData : List (CommonTracePointMeta κ)) (hlen : tracepointData.length ≤ 2 ^ 32) :
    Registered first heap (sortBy cmpMeta tracepointData)
      (globalInitEvents first heap tracepointData) ∧
    (IsStableSort sortKey tracepointData (sortBy cmpMeta tracepointData)) ∧
    ((tracepointData.map fun m => (m.tracePoint.name, m.tracePoint.system)).Nodup →
      ∀ linked, tracepointData.Perm linked →
        globalInitEvents first heap linked = globalInitEvents first heap tracepointData) := by
  have hperm := perm_sortBy cmpMeta tracepointData
  refine ⟨registered_foldl first heap _ (by rwa [hperm.length_eq]),
    isStableSort_sortByKey sortKey tracepointData, ?_⟩
  intro hdistinct linked hlinked
  unfold globalInitEvents
  rw [sortBy_eq_of_perm hlinked hdistinct]

/-- Two tracepoints of one system, linked against the order of their names. -/
def switchAndFork : List (CommonTracePointMeta Bool) :=
  [⟨.new false "sched_switch".toList "sched".toList (fun _ => []) [] ⟨[]⟩, 7⟩,
    ⟨.new false "sched_fork".toList "sched".toList (fun _ => []) [] ⟨[]⟩, 8⟩]

theorem init_registers_fork : switchAndFork.length ≤ 2 ^ 32 ∧
    Registered 0 [] (sortBy cmpMeta switchAndFork) (globalInitEvents 0 [] switchAndFork) :=
  ⟨by decide, (init_registers 0 [] switchAndFork (by decide)).1⟩

end Events

end ExtKtrace.Ktracepoint
