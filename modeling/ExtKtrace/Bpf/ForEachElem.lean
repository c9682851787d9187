import ExtKtrace.Lib.Traversal
import ExtKtrace.Bpf.HashMapWalk
import ExtKtrace.Bpf.ArrayElements
import ExtKtrace.Bpf.LruMapRecency
import ExtKtrace.Bpf.UnifiedMap

/-!
# Callbacks over the elements

Every kind of map runs a loop of its own over its elements, and a callback may end it. The array
maps count the call that ends the loop, the hash and the LRU map do not.
-/

namespace ExtKtrace.Bpf.ForEachElem
set_option autoImplicit false

open Traversal (Visit traverse Stops recording)

variable {crate : LruCrate Bytes Bytes} {γ : Type}

/-- A callback on one entry; any answer but 0 stops. -/
def visitor (cb : Bytes → Bytes → γ → Int32 × γ) (e : Bytes × Bytes) (ctx : γ) : Int32 × γ :=
  cb e.1 e.2 ctx

abbrev Visits := List (Visit (Bytes × Bytes) Int32)

abbrev visits (cb : Bytes → Bytes → γ → Int32 × γ) (l : List (Bytes × Bytes)) (ctx : γ) :
    Visits × γ := traverse (· ≠ 0) (visitor cb) l ctx

/-- The callback stops at one of the entries. -/
abbrev StopsIn (cb : Bytes → Bytes → γ → Int32 × γ) (l : List (Bytes × Bytes)) (ctx : γ) : Prop :=
  Stops (· ≠ 0) (visitor cb) l ctx

/-- The callback that also writes down how it is called. -/
def recorded (cb : Bytes → Bytes → γ → Int32 × γ) (key value : Bytes) (ctx : γ × Visits) :
    Int32 × γ × Visits := recording (visitor cb) (key, value) ctx

/-- The elements at `n` indices from `i` on. -/
def elementsFrom (index : UInt32 → Option Bytes) (i n : Nat) : List (Bytes × Bytes) :=
  (List.range' i n).filterMap fun j => (index (.ofNat j)).map (u32ToNeBytes (.ofNat j), ·)

/-- At an element that cannot be sliced the callback has already stopped. -/
def SlicedFrom (index : UInt32 → Option Bytes) (i n : Nat) (cb : Bytes → Bytes → γ → Int32 × γ)
    (ctx : γ) : Prop :=
  ∀ k < n, index (.ofNat (i + k)) = none → StopsIn cb (elementsFrom index i k) ctx

section Loops
variable {cb : Bytes → Bytes → γ → Int32 × γ} {index : UInt32 → Option Bytes} {i n : Nat} {ctx : γ}

theorem elementsFrom_cons {value : Bytes} (h : index (.ofNat i) = some value) (n : Nat) :
    elementsFrom index i (n + 1) =
      (u32ToNeBytes (.ofNat i), value) :: elementsFrom index (i + 1) n := by
  unfold elementsFrom
  rw [List.range'_succ, List.filterMap_cons, h]
  rfl

theorem slicedFrom_cons {value : Bytes} (h : index (.ofNat i) = some value) :
    SlicedFrom index i (n + 1) cb ctx ↔
      (cb (u32ToNeBytes (.ofNat i)) value ctx).1 ≠ 0 ∨
        SlicedFrom index (i + 1) n cb (cb (u32ToNeBytes (.ofNat i)) value ctx).2 := by
  constructor
  · intro hall
    by_cases hstop : (cb (u32ToNeBytes (.ofNat i)) value ctx).1 ≠ 0
    · exact .inl hstop
    · refine .inr fun k hk hnone => ?_
      have hat := hall (k + 1) (Nat.succ_lt_succ hk) (by rwa [Nat.add_right_comm] at hnone)
      rw [elementsFrom_cons h] at hat
      exact (Traversal.stops_cons.mp hat).resolve_left hstop
  · intro hall k hk hnone
    cases k with
    | zero => exact nomatch h.symm.trans hnone
    | succ k =>
      rw [elementsFrom_cons h]
      apply Traversal.stops_cons.mpr
      apply hall.imp_right
      intro hrest
      exact hrest k (Nat.lt_of_succ_lt_succ hk) (by rwa [Nat.add_right_comm])

theorem count_succ (used : UInt32) (calls : Nat) :
    used + 1 + .ofNat calls = used + .ofNat (calls + 1) := by
  rw [UInt32.ofNat_add, UInt32.add_assoc, UInt32.add_comm 1]
  rfl

/-- The loop over the indices counts every call, and slices no element behind the last one. -/
theorem forEachIndex_cases (i n : Nat) (used : UInt32) (ctx : γ) :
    (SlicedFrom index i n cb ctx ∧ forEachIndex index cb n (.ofNat i) used ctx =
      some (used + .ofNat (visits cb (elementsFrom index i n) ctx).1.length,
        (visits cb (elementsFrom index i n) ctx).2)) ∨
    (¬ SlicedFrom index i n cb ctx ∧ forEachIndex index cb n (.ofNat i) used ctx = none) := by
  induction n generalizing i used ctx with
  | zero =>
    refine .inl ⟨fun k hk => absurd hk (Nat.not_lt_zero k), ?_⟩
    exact congrArg some (Prod.ext (UInt32.add_zero used).symm rfl)
  | succ n ih =>
    cases hvalue : index (.ofNat i) with
    | none =>
      refine .inr ⟨fun h => ?_, by simp only [forEachIndex, hvalue]; rfl⟩
      exact Traversal.not_stops_nil (h 0 (Nat.succ_pos n) hvalue)
    | some value =>
      rw [slicedFrom_cons hvalue, elementsFrom_cons hvalue]
      by_cases hstop : (cb (u32ToNeBytes (.ofNat i)) value ctx).1 ≠ 0
      · refine .inl ⟨.inl hstop, ?_⟩
        rw [visits, Traversal.traverse_cons_stop hstop]
        simp only [forEachIndex, hvalue, Option.bind_eq_bind, Option.bind_some]
        exact if_pos hstop
      · have hloop : forEachIndex index cb (n + 1) (.ofNat i) used ctx =
            forEachIndex index cb n (.ofNat (i + 1)) (used + 1)
              (cb (u32ToNeBytes (.ofNat i)) value ctx).2 := by
          simp only [forEachIndex, hvalue, Option.bind_eq_bind, Option.bind_some]
          rw [if_neg hstop, UInt32.ofNat_add]
          rfl
        rw [hloop, or_iff_right hstop, visits, Traversal.traverse_cons_go hstop]
        rcases ih (i + 1) (used + 1) (cb (u32ToNeBytes (.ofNat i)) value ctx).2 with
          ⟨hsliced, heq⟩ | ⟨hnot, heq⟩
        · refine .inl ⟨hsliced, heq.trans ?_⟩
          rw [count_succ, List.length_cons]
          rfl
        · exact .inr ⟨hnot, heq⟩

/-- The loop over the entries does not count the call that ends it. -/
theorem forEachEntry_eq (l : List (Bytes × Bytes)) (used : UInt32) (ctx : γ) :
    forEachEntry cb l used ctx =
      (used + .ofNat (if StopsIn cb l ctx then (visits cb l ctx).1.length - 1
        else (visits cb l ctx).1.length), (visits cb l ctx).2) := by
  induction l generalizing used ctx with
  | nil => exact Prod.ext (UInt32.add_zero used).symm rfl
  | cons e l ih =>
    by_cases hstop : (cb e.1 e.2 ctx).1 ≠ 0
    · have hstops : StopsIn cb (e :: l) ctx := Traversal.stops_cons.mpr (.inl hstop)
      rw [if_pos hstops, visits, Traversal.traverse_cons_stop hstop]
      apply (if_pos hstop).trans
      exact Prod.ext (UInt32.add_zero used).symm rfl
    · have hlater : StopsIn cb (e :: l) ctx ↔ StopsIn cb l (cb e.1 e.2 ctx).2 :=
        Traversal.stops_cons.trans (or_iff_right hstop)
      have hloop : forEachEntry cb (e :: l) used ctx =
          forEachEntry cb l (used + 1) (cb e.1 e.2 ctx).2 := if_neg hstop
      have hcons : visits cb (e :: l) ctx = (⟨e, (cb e.1 e.2 ctx).1⟩ ::
          (visits cb l (cb e.1 e.2 ctx).2).1, (visits cb l (cb e.1 e.2 ctx).2).2) :=
        Traversal.traverse_cons_go hstop
      rw [hloop, ih, count_succ, hcons]
      simp only [hlater, List.length_cons, Nat.add_sub_cancel]
      split
      · rename_i hstops
        rw [Nat.sub_add_cancel (Traversal.length_pos_of_stops hstops)]
      · rfl

end Loops

/-- The elements of an array, by index. -/
def elements (index : UInt32 → Option Bytes) (n : UInt32) : List (Bytes × Bytes) :=
  elementsFrom index 0 n.toNat

/-- What a map holds, in the order of its iteration. -/
def entries : BpfMap crate → List (Bytes × Bytes)
  | .array m => elements m.data.index m.maxEntries
  | .perfEventArray m => elements m.fds.index m.numCpus
  | .hash m => m.data.toList
  | .lruHash m => crate.iter m.data
  | _ => []

/-- The maps that operations lead to. An array may hold any bytes; the hash and the LRU map are
followed from the empty one. -/
inductive Reached : BpfMap crate → Prop
  | array (m : ArrayMap) : Reached (.array m)
  | perfEventArray (m : PerfEventArrayMap) : Reached (.perfEventArray m)
  | hash {mapMeta : BpfMapMeta} {m₀ m : BpfHashMap} {ops : List HashMapRefinement.Op}
      {answers : List HashMapRefinement.Answer} (hnew : BpfHashMap.new mapMeta = .ok m₀)
      (hrun : Machine.run HashMapRefinement.step m₀ ops = some (answers, m)) : Reached (.hash m)
  | lruHash {δ : Type} {mapMeta : BpfMapMeta} {m₀ m : LruMap crate}
      {log : List (LruMapRecency.Op δ × LruMapRecency.Answer δ)}
      (hnew : LruMap.new crate mapMeta = .ok m₀) (hlog : LruMapRecency.History m₀ log m) :
      Reached (.lruHash m)

/-- The count of an array map takes in the call that ends the iteration. -/
def CountsLast : BpfMap crate → Prop
  | .array _ | .perfEventArray _ => True
  | _ => False

instance (m : BpfMap crate) : Decidable (CountsLast m) := by
  cases m <;> unfold CountsLast <;> infer_instance

/-- At an array element whose bytes wrap around the callback has already stopped. -/
def Sliced (cb : Bytes → Bytes → γ → Int32 × γ) (ctx : γ) : BpfMap crate → Prop
  | .array m => SlicedFrom m.data.index 0 m.maxEntries.toNat cb ctx
  | .perfEventArray m => SlicedFrom m.fds.index 0 m.numCpus.toNat cb ctx
  | _ => True

section Maps
variable {m : BpfMap crate}

theorem u32FromNeBytes_u32ToNeBytes (n : UInt32) : u32FromNeBytes (u32ToNeBytes n) = n := by
  unfold u32FromNeBytes u32ToNeBytes
  rw [Endian.leNat_toLe_of_lt n.toNat_lt, UInt32.ofNat_toNat]

theorem mem_elements {index : UInt32 → Option Bytes} {n : UInt32} {e : Bytes × Bytes} :
    e ∈ elements index n ↔ ∃ i < n, index i = some e.2 ∧ e.1 = u32ToNeBytes i := by
  unfold elements elementsFrom
  rw [List.mem_filterMap]
  constructor
  · rintro ⟨j, hj, he⟩
    obtain ⟨value, hvalue, rfl⟩ := Option.map_eq_some_iff.mp he
    have hlt : j < n.toNat := by simpa using hj
    refine ⟨.ofNat j, ?_, hvalue, rfl⟩
    rw [UInt32.lt_iff_toNat_lt, UInt32.toNat_ofNat', Nat.mod_eq_of_lt (hlt.trans n.toNat_lt)]
    exact hlt
  · rintro ⟨i, hi, hvalue, hkey⟩
    refine ⟨i.toNat, by simpa using UInt32.lt_iff_toNat_lt.mp hi, ?_⟩
    rw [UInt32.ofNat_toNat, hvalue]
    exact congrArg some (Prod.ext hkey.symm rfl)

theorem length_elements_lt (index : UInt32 → Option Bytes) (n : UInt32) :
    (elements index n).length < 2 ^ 32 := by
  have hle : (elements index n).length ≤ (List.range' 0 n.toNat).length :=
    List.length_filterMap_le _ _
  rw [List.length_range'] at hle
  exact Nat.lt_of_le_of_lt hle n.toNat_lt

theorem nodup_elements (index : UInt32 → Option Bytes) (n : UInt32) :
    ((elements index n).map Prod.fst).Nodup := by
  apply List.pairwise_map.mpr
  apply List.pairwise_filterMap.mpr
  have hindices : (List.range' 0 n.toNat).Pairwise (· < ·) := List.pairwise_lt_range'
  refine hindices.imp_of_mem fun {j k} hj hk hlt e he e' he' hkeys => ?_
  obtain ⟨value, -, rfl⟩ := Option.map_eq_some_iff.mp he
  obtain ⟨value', -, rfl⟩ := Option.map_eq_some_iff.mp he'
  have hbelow : ∀ i ∈ List.range' 0 n.toNat, i < 2 ^ 32 := by
    intro i hi
    have hlt : i < n.toNat := by simpa using hi
    exact hlt.trans n.toNat_lt
  have hindex := congrArg u32FromNeBytes hkeys
  dsimp only at hindex
  rw [u32FromNeBytes_u32ToNeBytes, u32FromNeBytes_u32ToNeBytes] at hindex
  have heq := congrArg UInt32.toNat hindex
  rw [UInt32.toNat_ofNat', UInt32.toNat_ofNat', Nat.mod_eq_of_lt (hbelow j hj),
    Nat.mod_eq_of_lt (hbelow k hk)] at heq
  exact Nat.ne_of_lt hlt heq

theorem represents_of_run {mapMeta : BpfMapMeta} {m₀ m : BpfHashMap}
    {ops : List HashMapRefinement.Op} {answers : List HashMapRefinement.Answer}
    (hnew : BpfHashMap.new mapMeta = .ok m₀)
    (hrun : Machine.run HashMapRefinement.step m₀ ops = some (answers, m)) :
    ∃ b : HashMapRefinement.Abstract mapMeta.keySize mapMeta.valueSize mapMeta.maxEntries,
      HashMapRefinement.Represents m b := by
  obtain ⟨m', hrun', hm'⟩ :=
    HashMapRefinement.step_refines.run ops (HashMapRefinement.new_represents_empty hnew)
  cases hrun.symm.trans hrun'
  exact ⟨_, hm'⟩

theorem nodup_entries (contract : crate.KeepsRecency) (hm : Reached m) :
    ((entries m).map Prod.fst).Nodup := by
  cases hm with
  | array m => exact nodup_elements _ _
  | perfEventArray m => exact nodup_elements _ _
  | @hash _ _ m =>
    apply List.pairwise_map.mpr
    exact m.data.distinct_keys_toList.imp fun h heq => h (by rw [heq]; exact Std.ReflCmp.compare_self)
  | lruHash hnew hlog => exact (LruMapRecency.History.inv contract hnew hlog).ordered.nodup

theorem length_entries_lt (contract : crate.KeepsRecency) (hm : Reached m) :
    (entries m).length < 2 ^ 32 := by
  cases hm with
  | array m => exact length_elements_lt _ _
  | perfEventArray m => exact length_elements_lt _ _
  | @hash mapMeta _ m _ _ hnew hrun =>
    obtain ⟨b, hb⟩ := represents_of_run hnew hrun
    have hsize : m.data.toList.length ≤ mapMeta.maxEntries.toNat := by
      rw [Std.TreeMap.length_toList, hb.size]
      exact b.card_le
    exact Nat.lt_of_le_of_lt hsize mapMeta.maxEntries.toNat_lt
  | @lruHash _ mapMeta _ _ _ hnew hlog =>
    have hsize := (LruMapRecency.History.inv contract hnew hlog).size
    exact Nat.lt_of_le_of_lt hsize mapMeta.maxEntries.toNat_lt

/-- A lookup finds what the iteration shows. -/
theorem lookup_entry (contract : crate.KeepsRecency) (hm : Reached m) (here : UInt32)
    {e : Bytes × Bytes} (he : e ∈ entries m) :
    (BpfMap.lookupElem here e.1).Returns m (some e.2) := by
  cases hm with
  | array m =>
    obtain ⟨i, hi, hvalue, hkey⟩ := mem_elements.mp he
    refine ⟨_, Call.within_eq_some.mpr ⟨m, ?_, rfl⟩⟩
    rw [ArrayMap.exec_lookupElem, hkey, u32FromNeBytes_u32ToNeBytes, hvalue]
    apply if_neg
    rw [not_or, UInt32.not_le]
    exact ⟨not_not_intro (Endian.length_toLe 4 _), hi⟩
  | perfEventArray m =>
    obtain ⟨i, hi, hvalue, hkey⟩ := mem_elements.mp he
    refine ⟨_, Call.within_eq_some.mpr ⟨m, ?_, rfl⟩⟩
    rw [PerfEventArrayMap.exec_lookupElem, hkey, u32FromNeBytes_u32ToNeBytes, hvalue]
    apply if_neg
    rw [not_or, UInt32.not_le]
    exact ⟨not_not_intro (Endian.length_toLe 4 _), hi⟩
  | @hash _ _ m _ _ hnew hrun =>
    obtain ⟨b, hb⟩ := represents_of_run hnew hrun
    have hget := Std.TreeMap.mem_toList_iff_getElem?_eq_some.mp he
    have hmem : e.1 ∈ m.data := by
      rw [Std.TreeMap.mem_iff_isSome_getElem?, hget]
      rfl
    refine ⟨_, Call.within_eq_some.mpr ⟨m, ?_, rfl⟩⟩
    rw [BpfHashMap.exec_lookupElem, hget]
    exact congrArg (fun r => some (r, m))
      (if_neg (not_not_intro (HashMapWalk.keysSized_of_represents hb e.1 hmem)))
  | @lruHash _ _ _ m _ hnew hlog =>
    have hinv := LruMapRecency.History.inv contract hnew hlog
    have hvalue : (crate.get e.1 m.data).1 = some e.2 := by
      rw [contract.get_value]
      exact RecencyList.lookup_of_mem hinv.ordered.nodup he
    refine ⟨_, Call.within_eq_some.mpr ⟨{ m with data := (crate.get e.1 m.data).2 }, ?_, rfl⟩⟩
    rw [LruMap.exec_lookupElem, if_neg (not_not_intro (hinv.key_lengths e he)), hvalue]

/-- The calls that the count takes in. -/
def counted (cb : Bytes → Bytes → γ → Int32 × γ) (ctx : γ) (m : BpfMap crate) : Nat :=
  if CountsLast m ∨ ¬ StopsIn cb (entries m) ctx then (visits cb (entries m) ctx).1.length
  else (visits cb (entries m) ctx).1.length - 1

/-- What `for_each_elem` comes to: a count and what the callback carries, or a panic. -/
inductive Outcome (cb : Bytes → Bytes → γ → Int32 × γ) (ctx : γ) (m : BpfMap crate) :
    Option (Except BpfError (UInt32 × γ) × BpfMap crate) → Prop
  | returned (hsliced : Sliced cb ctx m) :
      Outcome cb ctx m (some (.ok (.ofNat (counted cb ctx m), (visits cb (entries m) ctx).2), m))
  | panicked (hnot : ¬ Sliced cb ctx m) : Outcome cb ctx m none

/-- An iteration in a map that walks a list of entries. -/
theorem outcome_of_entries {σ : Type} (wrap : σ → BpfMap crate) (list : σ → List (Bytes × Bytes))
    {t : σ} {cb : Bytes → Bytes → γ → Int32 × γ} {ctx : γ} (hlist : entries (wrap t) = list t)
    (hsliced : Sliced cb ctx (wrap t)) (hlast : ¬ CountsLast (wrap t)) :
    Outcome cb ctx (wrap t) (Call.within wrap (forEachOf list cb ctx 0) t) := by
  have hcounted : counted cb ctx (wrap t) =
      if StopsIn cb (list t) ctx then (visits cb (list t) ctx).1.length - 1
      else (visits cb (list t) ctx).1.length := by
    simp only [counted, hlast, hlist, false_or, ite_not]
  unfold Call.within
  rw [exec_forEachOf, if_neg (not_not_intro rfl), Option.map_some, forEachEntry_eq, UInt32.zero_add,
    ← hcounted, ← hlist]
  exact .returned hsliced

/-- An iteration in a map that walks its indices. -/
theorem outcome_of_indices {σ : Type} {wrap : σ → BpfMap crate} {t : σ}
    {index : UInt32 → Option Bytes} {n : UInt32} {cb : Bytes → Bytes → γ → Int32 × γ} {ctx : γ}
    {c : Call BpfError σ (UInt32 × γ)}
    (hexec : c.exec t = (forEachIndex index cb n.toNat 0 0 ctx).map fun r => (.ok r, t))
    (hentries : entries (wrap t) = elements index n)
    (hsliced : Sliced cb ctx (wrap t) ↔ SlicedFrom index 0 n.toNat cb ctx)
    (hlast : CountsLast (wrap t)) : Outcome cb ctx (wrap t) (Call.within wrap c t) := by
  have hcases : (SlicedFrom index 0 n.toNat cb ctx ∧ forEachIndex index cb n.toNat 0 0 ctx =
      some (0 + .ofNat (visits cb (elements index n) ctx).1.length,
        (visits cb (elements index n) ctx).2)) ∨
      (¬ SlicedFrom index 0 n.toNat cb ctx ∧ forEachIndex index cb n.toNat 0 0 ctx = none) :=
    forEachIndex_cases 0 n.toNat 0 ctx
  have hcounted : counted cb ctx (wrap t) = (visits cb (entries (wrap t)) ctx).1.length :=
    if_pos (.inl hlast)
  rw [← hsliced, ← hentries, UInt32.zero_add, ← hcounted] at hcases
  unfold Call.within
  rw [hexec]
  rcases hcases with ⟨hreads, heq⟩ | ⟨hnot, heq⟩
  · rw [heq]
    exact .returned hreads
  · rw [heq]
    exact .panicked hnot

theorem forEachElem_outcome (hm : Reached m) (here : UInt32)
    (cb : Bytes → Bytes → γ → Int32 × γ) (ctx : γ) :
    Outcome cb ctx m ((BpfMap.forEachElem here cb ctx 0).exec m) := by
  cases hm with
  | array m =>
    exact outcome_of_indices ((ArrayMap.exec_forEachElem m cb ctx 0).trans
      (if_neg (not_not_intro rfl))) rfl Iff.rfl trivial
  | perfEventArray m =>
    exact outcome_of_indices ((PerfEventArrayMap.exec_forEachElem m cb ctx 0).trans
      (if_neg (not_not_intro rfl))) rfl Iff.rfl trivial
  | hash => exact outcome_of_entries .hash (fun m => m.data.toList) rfl trivial id
  | lruHash => exact outcome_of_entries .lruHash (fun m => crate.iter m.data) rfl trivial id

section Iteration
variable {here : UInt32} {cb : Bytes → Bytes → γ → Int32 × γ} {ctx : γ}

theorem exec_sliced (hm : Reached m) (hsliced : Sliced cb ctx m) :
    (BpfMap.forEachElem here cb ctx 0).exec m =
      some (.ok (.ofNat (counted cb ctx m), (visits cb (entries m) ctx).2), m) := by
  have hout := forEachElem_outcome hm here cb ctx
  generalize (BpfMap.forEachElem here cb ctx 0).exec m = o at hout ⊢
  cases hout with
  | returned => rfl
  | panicked hnot => exact absurd hsliced hnot

theorem sliced_of_returns (hm : Reached m) {r : Except BpfError (UInt32 × γ) × BpfMap crate}
    (h : (BpfMap.forEachElem here cb ctx 0).exec m = some r) : Sliced cb ctx m := by
  have hout := forEachElem_outcome hm here cb ctx
  rw [h] at hout
  cases hout
  assumption

theorem visits_recorded (l : List (Bytes × Bytes)) :
    visits (recorded cb) l (ctx, []) =
      ((visits cb l ctx).1, (visits cb l ctx).2, (visits cb l ctx).1) :=
  Traversal.traverse_recording l ctx []

theorem stopsIn_recorded {l : List (Bytes × Bytes)} :
    StopsIn (recorded cb) l (ctx, []) ↔ StopsIn cb l ctx := Traversal.stops_recording

theorem sliced_recorded : Sliced (recorded cb) (ctx, []) m ↔ Sliced cb ctx m := by
  cases m with
  | array m | perfEventArray m =>
    unfold Sliced SlicedFrom
    simp only [stopsIn_recorded]
  | _ => exact Iff.rfl

/-- An iteration as it should be: `calls` is what the callback writes down about how it was
called and what it answered. -/
structure Iterates (here : UInt32) (m : BpfMap crate) (cb : Bytes → Bytes → γ → Int32 × γ) (ctx : γ)
    (count : UInt32) (calls : Visits) : Prop where
  returns : ∃ ctx', (BpfMap.forEachElem here cb ctx 0).exec m = some (.ok (count, ctx'), m) ∧
    (BpfMap.forEachElem here (recorded cb) (ctx, []) 0).exec m =
      some (.ok (count, ctx', calls), m)
  inOrder : calls.map Visit.entry <+: entries m
  once : (calls.map fun c => c.entry.1).Nodup
  own : ∀ c ∈ calls, (BpfMap.lookupElem here c.entry.1).Returns m (some c.entry.2)
  stops : ∀ before c after, calls = before ++ c :: after → c.answer ≠ 0 → after = []
  goesOn : (∀ c ∈ calls, c.answer = 0) → calls.map Visit.entry = entries m
  counts : count.toNat = calls.length

theorem length_visits_lt (contract : crate.KeepsRecency) (hm : Reached m) :
    (visits cb (entries m) ctx).1.length < 2 ^ 32 :=
  Nat.lt_of_le_of_lt (Traversal.length_traverse_le _ _) (length_entries_lt contract hm)

theorem counted_le : counted cb ctx m ≤ (visits cb (entries m) ctx).1.length := by
  unfold counted
  split
  · exact Nat.le_refl _
  · exact Nat.sub_le _ 1

theorem toNat_counted (contract : crate.KeepsRecency) (hm : Reached m) :
    (UInt32.ofNat (counted cb ctx m)).toNat = counted cb ctx m := by
  rw [UInt32.toNat_ofNat']
  exact Nat.mod_eq_of_lt (Nat.lt_of_le_of_lt counted_le (length_visits_lt contract hm))

/-- The count is the number of calls unless it leaves out a last one. -/
theorem counted_eq_iff : counted cb ctx m = (visits cb (entries m) ctx).1.length ↔
    CountsLast m ∨ ¬ StopsIn cb (entries m) ctx := by
  unfold counted
  split
  · rename_i hall
    exact iff_of_true rfl hall
  · rename_i hshort
    apply iff_of_false _ hshort
    obtain ⟨-, hstops⟩ := not_or.mp hshort
    have hpos : 0 < (visits cb (entries m) ctx).1.length :=
      Traversal.length_pos_of_stops (not_not.mp hstops)
    omega

theorem exec_recorded (hm : Reached m) (hsliced : Sliced cb ctx m) :
    (BpfMap.forEachElem here (recorded cb) (ctx, []) 0).exec m =
      some (.ok (.ofNat (counted cb ctx m), (visits cb (entries m) ctx).2,
        (visits cb (entries m) ctx).1), m) := by
  have hcounted : counted (recorded cb) (ctx, []) m = counted cb ctx m := by
    unfold counted
    simp only [visits_recorded, stopsIn_recorded]
  rw [exec_sliced hm (sliced_recorded.mpr hsliced), hcounted, visits_recorded]

theorem iterates_iff (contract : crate.KeepsRecency) (hm : Reached m) :
    (∃ count calls, Iterates here m cb ctx count calls) ↔
      Sliced cb ctx m ∧ (CountsLast m ∨ ¬ StopsIn cb (entries m) ctx) := by
  constructor
  · rintro ⟨count, calls, h⟩
    obtain ⟨ctx', hreturns, hrecorded⟩ := h.returns
    have hsliced := sliced_of_returns hm hreturns
    rw [exec_recorded hm hsliced] at hrecorded
    cases hrecorded
    exact ⟨hsliced, counted_eq_iff.mp ((toNat_counted contract hm).symm.trans h.counts)⟩
  · rintro ⟨hsliced, hall⟩
    have hcalls : (visits cb (entries m) ctx).1.map Visit.entry <+: entries m :=
      Traversal.traverse_starts _ _
    refine ⟨_, _, ⟨_, exec_sliced hm hsliced, exec_recorded hm hsliced⟩, hcalls, ?_, ?_, ?_, ?_, ?_⟩
    · have hkeys := (hcalls.map Prod.fst).sublist
      rw [List.map_map] at hkeys
      exact (nodup_entries contract hm).sublist hkeys
    · intro c hc
      exact lookup_entry contract hm here (hcalls.subset (List.mem_map_of_mem hc))
    · intro before c after hsplit
      exact Traversal.traverse_stops _ _ hsplit
    · intro hzero
      apply Traversal.traverse_all
      rintro ⟨c, hc, hstop⟩
      exact hstop (hzero c hc)
    · exact (toNat_counted contract hm).trans (counted_eq_iff.mpr hall)

end Iteration

/-- The same callback on two maps ends with one count. -/
def SameCount (here : UInt32) (m₁ m₂ : BpfMap crate) (cb : Bytes → Bytes → γ → Int32 × γ)
    (ctx : γ) : Prop :=
  ∃ count ctx₁ ctx₂,
    (BpfMap.forEachElem here cb ctx 0).exec m₁ = some (.ok (count, ctx₁), m₁) ∧
    (BpfMap.forEachElem here cb ctx 0).exec m₂ = some (.ok (count, ctx₂), m₂)

theorem same_count_iff (contract : crate.KeepsRecency) {m₁ m₂ : BpfMap crate} (h₁ : Reached m₁)
    (h₂ : Reached m₂) (hentries : entries m₁ = entries m₂) (here : UInt32)
    (cb : Bytes → Bytes → γ → Int32 × γ) (ctx : γ) :
    SameCount here m₁ m₂ cb ctx ↔ Sliced cb ctx m₁ ∧ Sliced cb ctx m₂ ∧
      ((CountsLast m₁ ↔ CountsLast m₂) ∨ ¬ StopsIn cb (entries m₁) ctx) := by
  have hcounts : counted cb ctx m₁ = counted cb ctx m₂ ↔
      (CountsLast m₁ ↔ CountsLast m₂) ∨ ¬ StopsIn cb (entries m₁) ctx := by
    unfold counted
    rw [← hentries]
    by_cases hstops : StopsIn cb (entries m₁) ctx
    · have hpos : 0 < (visits cb (entries m₁) ctx).1.length := Traversal.length_pos_of_stops hstops
      simp only [hstops, not_true_eq_false, or_false]
      split <;> split <;> rename_i hlast₁ hlast₂
      · exact iff_of_true rfl (iff_of_true hlast₁ hlast₂)
      · exact iff_of_false (by omega) fun h => hlast₂ (h.mp hlast₁)
      · exact iff_of_false (by omega) fun h => hlast₁ (h.mpr hlast₂)
      · exact iff_of_true rfl (iff_of_false hlast₁ hlast₂)
    · simp only [hstops, not_false_eq_true, or_true, if_true]
  rw [← hcounts]
  constructor
  · rintro ⟨count, ctx₁, ctx₂, hexec₁, hexec₂⟩
    have hsliced₁ := sliced_of_returns h₁ hexec₁
    have hsliced₂ := sliced_of_returns h₂ hexec₂
    refine ⟨hsliced₁, hsliced₂, ?_⟩
    rw [exec_sliced h₁ hsliced₁] at hexec₁
    rw [exec_sliced h₂ hsliced₂] at hexec₂
    simp only [Option.some.injEq, Prod.mk.injEq, Except.ok.injEq, and_true] at hexec₁ hexec₂
    rw [← toNat_counted contract h₁, ← toNat_counted contract h₂, hexec₁.1, hexec₂.1]
  · rintro ⟨hsliced₁, hsliced₂, heq⟩
    refine ⟨_, _, (visits cb (entries m₂) ctx).2, exec_sliced h₁ hsliced₁, ?_⟩
    rw [heq]
    exact exec_sliced h₂ hsliced₂

/-- An iteration makes its calls in the order of the map, each with an entry of its own, stops
right behind the first answer other than 0, changes nothing and counts its calls, exactly when
every array element is sliced before the callback stops and the map is an array map or the
callback never stops. Two maps with the same entries end with the same count exactly when both are
array maps, neither is or the callback never stops. -/
theorem for_each_means_same_iff (contract : crate.KeepsRecency) {m₁ m₂ : BpfMap crate}
    (h₁ : Reached m₁) (h₂ : Reached m₂) (here : UInt32) (cb : Bytes → Bytes → γ → Int32 × γ)
    (ctx : γ) :
    ((∃ count calls, Iterates here m₁ cb ctx count calls) ↔
      Sliced cb ctx m₁ ∧ (CountsLast m₁ ∨ ¬ StopsIn cb (entries m₁) ctx)) ∧
    (entries m₁ = entries m₂ → (SameCount here m₁ m₂ cb ctx ↔ Sliced cb ctx m₁ ∧ Sliced cb ctx m₂ ∧
      ((CountsLast m₁ ↔ CountsLast m₂) ∨ ¬ StopsIn cb (entries m₁) ctx))) := by
  constructor
  · exact iterates_iff contract h₁
  · intro hentries
    exact same_count_iff contract h₁ h₂ hentries here cb ctx

/-- Where the array is one of values, every element can be sliced. -/
theorem sliced_of_fits {mapMeta : BpfMapMeta} {m : ArrayMap} {values : UInt32 → Bytes}
    (h : ArrayElements.Holds mapMeta m values) (hfits : ArrayElements.Fits mapMeta)
    (cb : Bytes → Bytes → γ → Int32 × γ) (ctx : γ) : Sliced cb ctx (.array m : BpfMap crate) := by
  intro k hk hnone
  have hlt : UInt32.ofNat (0 + k) < mapMeta.maxEntries := by
    rw [h.maxEntries] at hk
    rw [Nat.zero_add, UInt32.lt_iff_toNat_lt, UInt32.toNat_ofNat',
      Nat.mod_eq_of_lt (hk.trans mapMeta.maxEntries.toNat_lt)]
    exact hk
  rw [h.index_eq hfits hlt] at hnone
  cases hnone

end Maps

abbrev ListMap := BpfMap (LruMapRecency.listCrate Bytes Bytes)

def twoArray : ListMap := .array ⟨⟨1, [5, 6]⟩, 1, 2⟩

def twoHash : ListMap :=
  .hash ⟨2, 4, 1, ((∅ : BTreeMap Bytes Bytes).insert [1, 0, 0, 0] [6]).insert [0, 0, 0, 0] [5]⟩

theorem reached_twoHash : Reached twoHash :=
  @Reached.hash _ ⟨4, 1, 2, 0⟩ _ _ [.update [1, 0, 0, 0] [6] 0, .update [0, 0, 0, 0] [5] 0] _ rfl rfl

theorem entries_twoArray : entries twoArray = [([0, 0, 0, 0], [5]), ([1, 0, 0, 0], [6])] := by
  decide

theorem entries_twoHash : entries twoHash = [([0, 0, 0, 0], [5]), ([1, 0, 0, 0], [6])] := by
  decide

theorem sliced_twoArray {γ : Type} (cb : Bytes → Bytes → γ → Int32 × γ) (ctx : γ) :
    Sliced cb ctx twoArray := by
  have hholds : ArrayElements.Holds ⟨4, 1, 2, 0⟩ ⟨⟨1, [5, 6]⟩, 1, 2⟩ fun i =>
      Slots.slot 1 [5, 6] i.toNat := ⟨rfl, rfl, rfl, rfl, fun _ _ => rfl⟩
  exact sliced_of_fits hholds (by decide) cb ctx

def addValue (_ value : Bytes) (sum : Nat) : Int32 × Nat := (0, sum + (value.map UInt8.toNat).sum)

/-- A callback that adds up the values and never stops is counted alike. -/
theorem for_each_means_same_two : (∃ count calls, Iterates 0 twoArray addValue 0 count calls) ∧
    SameCount 0 twoArray twoHash addValue 0 ∧
    (BpfMap.forEachElem 0 addValue 0 0).exec twoHash = some (.ok (2, 11), twoHash) := by
  have hgoes : ¬ StopsIn addValue (entries twoArray) 0 := by
    rw [entries_twoArray]
    decide
  obtain ⟨hiterates, hsame⟩ := for_each_means_same_iff (LruMapRecency.listCrate_keepsRecency _ _)
    (.array _) reached_twoHash 0 addValue 0
  refine ⟨hiterates.mpr ⟨sliced_twoArray _ _, .inr hgoes⟩, ?_, rfl⟩
  apply (hsame (entries_twoArray.trans entries_twoHash.symm)).mpr
  exact ⟨sliced_twoArray _ _, trivial, .inr hgoes⟩

def oneArray : ListMap := .array ⟨.new 1 1, 1, 1⟩

def oneHash : ListMap := .hash ⟨1, 4, 1, (∅ : BTreeMap Bytes Bytes).insert [0, 0, 0, 0] [0]⟩

theorem reached_oneHash : Reached oneHash :=
  @Reached.hash _ ⟨4, 1, 1, 0⟩ _ _ [.update [0, 0, 0, 0] [0] 0] _ rfl rfl

theorem entries_oneArray : entries oneArray = [([0, 0, 0, 0], [0])] := by decide

theorem entries_oneHash : entries oneHash = [([0, 0, 0, 0], [0])] := by decide

/-- A callback that stops at the only entry makes one call in either map; the array map counts it
and the hash map does not. -/
theorem last_call_not_counted : entries oneArray = entries oneHash ∧
    (BpfMap.forEachElem 0 (fun _ _ n => (1, n + 1)) 0 0).exec oneArray =
      some (.ok (1, 1), oneArray) ∧
    (BpfMap.forEachElem 0 (fun _ _ n => (1, n + 1)) 0 0).exec oneHash =
      some (.ok (0, 1), oneHash) ∧
    ¬ (∃ count calls, Iterates 0 oneHash (fun _ _ n => (1, n + 1)) 0 count calls) ∧
    ¬ SameCount 0 oneArray oneHash (fun _ _ n => (1, n + 1)) 0 := by
  have hstops : StopsIn (fun _ _ (n : Nat) => ((1 : Int32), n + 1)) [([0, 0, 0, 0], [0])] 0 := by
    decide
  refine ⟨entries_oneArray.trans entries_oneHash.symm, rfl, rfl, ?_, ?_⟩
  · rw [iterates_iff (LruMapRecency.listCrate_keepsRecency _ _) reached_oneHash, entries_oneHash]
    rintro ⟨-, hlast | hnot⟩
    · exact hlast
    · exact hnot hstops
  · rintro ⟨count, ctx₁, ctx₂, hexec₁, hexec₂⟩
    cases hexec₁
    cases hexec₂

end ExtKtrace.Bpf.ForEachElem
