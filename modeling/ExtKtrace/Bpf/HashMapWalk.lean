import ExtKtrace.Lib.CursorWalk
import ExtKtrace.Bpf.KeyLoop
import ExtKtrace.Bpf.HashMapRefinement

/-!
# Walking a hash map

A process asks for one key after another while the map changes, or takes every key out that it
is told.
-/

namespace ExtKtrace.Bpf.HashMapWalk
set_option autoImplicit false

open HashMapRefinement KeyLoop CursorWalk

/-- The order of the tree. -/
def Before (a b : Bytes) : Prop := compare a b = .lt

theorem Before.trans {a b c : Bytes} (hab : Before a b) (hbc : Before b c) : Before a c :=
  Std.TransCmp.lt_trans hab hbc

theorem not_before_self {a : Bytes} : ¬ Before a a := by
  have hself : compare a a = .eq := Std.ReflCmp.compare_self
  unfold Before
  rw [hself]
  exact fun h => nomatch h

theorem Before.asymm {a b : Bytes} (hab : Before a b) : ¬ Before b a :=
  fun hba => not_before_self (hab.trans hba)

theorem eq_of_not_before {a b : Bytes} (hab : ¬ Before a b) (hba : ¬ Before b a) : a = b := by
  unfold Before at hab hba
  cases h : compare a b with
  | lt => exact absurd h hab
  | eq => exact Std.LawfulEqCmp.eq_of_compare h
  | gt => exact absurd (Std.OrientedCmp.lt_of_gt h) hba

theorem head_sorted {l : List (Bytes × Bytes)} (hsorted : l.Pairwise fun a b => Before a.1 b.1)
    {e : Bytes × Bytes} (he : l.head? = some e) : ∀ e' ∈ l, ¬ Before e'.1 e.1 := by
  intro e' he'
  cases l with
  | nil => cases he
  | cons e₁ l =>
    cases he
    rcases List.mem_cons.mp he' with rfl | he'
    · exact not_before_self
    · exact ((List.pairwise_cons.mp hsorted).1 e' he').asymm

/-- The first entry behind a key of a sorted list. -/
theorem entryAfter_sorted {l : List (Bytes × Bytes)} {c : Bytes}
    (hsorted : l.Pairwise fun a b => Before a.1 b.1) (hc : c ∈ l.map Prod.fst) :
    (∀ e, entryAfter c l = some e → Before c e.1 ∧ ∀ e' ∈ l, Before c e'.1 → ¬ Before e'.1 e.1) ∧
      (entryAfter c l = none → ∀ e ∈ l, ¬ Before c e.1) := by
  induction l with
  | nil => cases hc
  | cons a l ih =>
    obtain ⟨ha, hl⟩ := List.pairwise_cons.mp hsorted
    by_cases heq : a.1 = c
    · have hafter : entryAfter c (a :: l) = l.head? := by
        rw [entryAfter, List.dropWhile_cons_of_neg (by simp [heq])]
        rfl
      rw [hafter]
      constructor
      · intro e he
        have hmem := List.mem_of_head? he
        refine ⟨heq ▸ ha e hmem, fun e' he' hbehind => ?_⟩
        rcases List.mem_cons.mp he' with rfl | he'
        · exact absurd (heq ▸ hbehind) not_before_self
        · exact head_sorted hl he e' he'
      · intro hnone e he hbehind
        rw [List.head?_eq_none_iff] at hnone
        subst hnone
        rw [List.mem_singleton.mp he, heq] at hbehind
        exact not_before_self hbehind
    · have hafter : entryAfter c (a :: l) = entryAfter c l := by
        rw [entryAfter, List.dropWhile_cons_of_pos (by simpa using heq)]
        rfl
      have hmem : c ∈ l.map Prod.fst := (List.mem_cons.mp hc).resolve_left (Ne.symm heq)
      obtain ⟨e, he, hec⟩ := List.mem_map.mp hmem
      have hskip : ¬ Before c a.1 := by
        rw [← hec]
        exact (ha e he).asymm
      obtain ⟨hsome, hnone⟩ := ih hl hmem
      rw [hafter]
      constructor
      · intro e' he'
        obtain ⟨hbehind, hleast⟩ := hsome e' he'
        refine ⟨hbehind, fun e'' he'' h => ?_⟩
        rcases List.mem_cons.mp he'' with rfl | he''
        · exact absurd h hskip
        · exact hleast e'' he'' h
      · intro hend e' he'
        rcases List.mem_cons.mp he' with rfl | he'
        · exact hskip
        · exact hnone hend e' he'

/-- Every stored key has the key size. -/
def KeysSized (m : BpfHashMap) : Prop := ∀ key ∈ m.data, key.length = m.keySize.toNat

def keySet (m : BpfHashMap) : Set Bytes := {key | key ∈ m.data}

theorem sorted_toList (m : BpfHashMap) :
    m.data.toList.Pairwise fun a b => Before a.1 b.1 := Std.TreeMap.ordered_keys_toList

theorem mem_toList_keys {m : BpfHashMap} {key : Bytes} :
    key ∈ m.data.toList.map Prod.fst ↔ key ∈ m.data := by
  rw [Std.TreeMap.map_fst_toList_eq_keys, Std.TreeMap.mem_keys]

/-- The maps a walk from `m₀` has seen and the keys it was told, newest first. -/
inductive Walk (m₀ : BpfHashMap) : List BpfHashMap → List Bytes → Prop where
  | start : Walk m₀ [m₀] []
  | told {m m' : BpfHashMap} {maps : List BpfHashMap} {found : List Bytes} {key : Bytes} :
      Walk m₀ (m :: maps) found →
      (BpfHashMap.getNextKey found.head? (List.replicate m.keySize.toNat 0)).exec m =
        some (.ok key, m') →
      Walk m₀ (m' :: m :: maps) (key :: found)
  | call {m m' : BpfHashMap} {maps : List BpfHashMap} {found : List Bytes} {op : Op} {a : Answer} :
      Walk m₀ (m :: maps) found → step m op = some (a, m') →
      (∀ cursor, found.head? = some cursor → cursor ∈ m.data → cursor ∈ m'.data) →
      Walk m₀ (m' :: m :: maps) found

/-- What a turn answers: the next key, or that there is none. -/
theorem exec_getNextKey {m : BpfHashMap} (hm : KeysSized m) {found : List Bytes}
    (hcursor : ∀ c, found.head? = some c → c ∈ m.data) :
    ∃ r, (BpfHashMap.getNextKey found.head? (List.replicate m.keySize.toNat 0)).exec m =
        some (r, m) ∧
      ((∃ key, r = .ok key ∧ Next Before (keySet m) found key) ∨
        (r = .error .ENOENT ∧ ∀ key ∈ m.data, ¬ Behind Before found key)) := by
  have hentries : ∀ e ∈ m.data.toList, e.1 ∈ m.data := fun e he =>
    mem_toList_keys.mp (List.mem_map.mpr ⟨e, he, rfl⟩)
  have hexec := @exec_nextKeyOf_sized BpfHashMap BpfHashMap.keySize (fun m => m.data.toList)
    (fun m => m.data.contains) found.head? (List.replicate m.keySize.toNat 0) m
    List.length_replicate (fun c hc => hm c (hcursor c hc)) fun e he => hm e.1 (hentries e he)
  refine ⟨_, hexec, ?_⟩
  have hentry : ∀ key ∈ m.data, ∃ e ∈ m.data.toList, e.1 = key := fun key hkey =>
    List.mem_map.mp (mem_toList_keys.mpr hkey)
  cases hfound : found.head? with
  | none =>
    have hbehind : ∀ key, Behind Before found key := fun key c hc => by
      rw [hfound] at hc
      cases hc
    simp only [nextOf]
    cases hhead : m.data.toList.head? with
    | none =>
      refine .inr ⟨rfl, fun key hkey => ?_⟩
      obtain ⟨e, he, -⟩ := hentry key hkey
      rw [List.head?_eq_none_iff.mp hhead] at he
      cases he
    | some e =>
      have hmem := hentries e (List.mem_of_head? hhead)
      refine .inl ⟨e.1, rfl, hmem, hbehind e.1, fun key hkey _ => ?_⟩
      obtain ⟨e', he', rfl⟩ := hentry key hkey
      exact head_sorted (sorted_toList m) hhead e' he'
  | some c =>
    have hc := hcursor c hfound
    have hbehind : ∀ key, Behind Before found key ↔ Before c key := fun key =>
      ⟨fun h => h c hfound, fun h c' hc' => by
        rw [hfound] at hc'
        cases hc'
        exact h⟩
    have hcontains : m.data.contains c = true := hc
    obtain ⟨hsome, hnone⟩ := entryAfter_sorted (sorted_toList m) (mem_toList_keys.mpr hc)
    simp only [nextOf, hcontains, if_true]
    cases hafter : entryAfter c m.data.toList with
    | none =>
      refine .inr ⟨rfl, fun key hkey => ?_⟩
      obtain ⟨e', he', rfl⟩ := hentry key hkey
      rw [hbehind]
      exact hnone hafter e' he'
    | some e =>
      obtain ⟨hlt, hmin⟩ := hsome e hafter
      refine .inl ⟨e.1, rfl, hentries e (entryAfter_mem hafter), (hbehind e.1).mpr hlt, ?_⟩
      intro key hkey hkeybehind
      obtain ⟨e', he', rfl⟩ := hentry key hkey
      exact hmin e' he' ((hbehind e'.1).mp hkeybehind)

variable {keySize valueSize maxEntries : UInt32}

theorem keysSized_of_represents {m : BpfHashMap} {b : Abstract keySize valueSize maxEntries}
    (h : Represents m b) : KeysSized m := by
  intro key hkey
  rw [h.key_size]
  exact h.keys key hkey

/-- A walk through maps is one through their keys. -/
theorem Walk.keys {m₀ m : BpfHashMap} {maps : List BpfHashMap} {found : List Bytes}
    {b₀ : Abstract keySize valueSize maxEntries} (h₀ : Represents m₀ b₀)
    (h : Walk m₀ (m :: maps) found) :
    (∃ b : Abstract keySize valueSize maxEntries, Represents m b) ∧
      CursorWalk.Walk Before (keySet m₀) ((m :: maps).map keySet) found := by
  generalize hall : m :: maps = all at h
  induction h generalizing m maps with
  | start =>
    cases hall
    exact ⟨⟨b₀, h₀⟩, .start⟩
  | @told m₁ m' maps₁ found key hwalk hexec ih =>
    cases hall
    obtain ⟨⟨b, hb⟩, hkeys⟩ := ih rfl
    have hcursor := hkeys.cursor_mem _ _ rfl
    obtain ⟨r, hr, hanswer⟩ := exec_getNextKey (keysSized_of_represents hb) hcursor
    cases hexec.symm.trans hr
    refine ⟨⟨b, hb⟩, ?_⟩
    rcases hanswer with ⟨_, ⟨⟩, hnext⟩ | ⟨⟨⟩, -⟩
    exact .change (.told hkeys hnext) fun _ _ hc => hc
  | @call m₁ m' maps₁ found op a hwalk hstep hkeep ih =>
    cases hall
    obtain ⟨⟨b, hb⟩, hkeys⟩ := ih rfl
    obtain ⟨m₂, hstep', hb'⟩ := step_refines m₁ b op hb
    cases hstep.symm.trans hstep'
    exact ⟨⟨_, hb'⟩, .change hkeys hkeep⟩

/-- What a walk is told, and what it is answered next. -/
structure WalksWell (m₀ m : BpfHashMap) (maps : List BpfHashMap) (found : List Bytes) :
    Prop where
  increasing : found.reverse.Pairwise Before
  present : ∀ key ∈ found, ∃ m' ∈ m :: maps, key ∈ m'.data
  bounded : ∀ inserted : List Bytes,
    (∀ m' ∈ m :: maps, ∀ key ∈ m'.data, key ∈ m₀.data ∨ key ∈ inserted) →
    found.length ≤ m₀.data.size + inserted.length
  answers : ∃ r, (BpfHashMap.getNextKey found.head? (List.replicate m.keySize.toNat 0)).exec m =
      some (r, m) ∧ ((∃ key, r = .ok key) ∨ r = .error .ENOENT) ∧
      (r = .error .ENOENT → ∀ key, (∀ m' ∈ m :: maps, key ∈ m'.data) → found.count key = 1)

theorem walksWell {m₀ m : BpfHashMap} {maps : List BpfHashMap} {found : List Bytes}
    {b₀ : Abstract keySize valueSize maxEntries} (h₀ : Represents m₀ b₀)
    (h : Walk m₀ (m :: maps) found) : WalksWell m₀ m maps found := by
  obtain ⟨⟨b, hb⟩, hkeys⟩ := h.keys h₀
  have hincreasing := hkeys.increasing @Before.trans
  have hnodup : found.Nodup := by
    refine hincreasing.imp ?_
    rintro a b hlt rfl
    exact not_before_self hlt
  have hpresent : ∀ key ∈ found, ∃ m' ∈ m :: maps, key ∈ m'.data := by
    intro key hkey
    obtain ⟨s, hs, hmem⟩ := hkeys.mem_seen hkey
    obtain ⟨m', hm', rfl⟩ := List.mem_map.mp hs
    exact ⟨m', hm', hmem⟩
  refine ⟨List.pairwise_reverse.mpr hincreasing, hpresent, ?_, ?_⟩
  · intro inserted hinserted
    have hsub : found ⊆ m₀.data.keys ++ inserted := by
      intro key hkey
      obtain ⟨m', hm', hmem⟩ := hpresent key hkey
      rw [List.mem_append, Std.TreeMap.mem_keys]
      exact hinserted m' hm' key hmem
    have hle := (hnodup.subperm hsub).length_le
    rwa [List.length_append, Std.TreeMap.length_keys] at hle
  · obtain ⟨r, hr, hanswer⟩ := exec_getNextKey (keysSized_of_represents hb)
      (hkeys.cursor_mem _ _ rfl)
    refine ⟨r, hr, ?_, ?_⟩
    · rcases hanswer with ⟨key, hok, -⟩ | ⟨hend, -⟩
      · exact .inl ⟨key, hok⟩
      · exact .inr hend
    · rintro hend key hall
      rcases hanswer with ⟨_, hok, -⟩ | ⟨-, hnone⟩
      · rw [hend] at hok
        cases hok
      · have hmem : key ∈ found := by
          refine hkeys.mem_found @eq_of_not_before ?_ (hnone key (hall m List.mem_cons_self))
          intro s hs
          obtain ⟨m', hm', rfl⟩ := List.mem_map.mp hs
          exact hall m' hm'
        exact List.count_eq_one_of_mem hnodup hmem

abbrev drain (m : BpfHashMap) (last : Option Bytes) (turns : Nat) : List Bytes × LoopEnd :=
  loop BpfHashMap.keySize BpfHashMap.getNextKey BpfHashMap.deleteElem m last turns

/-- Behind a key that is gone the walk starts again. -/
theorem exec_getNextKey_gone {m : BpfHashMap} (hm : KeysSized m) {last : Option Bytes}
    (hlast : ∀ k, last = some k → k.length = m.keySize.toNat ∧ k ∉ m.data) :
    (BpfHashMap.getNextKey last (List.replicate m.keySize.toNat 0)).exec m =
      some (m.data.keys.head?.elim (.error .ENOENT) .ok, m) := by
  have hexec := @exec_nextKeyOf_sized BpfHashMap BpfHashMap.keySize (fun m => m.data.toList)
    (fun m => m.data.contains) last (List.replicate m.keySize.toNat 0) m
    List.length_replicate (fun c hc => (hlast c hc).1) fun e he =>
      hm e.1 (mem_toList_keys.mp (List.mem_map.mpr ⟨e, he, rfl⟩))
  have hnext : nextOf (fun m : BpfHashMap => m.data.toList) (fun m => m.data.contains) last m =
      m.data.toList.head? := by
    cases last with
    | none => rfl
    | some k => exact if_neg (hlast k rfl).2
  rw [hnext, ← List.head?_map, Std.TreeMap.map_fst_toList_eq_keys] at hexec
  exact hexec

/-- The last key is gone, so that every turn starts from the first key. -/
theorem drain_all (n : Nat) {m : BpfHashMap} {last : Option Bytes} (hm : KeysSized m)
    (hsize : m.data.size = n)
    (hlast : ∀ k, last = some k → k.length = m.keySize.toNat ∧ k ∉ m.data) :
    ∃ found, drain m last (n + 1) = (found, .ended .ENOENT) ∧ found.Perm m.data.keys := by
  induction n generalizing m last with
  | zero =>
    have hkeys : m.data.keys = [] := by
      rw [← List.length_eq_zero_iff, Std.TreeMap.length_keys, hsize]
    have hexec := exec_getNextKey_gone hm hlast
    rw [hkeys] at hexec
    exact ⟨[], loop_end hexec 0, hkeys ▸ .nil⟩
  | succ n ih =>
    obtain ⟨key, rest, hkeys⟩ : ∃ key rest, m.data.keys = key :: rest := by
      refine List.exists_cons_of_length_pos ?_
      rw [Std.TreeMap.length_keys, hsize]
      exact Nat.succ_pos n
    have hmem : key ∈ m.data := Std.TreeMap.mem_keys.mp (hkeys ▸ List.mem_cons_self)
    have hexec := exec_getNextKey_gone hm hlast
    rw [hkeys] at hexec
    have hdelete : (BpfHashMap.deleteElem key).exec m =
        some (.ok (), { m with data := m.data.erase key }) := by
      rw [BpfHashMap.exec_deleteElem, if_neg (not_not_intro (hm key hmem))]
    have hsize' : (m.data.erase key).size = n := by
      have hcontains : m.data.contains key = true := hmem
      rw [Std.TreeMap.size_erase, if_pos hcontains, hsize, Nat.add_sub_cancel]
    have hgone : key ∉ m.data.erase key := by simp
    obtain ⟨found, hdrain, hperm⟩ := @ih { m with data := m.data.erase key } (some key)
      (fun k hk => hm k (Std.TreeMap.mem_of_mem_erase hk)) hsize'
      (by rintro k ⟨⟩; exact ⟨hm key hmem, hgone⟩)
    refine ⟨key :: found, ?_, (hperm.cons key).trans ?_⟩
    · refine (loop_turn hexec hdelete (n + 1)).trans ?_
      exact congrArg (fun r : List Bytes × LoopEnd => (key :: r.1, r.2)) hdrain
    · refine (List.perm_ext_iff_of_nodup ?_ Std.TreeMap.nodup_keys).mpr fun k => ?_
      · refine List.nodup_cons.mpr ⟨fun h => hgone (Std.TreeMap.mem_keys.mp h), ?_⟩
        exact Std.TreeMap.nodup_keys
      · rw [List.mem_cons, Std.TreeMap.mem_keys, Std.TreeMap.mem_keys, Std.TreeMap.mem_erase,
          ne_eq, Std.compare_eq_iff_eq]
        by_cases hk : k = key
        · simp [hk, hmem]
        · simp [hk, Ne.symm hk]

/-- The loop that takes out what it is told ends with `ENOENT` after every key was told once. -/
def DrainsAll (m : BpfHashMap) : Prop :=
  ∃ found, drain m none (m.data.size + 1) = (found, .ended .ENOENT) ∧ found.Perm m.data.keys

/-- Every walk through a map that any calls have led to is told increasing keys, among them each
key that was there all the time; and the draining loop is told all keys. -/
theorem hashMap_walks (mapMeta : BpfMapMeta) (new m₀ : BpfHashMap)
    (hnew : BpfHashMap.new mapMeta = .ok new) (ops : List Op) (answers : List Answer)
    (hrun : Machine.run step new ops = some (answers, m₀)) :
    (∀ m maps found, Walk m₀ (m :: maps) found → WalksWell m₀ m maps found) ∧ DrainsAll m₀ := by
  obtain ⟨m', hrun', hm'⟩ := step_refines.run ops (new_represents_empty hnew)
  cases hrun.symm.trans hrun'
  refine ⟨fun m maps found h => walksWell hm' h, ?_⟩
  exact drain_all m₀.data.size (keysSized_of_represents hm') rfl fun k hk => nomatch hk

/-- A walk through keys 1 and 3 that is told 2 as well, which is stored on the way. -/
theorem hashMap_walks_inserted : ∃ new m₀ m, ∃ answers, ∃ maps,
    BpfHashMap.new ⟨1, 1, 3, 0⟩ = .ok new ∧
    Machine.run step new [.update [3] [30] 0, .update [1] [10] 0] = some (answers, m₀) ∧
    Walk m₀ (m :: maps) [[3], [2], [1]] ∧ WalksWell m₀ m maps [[3], [2], [1]] ∧ DrainsAll m₀ := by
  have hwalk : ∃ answers m₀, Machine.run step ⟨3, 1, 1, ∅⟩
      [.update [3] [30] 0, .update [1] [10] 0] = some (answers, m₀) ∧
      ∃ m maps, Walk m₀ (m :: maps) [[3], [2], [1]] := by
    refine ⟨_, _, rfl, _, _, .told (.told (@Walk.call _ _ _ _ _ (.update [2] [20] 0) _
      (.told .start rfl) rfl ?_) rfl) rfl⟩
    rintro c ⟨⟩ _
    decide +kernel
  obtain ⟨answers, m₀, hrun, m, maps, hwalk⟩ := hwalk
  obtain ⟨hwalks, hdrains⟩ := hashMap_walks ⟨1, 1, 3, 0⟩ ⟨3, 1, 1, ∅⟩ m₀ rfl _ _ hrun
  exact ⟨_, m₀, m, answers, maps, rfl, hrun, hwalk, hwalks m maps _ hwalk, hdrains⟩

end ExtKtrace.Bpf.HashMapWalk
