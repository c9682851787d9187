import Mathlib.Data.List.Range
import ExtKtrace.Lib.Bisect
import ExtKtrace.Ksym.Loaded

/-!
# Lookup by name

Names are in order along `kallsyms_seqs_of_names`, so that the binary search finds a match if
there is one, and the matches are the positions around it.
-/

namespace ExtKtrace.Ksym
set_option autoImplicit false
open Utf8 StableSort KallsymsBlob Bisect

section Order
variable {symbols : List Symbol}

theorem byName_le {i j : Nat} {s s' : Symbol} (hij : i < j)
    (hi : (byName symbols)[i]? = some s) (hj : (byName symbols)[j]? = some s') :
    (compare (encode s.name) (encode s'.name)).isLE = true := by
  obtain ⟨hli, rfl⟩ := List.getElem?_eq_some_iff.mp hi
  obtain ⟨hlj, rfl⟩ := List.getElem?_eq_some_iff.mp hj
  have hsorted : SortedBy (fun s => encode s.name) (byName symbols) := sorted_sortByKey _ _
  exact hsorted.getElem hij hlj

theorem compare_encode_eq {a b : Str} : compare (encode a) (encode b) = .eq ↔ a = b := by
  rw [Std.LawfulEqCmp.compare_eq_iff_eq]
  exact encode_injective.eq_iff

/-- The name at a position of the name order. -/
def nameOf (symbols : List Symbol) (i : Nat) : Str :=
  (((byName symbols)[i]?).map fun s => s.name).getD []

theorem nameOf_eq {i : Nat} {s : Symbol} (h : (byName symbols)[i]? = some s) :
    nameOf symbols i = s.name := by
  unfold nameOf
  rw [h]
  rfl

/-- How a name compares to the one at a position. -/
def cmpAt (names : Nat → Str) (name : Str) (i : Nat) : Ordering :=
  compare (encode name) (encode (names i))

theorem cmpAt_eq {name : Str} {i : Nat} {s : Symbol} (h : (byName symbols)[i]? = some s) :
    cmpAt (nameOf symbols) name i = compare (encode name) (encode s.name) := by
  unfold cmpAt
  rw [nameOf_eq h]

theorem ascending_cmpAt (name : Str) :
    Ascending (cmpAt (nameOf symbols) name) (byName symbols).length where
  lt := by
    intro i j hij hj hlt
    have hi := List.getElem?_eq_getElem (l := byName symbols) (i := i) (by omega)
    have hj := List.getElem?_eq_getElem hj
    rw [cmpAt_eq hi] at hlt
    rw [cmpAt_eq hj]
    exact Std.TransCmp.lt_of_lt_of_isLE hlt (byName_le hij hi hj)
  gt := by
    intro i j hij hj hgt
    have hi := List.getElem?_eq_getElem (l := byName symbols) (i := i) (by omega)
    have hj := List.getElem?_eq_getElem hj
    rw [cmpAt_eq hj] at hgt
    rw [cmpAt_eq hi]
    have hlt := Std.OrientedCmp.lt_of_gt hgt
    exact Std.OrientedCmp.gt_of_lt (Std.TransCmp.lt_of_isLE_of_lt (byName_le hij hi hj) hlt)

/-- Between two symbols of one name there are only symbols of that name. -/
theorem name_between {i j k : Nat} {name : Str} (hij : i ≤ j) (hjk : j ≤ k) {s r u : Symbol}
    (hi : (byName symbols)[i]? = some s) (hj : (byName symbols)[j]? = some r)
    (hk : (byName symbols)[k]? = some u) (hs : s.name = name) (hu : u.name = name) :
    r.name = name := by
  rcases Nat.lt_or_eq_of_le hij with hlt | rfl
  · rcases Nat.lt_or_eq_of_le hjk with hlt' | rfl
    · have hle := byName_le hlt hi hj
      have hge := byName_le hlt' hj hk
      rw [hs] at hle
      rw [hu] at hge
      exact compare_encode_eq.mp (Std.OrientedCmp.isLE_antisymm hge hle)
    · rw [hj] at hk
      rw [Option.some.inj hk, hu]
  · rw [hi] at hj
    rw [← Option.some.inj hj, hs]

/-- The symbols of one name are in the order of the list. -/
theorem filter_byName (symbols : List Symbol) (name : Str) :
    (byName symbols).filter (fun s => s.name = name) =
      symbols.filter fun s => s.name = name := by
  have hkey : (fun s : Symbol => decide (s.name = name)) =
      fun s => decide (encode s.name = encode name) := by
    funext s
    rw [decide_eq_decide]
    exact encode_injective.eq_iff.symm
  rw [hkey]
  exact stable_sortByKey (fun s => encode s.name) symbols (encode name)

theorem map_interval {α β : Type} {l : List α} {f : Nat → β} {g : α → β}
    (h : ∀ i a, l[i]? = some a → f i = g a) {low high : Nat} (hhigh : high < l.length) :
    (List.range' low (high + 1 - low)).map f = ((l.take (high + 1)).drop low).map g := by
  have hlen : (l.take (high + 1)).length = high + 1 := by
    rw [List.length_take]
    omega
  refine List.ext_getElem ?_ fun i hi hi' => ?_
  · rw [List.length_map, List.length_range', List.length_map, List.length_drop, hlen]
  · rw [List.length_map, List.length_range'] at hi
    rw [List.getElem_map, List.getElem_map, List.getElem_range', List.getElem_drop,
      List.getElem_take, Nat.one_mul]
    exact h _ _ (List.getElem?_eq_getElem (by omega))

/-- In a list in address order the first symbol of a kind is its lowest one. -/
theorem head?_lowest (hsorted : SortedBy (fun s => s.addr) symbols) {p : Symbol → Bool}
    {s : Symbol} (hs : s ∈ symbols) (hp : p s = true) :
    ∃ first, (symbols.filter p).head? = some first ∧ first.addr ≤ s.addr := by
  have hmem : s ∈ symbols.filter p := List.mem_filter.mpr ⟨hs, hp⟩
  have hfiltered := List.Pairwise.filter p hsorted
  cases hlist : symbols.filter p with
  | nil =>
    rw [hlist] at hmem
    exact absurd hmem List.not_mem_nil
  | cons first rest =>
    rw [hlist] at hmem hfiltered
    refine ⟨first, rfl, ?_⟩
    rcases List.mem_cons.mp hmem with rfl | hrest
    · exact UInt64.le_refl _
    · exact Std.isLE_compare.mp (List.rel_of_pairwise_cons hfiltered hrest)

end Order

/-- The names that the reader has along the name order. -/
def Reads (m : KallsymsMapped) (names : Nat → Str) : Prop :=
  ∀ i < m.kallsymsNumSyms, m.nameAt i = .ok (names i)

namespace Reads
variable {m : KallsymsMapped} {names : Nat → Str} (h : Reads m names)
include h

theorem searchName_eq (name : Str) {low high : Nat} (hhigh : high < m.kallsymsNumSyms) :
    m.searchName name low high = .ok (probe (cmpAt names name) low high) := by
  fun_induction probe (cmpAt names name) low high with
  | case1 low high hle mid heq =>
    have hname : m.nameAt (low + (high - low) / 2) = .ok (names mid) := h mid (by omega)
    unfold KallsymsMapped.searchName
    rw [if_pos hle]
    simp only [hname, ok_bind, show compare (encode name) (encode (names mid)) = _ from heq]
    rfl
  | case2 low high hle mid hlt hzero =>
    have hname : m.nameAt (low + (high - low) / 2) = .ok (names mid) := h mid (by omega)
    unfold KallsymsMapped.searchName
    rw [if_pos hle]
    simp only [hname, ok_bind, show compare (encode name) (encode (names mid)) = _ from hlt]
    exact if_pos hzero
  | case3 low high hle mid hlt hzero ih =>
    have hname : m.nameAt (low + (high - low) / 2) = .ok (names mid) := h mid (by omega)
    unfold KallsymsMapped.searchName
    rw [if_pos hle]
    simp only [hname, ok_bind, show compare (encode name) (encode (names mid)) = _ from hlt]
    exact (if_neg hzero).trans (ih (by omega))
  | case4 low high hle mid hgt ih =>
    have hname : m.nameAt (low + (high - low) / 2) = .ok (names mid) := h mid (by omega)
    unfold KallsymsMapped.searchName
    rw [if_pos hle]
    simp only [hname, ok_bind, show compare (encode name) (encode (names mid)) = _ from hgt]
    exact ih hhigh
  | case5 low high hle =>
    unfold KallsymsMapped.searchName
    rw [if_neg hle]

theorem firstMatch_eq (name : Str) {low : Nat} (hlow : low < m.kallsymsNumSyms) :
    ∃ i ≤ low, m.firstMatch name low = .ok i ∧
      (∀ j, i ≤ j → j < low → names j = name) ∧ (0 < i → names (i - 1) ≠ name) := by
  induction low with
  | zero =>
    exact ⟨0, Nat.le_refl _, rfl, fun _ _ hj => absurd hj (Nat.not_lt_zero _),
      fun hpos => absurd hpos (Nat.lt_irrefl 0)⟩
  | succ low ih =>
    unfold KallsymsMapped.firstMatch
    rw [h low (by omega), ok_bind]
    by_cases hmatch : names low = name
    · rw [if_neg (not_not_intro hmatch)]
      obtain ⟨i, hi, hrun, hsame, hbefore⟩ := ih (by omega)
      refine ⟨i, by omega, hrun, ?_, hbefore⟩
      intro j hij hj
      rcases Nat.lt_or_eq_of_le (Nat.le_of_lt_succ hj) with hlt | rfl
      · exact hsame j hij hlt
      · exact hmatch
    · rw [if_pos hmatch]
      exact ⟨low + 1, Nat.le_refl _, rfl, fun j hij hj => by omega, fun _ => hmatch⟩

theorem lastMatch_eq (name : Str) {high : Nat} (hhigh : high < m.kallsymsNumSyms) :
    ∃ i, high ≤ i ∧ i < m.kallsymsNumSyms ∧ m.lastMatch name high = .ok i ∧
      (∀ j, high < j → j ≤ i → names j = name) ∧
      (i + 1 < m.kallsymsNumSyms → names (i + 1) ≠ name) := by
  fun_induction KallsymsMapped.lastMatch m name high with
  | case1 high hlt ih =>
    rw [h (high + 1) (by omega), ok_bind]
    by_cases hmatch : names (high + 1) = name
    · rw [if_neg (not_not_intro hmatch)]
      obtain ⟨i, hi, hlast, hrun, hsame, hafter⟩ := ih (by omega)
      refine ⟨i, by omega, hlast, hrun, ?_, hafter⟩
      intro j hj hji
      rcases Nat.lt_or_eq_of_le hj with hlt' | heq
      · exact hsame j hlt' hji
      · rw [← heq]
        exact hmatch
    · rw [if_pos hmatch]
      exact ⟨high, Nat.le_refl _, hhigh, rfl, fun j hj hji => by omega, fun _ => hmatch⟩
  | case2 high hge =>
    exact ⟨high, Nat.le_refl _, hhigh, rfl, fun j hj hji => by omega, fun hlt => by omega⟩

/-- When every name can be read a search comes to an end. -/
theorem lookupNames_ok (name : Str) (needEnd : Bool) :
    ∃ r, m.lookupNames name needEnd = .ok r := by
  unfold KallsymsMapped.lookupNames
  by_cases hempty : m.kallsymsNumSyms = 0
  · rw [if_pos hempty]
    exact ⟨_, rfl⟩
  have hrun : m.searchName name 0 (m.kallsymsNumSyms - 1) = _ := h.searchName_eq name (by omega)
  rw [if_neg hempty, hrun, ok_bind]
  cases hprobe : probe (cmpAt names name) 0 (m.kallsymsNumSyms - 1) with
  | none => exact ⟨_, rfl⟩
  | some mid =>
    have hmid := (probe_eq_some hprobe).2.1
    obtain ⟨low, _, hfirst, _⟩ := h.firstMatch_eq name (show mid < _ by omega)
    obtain ⟨high, _, _, hlast, _⟩ := h.lastMatch_eq name (show mid < _ by omega)
    simp only [hfirst, ok_bind]
    cases needEnd with
    | true =>
      rw [if_pos rfl, hlast]
      exact ⟨_, rfl⟩
    | false => exact ⟨_, rfl⟩

end Reads

/-- The reader has the names of a list of symbols. -/
structure Names (m : KallsymsMapped) (symbols : List Symbol) : Prop where
  numSyms : m.kallsymsNumSyms = (byName symbols).length
  nameAt : ∀ i s, (byName symbols)[i]? = some s → m.nameAt i = .ok s.name

namespace Names
variable {m : KallsymsMapped} {symbols : List Symbol} (h : Names m symbols)
include h

theorem reads : Reads m (nameOf symbols) := by
  intro i hi
  rw [h.numSyms] at hi
  have hget := List.getElem?_eq_getElem hi
  rw [nameOf_eq hget]
  exact h.nameAt i _ hget

/-- A search finds the positions of the name, and nothing when there are none. -/
theorem lookupNames_eq (name : Str) :
    ((∀ s ∈ symbols, s.name ≠ name) ∧ ∀ needEnd, m.lookupNames name needEnd = .ok none) ∨
      ∃ low high, low ≤ high ∧ high < (byName symbols).length ∧
        m.lookupNames name true = .ok (some (low, high)) ∧
        m.lookupNames name false = .ok (some (low, 0)) ∧
        ∀ k, (∃ s, (byName symbols)[k]? = some s ∧ s.name = name) ↔ low ≤ k ∧ k ≤ high := by
  have hmem : ∀ s, s ∈ byName symbols ↔ s ∈ symbols := fun s => (perm_sortByKey _ _).mem_iff
  have hread : ∀ {k}, k < (byName symbols).length →
      ∃ s, (byName symbols)[k]? = some s ∧ nameOf symbols k = s.name := by
    intro k hk
    have hget := List.getElem?_eq_getElem hk
    exact ⟨_, hget, nameOf_eq hget⟩
  by_cases hempty : m.kallsymsNumSyms = 0
  · have hnil := List.eq_nil_of_length_eq_zero (h.numSyms.symm.trans hempty)
    refine Or.inl ⟨fun s hs => ?_, fun needEnd => ?_⟩
    · rw [← hmem, hnil] at hs
      exact absurd hs List.not_mem_nil
    · unfold KallsymsMapped.lookupNames
      rw [if_pos hempty]
  have hnum := h.numSyms
  have hrun : m.searchName name 0 (m.kallsymsNumSyms - 1) = _ :=
    h.reads.searchName_eq name (by omega)
  cases hprobe : probe (cmpAt (nameOf symbols) name) 0 (m.kallsymsNumSyms - 1) with
  | none =>
    refine Or.inl ⟨fun s hs heq => ?_, fun needEnd => ?_⟩
    · obtain ⟨i, hi, hget⟩ := List.mem_iff_getElem.mp ((hmem s).mpr hs)
      have hget' : (byName symbols)[i]? = some s := by rw [List.getElem?_eq_getElem hi, hget]
      refine probe_eq_none (ascending_cmpAt name) (by omega) hprobe i (Nat.zero_le _) (by omega) ?_
      rw [cmpAt_eq hget', heq]
      exact compare_encode_eq.mpr rfl
    · unfold KallsymsMapped.lookupNames
      rw [if_neg hempty, hrun, hprobe]
      rfl
  | some mid =>
    obtain ⟨_, hmid, heq⟩ := probe_eq_some hprobe
    obtain ⟨r, hget, _⟩ := hread (show mid < _ by omega)
    rw [cmpAt_eq hget] at heq
    have hname : r.name = name := (compare_encode_eq.mp heq).symm
    obtain ⟨low, hlow, hfirst, hsame, hbefore⟩ :=
      h.reads.firstMatch_eq name (show mid < _ by omega)
    obtain ⟨high, hhigh, hlt, hlast, hsame', hafter⟩ :=
      h.reads.lastMatch_eq name (show mid < _ by omega)
    refine Or.inr ⟨low, high, by omega, by omega, ?_, ?_, fun k => ⟨?_, ?_⟩⟩
    · unfold KallsymsMapped.lookupNames
      rw [if_neg hempty, hrun, hprobe]
      simp only [ok_bind, hfirst, if_true, hlast]
      rfl
    · unfold KallsymsMapped.lookupNames
      rw [if_neg hempty, hrun, hprobe]
      simp only [ok_bind, hfirst]
      rfl
    · rintro ⟨s, hs, rfl⟩
      -- A match beside the interval would make its neighbour a match.
      constructor
      · by_contra hk
        obtain ⟨u, hu, hnameu⟩ := hread (show low - 1 < _ by omega)
        exact hbefore (by omega)
          (hnameu.trans (name_between (by omega) (by omega) hs hu hget rfl hname))
      · by_contra hk
        have hltk := (List.getElem?_eq_some_iff.mp hs).1
        obtain ⟨u, hu, hnameu⟩ := hread (show high + 1 < _ by omega)
        exact hafter (by omega)
          (hnameu.trans (name_between (by omega) (by omega) hget hu hs hname rfl))
    · rintro ⟨hk, hk'⟩
      obtain ⟨s, hs, hnames⟩ := hread (show k < _ by omega)
      refine ⟨s, hs, ?_⟩
      rw [← hnames]
      rcases Nat.lt_trichotomy k mid with hlt | rfl | hgt
      · exact hsame k hk hlt
      · rw [nameOf_eq hget]
        exact hname
      · exact hsame' k hgt hk'

end Names

namespace Loaded
variable (t : Loaded)

theorem seqs : ∃ positions : List Nat,
    t.mapped.kallsymsSeqsOfNames = positions.map UInt32.ofNat ∧
      List.Forall₂ (fun j s => (byAddress t.symbols)[j]? = some s) positions (byName t.symbols) := by
  rw [t.mapped_eq]
  exact t.generated.seqs

theorem count_of_fits (hfits : t.Fits) : t.symbols.length ≤ 2 ^ 32 := by
  have hcount := t.generated.count_le t.short
  have hfits' : t.table.kallsymsNames.length < 2 ^ 32 := hfits
  omega

/-- The name order refers to the symbols by their position in address order. -/
theorem seq_at (hcount : t.symbols.length ≤ 2 ^ 32) {i : Nat} {s : Symbol}
    (h : (byName t.symbols)[i]? = some s) :
    ∃ seq : UInt32, t.mapped.kallsymsSeqsOfNames[i]? = some seq ∧
      (byAddress t.symbols)[seq.toNat]? = some s := by
  obtain ⟨positions, hseqs, hpositions⟩ := t.seqs
  obtain ⟨hlen, hget⟩ := List.forall₂_iff_get.mp hpositions
  obtain ⟨hlt, rfl⟩ := List.getElem?_eq_some_iff.mp h
  have hlt' : i < positions.length := hlen ▸ hlt
  have hposition : (byAddress t.symbols)[positions[i]]? = some (byName t.symbols)[i] :=
    hget i hlt' hlt
  have hbound := (List.getElem?_eq_some_iff.mp hposition).1
  rw [Generated.length_byAddress] at hbound
  refine ⟨UInt32.ofNat positions[i], ?_, ?_⟩
  · rw [hseqs, List.getElem?_map, List.getElem?_eq_getElem hlt']
    rfl
  · rw [UInt32.toNat_ofNat', Nat.mod_eq_of_lt (by omega)]
    exact hposition

theorem lookupNameByIdx_eq (hfits : t.Fits) {i : Nat} {s : Symbol}
    (h : (byName t.symbols)[i]? = some s) : t.mapped.lookupNameByIdx i = some s.addr := by
  obtain ⟨seq, hseq, hget⟩ := t.seq_at (t.count_of_fits hfits) h
  unfold KallsymsMapped.lookupNameByIdx
  rw [hseq]
  show t.mapped.kallsymsAddresses[seq.toNat]? = _
  rw [t.addresses, List.getElem?_map, hget]
  rfl

section Readable
variable (hnames : ∀ s ∈ t.symbols, s.name ≠ [])
  (hcount : (chosenTokens t.hash t.symbols).length < MAX_TOKEN) (hfits : t.Fits)
include hnames hcount hfits

theorem names : Names t.mapped t.symbols where
  numSyms := by rw [t.numSyms, Generated.length_byAddress, Generated.length_byName]
  nameAt := by
    intro i s h
    obtain ⟨seq, hseq, hget⟩ := t.seq_at (t.count_of_fits hfits) h
    have hmem : s ∈ t.symbols := (perm_sortByKey _ _).mem_iff.mp (List.mem_of_getElem? hget)
    have hindex := index_of_getElem? hseq
    obtain ⟨recs, hemitted⟩ := t.generated.emitted
    unfold KallsymsMapped.nameAt
    rw [hindex, ok_bind, t.symbolAt_eq hfits hget, if_neg (hnames s hmem), ok_bind, readBack,
      Ksym.readBack, takesLast_eq_false hemitted.tokens hcount]
    rfl

/-- A lookup by name comes to the first symbol of the name. -/
theorem lookupName_eq (name : Str) : t.mapped.lookupName name =
    .ok ((t.symbols.filter fun s => s.name = name).head?.map fun s => s.addr) := by
  rcases (t.names hnames hcount hfits).lookupNames_eq name with
    ⟨hnone, hrun⟩ | ⟨low, high, hle, hlt, _, hrun, hcarries⟩
  · have hfilter : (t.symbols.filter fun s => s.name = name) = [] := by
      rw [List.filter_eq_nil_iff]
      exact fun s hs => by simpa using hnone s hs
    unfold KallsymsMapped.lookupName
    rw [hrun, ok_bind, hfilter]
    rfl
  · obtain ⟨s, hget, hname⟩ := (hcarries low).mpr ⟨Nat.le_refl _, hle⟩
    have hhead : (t.symbols.filter fun s => s.name = name).head? = some s := by
      obtain ⟨hlow, rfl⟩ := List.getElem?_eq_some_iff.mp hget
      rw [← filter_byName]
      refine head?_filter hlow (decide_eq_true hname) fun j hj => ?_
      rw [decide_eq_false_iff_not]
      intro hj'
      have hcarried := (hcarries j).mp ⟨_, List.getElem?_eq_getElem (by omega), hj'⟩
      omega
    obtain ⟨seq, hseq, haddr⟩ := t.seq_at (t.count_of_fits hfits) hget
    have hindex := index_of_getElem? hseq
    unfold KallsymsMapped.lookupName
    rw [hrun, ok_bind]
    simp only [hindex, t.index_address haddr, ok_bind, hhead]
    rfl

/-- A search by name finds the interval of the name order that carries the name. Along it are
the addresses of the symbols of that name in the order of the list, the first one being what a
lookup returns. -/
theorem lookup_names_exact (name : Str) :
    ∃ found, t.mapped.lookupNames name true = .ok found ∧
      (found.isSome ↔ ∃ s ∈ t.symbols, s.name = name) ∧
      (found = none → t.mapped.lookupNames name false = .ok none) ∧
      (∀ low high, found = some (low, high) →
        t.mapped.lookupNames name false = .ok (some (low, 0)) ∧
        (∀ k, (∃ s, (byName t.symbols)[k]? = some s ∧ s.name = name) ↔ low ≤ k ∧ k ≤ high) ∧
        (List.range' low (high + 1 - low)).map t.mapped.lookupNameByIdx =
          (t.symbols.filter fun s => s.name = name).map fun s => some s.addr) ∧
      t.mapped.lookupName name =
        .ok ((t.symbols.filter fun s => s.name = name).head?.map fun s => s.addr) ∧
      (SortedBy (fun s => s.addr) t.symbols → ∀ s ∈ t.symbols, s.name = name →
        ∃ a ≤ s.addr, t.mapped.lookupName name = .ok (some a)) := by
  have hlookup := t.lookupName_eq hnames hcount hfits name
  have hlowest : SortedBy (fun s => s.addr) t.symbols → ∀ s ∈ t.symbols, s.name = name →
      ∃ a ≤ s.addr, t.mapped.lookupName name = .ok (some a) := by
    intro hsorted s hs hname
    obtain ⟨first, hhead, hle⟩ := head?_lowest hsorted hs
      (p := fun s => s.name = name) (decide_eq_true hname)
    rw [hhead] at hlookup
    exact ⟨first.addr, hle, hlookup⟩
  rcases (t.names hnames hcount hfits).lookupNames_eq name with
    ⟨hnone, hrun⟩ | ⟨low, high, hle, hlt, hrun, hrun', hcarries⟩
  · refine ⟨none, hrun true, ?_, fun _ => hrun false, fun _ _ h => (nomatch h), hlookup, hlowest⟩
    exact iff_of_false (by decide) fun ⟨s, hs, hname⟩ => hnone s hs hname
  · refine ⟨some (low, high), hrun, ?_, fun h => (nomatch h), ?_, hlookup, hlowest⟩
    · obtain ⟨s, hget, hname⟩ := (hcarries low).mpr ⟨Nat.le_refl _, hle⟩
      exact iff_of_true rfl
        ⟨s, (perm_sortByKey _ _).mem_iff.mp (List.mem_of_getElem? hget), hname⟩
    · intro low' high' heq
      cases heq
      refine ⟨hrun', hcarries, ?_⟩
      have hinterval := filter_eq_take_drop (p := fun s : Symbol => decide (s.name = name)) hlt
        fun j hj => by
          rw [decide_eq_true_iff, ← hcarries j, List.getElem?_eq_getElem hj]
          exact ⟨fun h => ⟨_, rfl, h⟩, fun ⟨_, h, hname⟩ => Option.some.inj h ▸ hname⟩
      rw [map_interval (fun i s => t.lookupNameByIdx_eq hfits) hlt, ← hinterval, filter_byName]

end Readable

def initSymbols : List Symbol :=
  [⟨"init_once".toList, 0x1400, 't'⟩, ⟨"do_fork".toList, 0x1300, 'T'⟩,
    ⟨"init_once".toList, 0x1200, 't'⟩]

def initBlob : KallsymsBlob := okOr (new.compressSymbols true countOrder initSymbols) new

def initBytes : List UInt8 := okOr initBlob.toBlob []

theorem compressed_initBlob :
    new.compressSymbols true countOrder initSymbols = .ok initBlob := by decide +kernel

theorem written_initBytes : initBlob.toBlob = .ok initBytes := by decide +kernel

theorem page_initBytes : PageMapped 4096 initBytes := ⟨by decide, by decide +kernel⟩

def initTable : Loaded where
  genChecks := true
  checks := true
  hash := countOrder
  symbols := initSymbols
  short := by decide +kernel
  table := initBlob
  compressed := compressed_initBlob
  blob := initBytes
  written := written_initBytes
  base := 4096
  page := page_initBytes
  stext := 0x1000
  etext := 0x1600
  mapped := initBlob.mapped 0x1000 0x1600
  opened := fromBlob_toBlob (compressSymbols_generated compressed_initBlob).arrays
    written_initBytes page_initBytes _ _

theorem init_once_found :
    ∃ low high, initTable.mapped.lookupNames "init_once".toList true = .ok (some (low, high)) ∧
      (List.range' low (high + 1 - low)).map initTable.mapped.lookupNameByIdx =
        [some 0x1400, some 0x1200] ∧
      initTable.mapped.lookupName "init_once".toList = .ok (some 0x1400) := by
  have hfilter : (initTable.symbols.filter fun s => s.name = "init_once".toList) =
      [⟨"init_once".toList, 0x1400, 't'⟩, ⟨"init_once".toList, 0x1200, 't'⟩] := by
    decide +kernel
  obtain ⟨found, hrun, hfound, _, hinterval, hlookup, _⟩ :=
    lookup_names_exact initTable (by decide +kernel) (by decide +kernel)
      (show initBlob.kallsymsNames.length < 2 ^ 32 by decide +kernel) "init_once".toList
  obtain ⟨⟨low, high⟩, rfl⟩ := Option.isSome_iff_exists.mp
    (hfound.mpr ⟨⟨"init_once".toList, 0x1400, 't'⟩, List.mem_cons_self, rfl⟩)
  have haddresses := (hinterval low high rfl).2.2
  rw [hfilter] at haddresses hlookup
  exact ⟨low, high, hrun, haddresses, hlookup⟩

end Loaded

theorem findToken_short {tokenMap : List (Str × UInt16)} {name : Str} {lens : List Nat}
    (h : ∀ l ∈ lens, (encode name).length < l) : findToken tokenMap name lens = .ok none := by
  induction lens with
  | nil => rfl
  | cons l lens ih =>
    unfold findToken
    rw [if_pos (h l List.mem_cons_self)]
    exact ih fun l hl => h l (List.mem_cons_of_mem _ hl)

theorem candidate_ge : ∀ l ∈ PREFIX_CANDIDATE_LENS.reverse, 10 ≤ l := by decide

/-- A name shorter than the candidate lengths is written as it is. -/
theorem length_writes_short {checks : Bool} {tokenMap : List (Str × UInt16)} {s : Symbol}
    {bytes : List UInt8} (h : Writes checks tokenMap s bytes) (hlt : (encode s.name).length < 10) :
    bytes.length = 3 + (encode s.name).length := by
  obtain ⟨token, htoken, hrecord⟩ := h
  rw [findToken_short fun l hl => Nat.lt_of_lt_of_le hlt (candidate_ge l hl)] at htoken
  cases htoken
  cases hrecord
  rw [List.length_append]
  rfl

theorem length_flatten_width {α : Type} {w : Nat} {l : List (List α)}
    (h : ∀ a ∈ l, a.length = w) : l.flatten.length = l.length * w := by
  rw [List.length_flatten, List.map_congr_left h, List.map_const', List.sum_replicate_nat]

/-- Symbols of the name `a`, and one of the name `b` behind them. -/
def shortSymbols (n : Nat) : List Symbol :=
  List.replicate n ⟨['a'], 0, 'T'⟩ ++ [⟨['b'], 1, 'T'⟩]

theorem mem_shortSymbols {n : Nat} {s : Symbol} (h : s ∈ shortSymbols n) :
    s = ⟨['a'], 0, 'T'⟩ ∨ s = ⟨['b'], 1, 'T'⟩ := by
  rcases List.mem_append.mp h with h | h
  · exact Or.inl (List.mem_replicate.mp h).2
  · exact Or.inr (List.mem_singleton.mp h)

theorem length_shortSymbols {n : Nat} {s : Symbol} (h : s ∈ shortSymbols n) :
    (encode s.name).length = 1 := by
  rcases mem_shortSymbols h with rfl | rfl <;> rfl

theorem byAddress_shortSymbols (n : Nat) : byAddress (shortSymbols n) = shortSymbols n := by
  refine sortByKey_eq_self (List.pairwise_append.mpr ⟨?_, List.pairwise_singleton _ _, ?_⟩)
  · exact List.pairwise_replicate.mpr (Or.inr rfl)
  · intro a ha b hb
    obtain rfl := (List.mem_replicate.mp ha).2
    obtain rfl := List.mem_singleton.mp hb
    rfl

theorem chosenTokens_shortSymbols (hash : HashOrder) (n : Nat) :
    (chosenTokens hash (shortSymbols n)).length < MAX_TOKEN := by
  have hsubset : chosenTokens hash (shortSymbols n) ⊆ [['a'], ['b']] := by
    intro token htoken
    obtain ⟨s, hs, hcandidate⟩ := mem_chosenTokens htoken
    have hone := length_shortSymbols hs
    have htoken : token = s.name := by
      rcases hcandidate with ⟨l, hl, heq⟩ | ⟨heq, _⟩
      · have hge := candidate_ge l (List.mem_reverse.mpr hl)
        rw [List.take_of_length_le (by omega)] at heq
        exact encode_injective heq
      · exact heq
    rw [htoken]
    rcases mem_shortSymbols hs with rfl | rfl <;> decide
  have hle := (List.subperm_of_subset (chosenTokens_nodup hash _) hsubset).length_le
  exact Nat.lt_of_le_of_lt hle (by decide)

/-- Records of four bytes, one after another. -/
theorem shortSymbols_start {checks : Bool} {tokens : List Str} {b : KallsymsBlob} {n : Nat}
    {recs : List (List UInt8)} (h : Emitted checks tokens b (shortSymbols n) recs) {i : Nat}
    (hi : i ≤ recs.length) : (recs.take i).flatten.length = i * 4 := by
  have hfour : ∀ r ∈ recs.take i, r.length = 4 := by
    intro r hr
    obtain ⟨k, hk, rfl⟩ := List.mem_iff_getElem.mp (List.mem_of_mem_take hr)
    obtain ⟨hlen, hwrites⟩ := List.forall₂_iff_get.mp h.records
    have hone := length_shortSymbols (List.get_mem (shortSymbols n) ⟨k, hlen ▸ hk⟩)
    have hlength := length_writes_short (hwrites k (hlen ▸ hk) hk) (by omega)
    rw [hone] at hlength
    exact hlength
  rw [length_flatten_width hfour, List.length_take, Nat.min_eq_left hi]

theorem length_byAddress_shortSymbols (n : Nat) :
    (byAddress (shortSymbols n)).length = n + 1 := by
  rw [byAddress_shortSymbols, shortSymbols, List.length_append, List.length_replicate]
  rfl

/-- With 4 GiB of names before it the last symbol is read from the first record. -/
theorem names_shortSymbols {n : Nat} (hn : n * 4 = 2 ^ 32) {t : Loaded}
    (ht : t.symbols = shortSymbols n) :
    Names t.mapped (List.replicate (n + 1) ⟨['a'], 0, 'T'⟩) where
  numSyms := by
    rw [t.numSyms, ht, length_byAddress_shortSymbols, Generated.length_byName,
      List.length_replicate]
  nameAt := by
    intro i s hs
    have hlength : t.symbols.length = n + 1 := by
      rw [ht, ← Generated.length_byAddress, length_byAddress_shortSymbols]
    have hi : i < n + 1 := by
      have hlt := (List.getElem?_eq_some_iff.mp hs).1
      rwa [Generated.length_byName, List.length_replicate] at hlt
    have hname : s = ⟨['a'], 0, 'T'⟩ := List.eq_of_mem_replicate
      ((perm_sortByKey _ _).mem_iff.mp (List.mem_of_getElem? hs))
    obtain ⟨seq, hseq, hget⟩ := t.seq_at (by omega) (List.getElem?_eq_getElem
      (show i < (byName t.symbols).length by rw [Generated.length_byName]; omega))
    have hseqlt := (List.getElem?_eq_some_iff.mp hget).1
    rw [ht, length_byAddress_shortSymbols] at hseqlt
    obtain ⟨recs, hemitted⟩ := t.generated.emitted
    have hrecs := hemitted.records.length_eq
    have hshort := hemitted
    rw [ht, length_byAddress_shortSymbols] at hrecs
    rw [ht, byAddress_shortSymbols] at hshort
    -- The record at the offset that is kept of the start.
    obtain ⟨j, hj, hstart⟩ : ∃ j < n, seq.toNat * 4 % 2 ^ 32 = j * 4 := by
      rcases Nat.lt_or_eq_of_le (Nat.le_of_lt_succ hseqlt) with hlt | heq
      · exact ⟨seq.toNat, hlt, Nat.mod_eq_of_lt (by omega)⟩
      · exact ⟨0, by omega, by rw [heq, hn, Nat.mod_self, Nat.zero_mul]⟩
    have hsymbol : (byAddress t.symbols)[j]? = some ⟨['a'], 0, 'T'⟩ := by
      rw [ht, byAddress_shortSymbols, shortSymbols, List.getElem?_append_left (by simpa),
        List.getElem?_replicate_of_lt hj]
    have hread := KallsymsMapped.symbolAt_start hemitted (chosenTokens_count _ _)
      (chosenTokens_short _ _) t.views t.short_byAddress (show seq.toNat < recs.length by omega)
      hsymbol (by rw [shortSymbols_start hshort (by omega), shortSymbols_start hshort (by omega),
        hstart])
    have hlast := takesLast_eq_false hemitted.tokens
      (by rw [ht]; exact chosenTokens_shortSymbols _ _) ['a']
    have hindex := index_of_getElem? hseq
    unfold KallsymsMapped.nameAt
    rw [hindex, ok_bind, hread, if_neg (by decide), ok_bind, Ksym.readBack, hlast, hname]
    rfl

theorem name_not_found {n : Nat} (hn : n * 4 = 2 ^ 32) :
    ∃ t : Loaded, t.symbols = shortSymbols n ∧
      ∀ needEnd, t.mapped.lookupNames ['b'] needEnd = .ok none := by
  have hshort : ShortNames (shortSymbols n) := by
    intro s hs
    rw [length_shortSymbols hs]
    decide
  have hcut : ∀ s ∈ shortSymbols n, Cuttable s.name := by
    intro s hs
    refine cuttable_ascii ?_
    rcases mem_shortSymbols hs with rfl | rfl <;> decide
  have hcount : (shortSymbols n).length = n + 1 := by
    rw [← Generated.length_byAddress, length_byAddress_shortSymbols]
  obtain ⟨t, _, _, _, ht, _⟩ := exists_loaded true true countOrder hshort hcut (by
    intro table hcompressed
    obtain ⟨recs, hemitted⟩ := (compressSymbols_generated hcompressed).emitted
    have hrecs := hemitted.records.length_eq
    rw [byAddress_shortSymbols] at hemitted
    have htotal := shortSymbols_start hemitted (Nat.le_refl _)
    rw [List.take_length] at htotal
    rw [length_byAddress_shortSymbols] at hrecs
    rw [hemitted.names, htotal, hcount]
    omega) 0 2
  refine ⟨t, ht, fun needEnd => ?_⟩
  rcases (names_shortSymbols hn ht).lookupNames_eq ['b'] with
    ⟨_, hrun⟩ | ⟨low, high, hle, _, _, _, hcarries⟩
  · exact hrun needEnd
  · obtain ⟨s, hget, hname⟩ := (hcarries low).mpr ⟨Nat.le_refl _, hle⟩
    have hmem := (perm_sortByKey _ _).mem_iff.mp (List.mem_of_getElem? hget)
    rw [List.eq_of_mem_replicate hmem] at hname
    cases hname

/-- With 4 GiB of names a symbol is not found by its name. -/
theorem lookup_misses_behind_offset_cut :
    ∃ t : Loaded, (∀ s ∈ t.symbols, s.name ≠ [] ∧ Ascii s.name) ∧
      (chosenTokens t.hash t.symbols).length < MAX_TOKEN ∧
      (∃ s ∈ t.symbols, s.name = ['b']) ∧
      ¬ ∃ found, t.mapped.lookupNames ['b'] true = .ok found ∧
        (found.isSome ↔ ∃ s ∈ t.symbols, s.name = ['b']) := by
  obtain ⟨t, ht, hrun⟩ := name_not_found (n := 2 ^ 30) rfl
  have hmem : ∃ s ∈ t.symbols, s.name = ['b'] :=
    ⟨⟨['b'], 1, 'T'⟩, by rw [ht]; exact List.mem_append_right _ List.mem_cons_self, rfl⟩
  refine ⟨t, fun s hs => ?_, ht ▸ chosenTokens_shortSymbols _ _, hmem, ?_⟩
  · rw [ht] at hs
    rcases mem_shortSymbols hs with rfl | rfl <;> decide
  · rintro ⟨found, hrun', hfound⟩
    rw [hrun true] at hrun'
    cases hrun'
    exact absurd (hfound.mpr hmem) (by decide)

end ExtKtrace.Ksym
