import ExtKtrace.Lib.Bisect
import ExtKtrace.Ksym.Loaded

/-!
# Lookup by address

The binary search ends at the last symbol that is not above the address. From there the lookup
steps back over the symbols whose address is the one asked for, which are its aliases only when
that is the address of a symbol.
-/

namespace ExtKtrace.Ksym
set_option autoImplicit false
open Utf8 StableSort KallsymsBlob Bisect

/-- The first symbol, as they are in the list, of the greatest address that is not above. -/
structure FirstCovering (symbols : List Symbol) (addr : UInt64) (first : Symbol) : Prop where
  le : first.addr ≤ addr
  greatest : ∀ s ∈ symbols, s.addr ≤ addr → s.addr ≤ first.addr
  head : (symbols.filter fun s => s.addr = first.addr).head? = some first

/-- Where a symbol ends: the next address that is not its own, or the end of the section. -/
def SymbolEnd (symbols : List Symbol) (etext start stop : UInt64) : Prop :=
  (start < stop ∧ (∃ s ∈ symbols, s.addr = stop) ∧ ∀ s ∈ symbols, start < s.addr → stop ≤ s.addr) ∨
    (stop = etext ∧ ∀ s ∈ symbols, s.addr ≤ start)

theorem SymbolEnd.unique {symbols : List Symbol} {etext start a b : UInt64}
    (ha : SymbolEnd symbols etext start a) (hb : SymbolEnd symbols etext start b) : a = b := by
  rcases ha with ⟨hlt, ⟨s, hs, rfl⟩, hleast⟩ | ⟨rfl, hall⟩
  · rcases hb with ⟨hlt', ⟨s', hs', rfl⟩, hleast'⟩ | ⟨rfl, hall⟩
    · exact UInt64.le_antisymm (hleast s' hs' hlt') (hleast' s hs hlt)
    · exact absurd hlt (UInt64.not_lt.mpr (hall s hs))
  · rcases hb with ⟨hlt', ⟨s', hs', rfl⟩, _⟩ | ⟨rfl, _⟩
    · exact absurd hlt' (UInt64.not_lt.mpr (hall s' hs'))
    · rfl

section Order
variable {symbols : List Symbol}

theorem mem_of_byAddress {i : Nat} {s : Symbol} (h : (byAddress symbols)[i]? = some s) :
    s ∈ symbols := (perm_sortByKey _ _).mem_iff.mp (List.mem_of_getElem? h)

theorem exists_byAddress {s : Symbol} (h : s ∈ symbols) :
    ∃ i : Nat, (byAddress symbols)[i]? = some s :=
  List.mem_iff_getElem?.mp ((perm_sortByKey _ _).mem_iff.mpr h)

theorem byAddress_le {i j : Nat} {s s' : Symbol} (hij : i ≤ j)
    (hi : (byAddress symbols)[i]? = some s) (hj : (byAddress symbols)[j]? = some s') :
    s.addr ≤ s'.addr := by
  obtain ⟨hli, rfl⟩ := List.getElem?_eq_some_iff.mp hi
  obtain ⟨hlj, rfl⟩ := List.getElem?_eq_some_iff.mp hj
  rcases Nat.lt_or_eq_of_le hij with hlt | rfl
  · have hsorted : SortedBy (fun s => s.addr) (byAddress symbols) := sorted_sortByKey _ _
    exact Std.isLE_compare.mp (hsorted.getElem hlt hlj)
  · exact UInt64.le_refl _

/-- The aliases of an address are the same, and in the same order, in the table. -/
theorem filter_byAddress (symbols : List Symbol) (a : UInt64) :
    (byAddress symbols).filter (fun s => s.addr = a) = symbols.filter fun s => s.addr = a :=
  stable_sortByKey (fun s => s.addr) symbols a

theorem head?_aliases {i : Nat} {s : Symbol} (hi : (byAddress symbols)[i]? = some s)
    (hbefore : ∀ j s', j < i → (byAddress symbols)[j]? = some s' → s'.addr ≠ s.addr) :
    (symbols.filter fun s' => s'.addr = s.addr).head? = some s := by
  obtain ⟨hlt, hget⟩ := List.getElem?_eq_some_iff.mp hi
  rw [← filter_byAddress]
  refine (head?_filter hlt (by rw [hget, decide_eq_true_eq]) ?_).trans (congrArg some hget)
  intro j hj
  rw [decide_eq_false_iff_not]
  exact hbefore j _ hj (List.getElem?_eq_getElem _)

theorem getLast?_aliases {i : Nat} {s : Symbol} (hi : (byAddress symbols)[i]? = some s)
    (hafter : ∀ j s', i < j → (byAddress symbols)[j]? = some s' → s'.addr ≠ s.addr) :
    (symbols.filter fun s' => s'.addr = s.addr).getLast? = some s := by
  obtain ⟨hlt, hget⟩ := List.getElem?_eq_some_iff.mp hi
  rw [← filter_byAddress]
  refine (getLast?_filter hlt (by rw [hget, decide_eq_true_eq]) ?_).trans (congrArg some hget)
  intro j hj hij
  rw [decide_eq_false_iff_not]
  exact hafter j _ hij (List.getElem?_eq_getElem hj)

end Order

namespace Loaded
variable (t : Loaded)

def notAbove (addr : UInt64) (i : Nat) : Bool :=
  (byAddress t.symbols)[i]?.any fun s => decide (s.addr ≤ addr)

theorem searchAddress_eq (addr : UInt64) {low high : Nat}
    (hhigh : high ≤ (byAddress t.symbols).length) :
    t.mapped.searchAddress addr low high = .ok (bisect (t.notAbove addr) low high) := by
  fun_induction bisect (t.notAbove addr) low high with
  | case1 low high hgt mid hmid ih =>
    obtain ⟨s, hget⟩ : ∃ s, (byAddress t.symbols)[mid]? = some s :=
      ⟨_, List.getElem?_eq_getElem (show mid < _ by omega)⟩
    have hindex : index t.mapped.kallsymsAddresses (low + (high - low) / 2) = .ok s.addr :=
      t.index_address hget
    rw [notAbove, hget, Option.any_some, decide_eq_true_eq] at hmid
    unfold KallsymsMapped.searchAddress
    rw [if_pos hgt]
    simp only [hindex, ok_bind, if_pos hmid]
    exact ih hhigh
  | case2 low high hgt mid hmid ih =>
    obtain ⟨s, hget⟩ : ∃ s, (byAddress t.symbols)[mid]? = some s :=
      ⟨_, List.getElem?_eq_getElem (show mid < _ by omega)⟩
    have hindex : index t.mapped.kallsymsAddresses (low + (high - low) / 2) = .ok s.addr :=
      t.index_address hget
    rw [notAbove, hget, Option.any_some, decide_eq_true_eq] at hmid
    unfold KallsymsMapped.searchAddress
    rw [if_pos hgt]
    simp only [hindex, ok_bind, if_neg hmid]
    exact ih (by omega)
  | case3 low high hle =>
    unfold KallsymsMapped.searchAddress
    rw [if_neg hle]

/-- Stepping back ends behind the last symbol below that has another address. -/
theorem firstAlias_eq (addr : UInt64) {low : Nat} (hlow : low < (byAddress t.symbols).length) :
    ∃ i ≤ low, t.mapped.firstAlias addr low = .ok i ∧
      (∀ j s, i ≤ j → j < low → (byAddress t.symbols)[j]? = some s → s.addr = addr) ∧
      (∀ s, 0 < i → (byAddress t.symbols)[i - 1]? = some s → s.addr ≠ addr) := by
  induction low with
  | zero =>
    exact ⟨0, Nat.le_refl _, rfl, fun _ _ _ hj => absurd hj (Nat.not_lt_zero _),
      fun _ hpos => absurd hpos (Nat.lt_irrefl 0)⟩
  | succ low ih =>
    have hget : (byAddress t.symbols)[low]? = some (byAddress t.symbols)[low] :=
      List.getElem?_eq_getElem (by omega)
    unfold KallsymsMapped.firstAlias
    rw [t.index_address hget, ok_bind]
    by_cases halias : (byAddress t.symbols)[low].addr = addr
    · rw [if_pos halias]
      obtain ⟨i, hi, hrun, hsame, hbefore⟩ := ih (by omega)
      refine ⟨i, by omega, hrun, ?_, hbefore⟩
      intro j s hij hj hs
      rcases Nat.lt_or_eq_of_le (Nat.le_of_lt_succ hj) with hlt | rfl
      · exact hsame j s hij hlt hs
      · rw [hget] at hs
        rw [← Option.some.inj hs, halias]
    · rw [if_neg halias]
      refine ⟨low + 1, Nat.le_refl _, rfl, fun j _ hij hj => by omega, ?_⟩
      intro s _ hs
      rw [Nat.add_sub_cancel, hget] at hs
      rw [← Option.some.inj hs]
      exact halias

theorem nextAddress_eq (start : UInt64) (high : Nat) :
    t.mapped.nextAddress start high =
      .ok ((((byAddress t.symbols).drop high).find? fun s => start < s.addr).map
        fun s => s.addr) := by
  fun_induction KallsymsMapped.nextAddress t.mapped start high with
  | case1 high hlt ih =>
    rw [t.numSyms] at hlt
    have hget : (byAddress t.symbols)[high]? = some (byAddress t.symbols)[high] :=
      List.getElem?_eq_getElem hlt
    rw [t.index_address hget, ok_bind, List.drop_eq_getElem_cons hlt, List.find?_cons]
    by_cases hgt : start < (byAddress t.symbols)[high].addr
    · simp only [gt_iff_lt, hgt, if_true, decide_true]
      rfl
    · simp only [gt_iff_lt, hgt, if_false, decide_false]
      exact ih
  | case2 high hge =>
    rw [t.numSyms] at hge
    rw [List.drop_eq_nil_of_le (by omega)]
    rfl

theorem symbolEnd_nextAddress {i : Nat} {s : Symbol} (hi : (byAddress t.symbols)[i]? = some s) :
    SymbolEnd t.symbols t.etext s.addr
      (((((byAddress t.symbols).drop (i + 1)).find? fun s' => s.addr < s'.addr).map
        fun s' => s'.addr).getD t.etext) := by
  cases hfind : ((byAddress t.symbols).drop (i + 1)).find? fun s' => s.addr < s'.addr with
  | none =>
    rw [List.find?_eq_none] at hfind
    refine Or.inr ⟨rfl, fun s' hs' => ?_⟩
    obtain ⟨j, hj⟩ := exists_byAddress hs'
    by_cases hij : j ≤ i
    · exact byAddress_le hij hj hi
    · have hmem : s' ∈ (byAddress t.symbols).drop (i + 1) := by
        rw [List.mem_iff_getElem?]
        refine ⟨j - (i + 1), ?_⟩
        rw [List.getElem?_drop, Nat.add_sub_cancel' (by omega)]
        exact hj
      have hnot := hfind s' hmem
      rw [decide_eq_true_eq] at hnot
      exact UInt64.not_lt.mp hnot
  | some x =>
    obtain ⟨hgt, k, hk, hget, hbefore⟩ := List.find?_eq_some_iff_getElem.mp hfind
    rw [decide_eq_true_eq] at hgt
    have hx : (byAddress t.symbols)[i + 1 + k]? = some x := by
      rw [← List.getElem?_drop, List.getElem?_eq_getElem hk, hget]
    refine Or.inl ⟨hgt, ⟨x, mem_of_byAddress hx, rfl⟩, fun s' hs' hlt => ?_⟩
    obtain ⟨j, hj⟩ := exists_byAddress hs'
    by_cases hxj : i + 1 + k ≤ j
    · exact byAddress_le hxj hx hj
    · exfalso
      by_cases hij : j ≤ i
      · exact absurd hlt (UInt64.not_lt.mpr (byAddress_le hij hj hi))
      · have hnot := hbefore (j - (i + 1)) (by omega)
        have hs' : ((byAddress t.symbols).drop (i + 1))[j - (i + 1)]? = some s' := by
          rw [List.getElem?_drop, Nat.add_sub_cancel' (by omega)]
          exact hj
        obtain ⟨_, hget'⟩ := List.getElem?_eq_some_iff.mp hs'
        rw [hget', decide_eq_true hlt] at hnot
        cases hnot

/-- The symbol that a lookup reads: the first of its address where that is the address asked
for, the last one where it is below, and the lowest symbol where all are above. -/
structure Reported (symbols : List Symbol) (addr : UInt64) (s : Symbol) : Prop where
  greatest : s.addr ≤ addr → ∀ s' ∈ symbols, s'.addr ≤ addr → s'.addr ≤ s.addr
  first : s.addr = addr → (symbols.filter fun s' => s'.addr = s.addr).head? = some s
  last : s.addr < addr → (symbols.filter fun s' => s'.addr = s.addr).getLast? = some s
  above : addr < s.addr → ∀ s' ∈ symbols, addr < s'.addr

theorem search_reported (addr : UInt64) (hne : t.symbols ≠ []) :
    ∃ low i s, t.mapped.searchAddress addr 0 t.mapped.kallsymsNumSyms = .ok low ∧
      low < t.mapped.kallsymsNumSyms ∧ t.mapped.firstAlias addr low = .ok i ∧
      (byAddress t.symbols)[i]? = some s ∧ Reported t.symbols addr s := by
  have hpos : 0 < (byAddress t.symbols).length := by
    rw [Generated.length_byAddress]
    exact List.length_pos_iff.mpr hne
  rw [t.numSyms]
  obtain ⟨_, hlow, hbelow, habove⟩ := bisect_spec (t.notAbove addr) hpos
  have hsearch : t.mapped.searchAddress addr 0 _ = _ := t.searchAddress_eq addr (Nat.le_refl _)
  obtain ⟨low, hl⟩ : ∃ low, low = bisect (t.notAbove addr) 0 (byAddress t.symbols).length :=
    ⟨_, rfl⟩
  rw [← hl] at hlow hbelow habove hsearch
  obtain ⟨x, hx⟩ : ∃ x, (byAddress t.symbols)[low]? = some x := ⟨_, List.getElem?_eq_getElem hlow⟩
  -- Everything behind where the search ends is above the address.
  have hafter : ∀ j s, low < j → (byAddress t.symbols)[j]? = some s → addr < s.addr := by
    intro j s hj hs
    rcases habove with hend | hnot
    · have := (List.getElem?_eq_some_iff.mp hs).1
      omega
    · have hnext := (List.getElem?_eq_some_iff.mp hs).1
      have hget := List.getElem?_eq_getElem (l := byAddress t.symbols) (i := low + 1) (by omega)
      rw [notAbove, hget, Option.any_some, decide_eq_false_iff_not] at hnot
      exact UInt64.lt_of_lt_of_le (UInt64.not_le.mp hnot) (byAddress_le hj hget hs)
  obtain ⟨i, hi, hfirst, hsame, hbefore⟩ := t.firstAlias_eq addr hlow
  obtain ⟨s, hs⟩ : ∃ s, (byAddress t.symbols)[i]? = some s :=
    ⟨_, List.getElem?_eq_getElem (by omega)⟩
  refine ⟨low, i, s, hsearch, hlow, hfirst, hs, ?_⟩
  have hstay : s.addr ≠ addr → i = low := by
    intro hne
    by_contra hil
    exact hne (hsame i s (Nat.le_refl _) (by omega) hs)
  by_cases hcovered : x.addr ≤ addr
  · have hxs : x.addr = s.addr := by
      by_cases heq : s.addr = addr
      · exact UInt64.le_antisymm (heq ▸ hcovered) (byAddress_le hi hs hx)
      · have hlow := hstay heq
        subst hlow
        rw [hx] at hs
        rw [Option.some.inj hs]
    refine ⟨?_, ?_, ?_, ?_⟩
    · intro _ s' hs' hle
      obtain ⟨j, hj⟩ := exists_byAddress hs'
      rw [← hxs]
      by_cases hjl : j ≤ low
      · exact byAddress_le hjl hj hx
      · exact absurd hle (UInt64.not_le.mpr (hafter j s' (by omega) hj))
    · intro heq
      refine head?_aliases hs fun j s' hj hs' halias => ?_
      obtain ⟨p, hp⟩ : ∃ p, (byAddress t.symbols)[i - 1]? = some p :=
        ⟨_, List.getElem?_eq_getElem (by omega)⟩
      refine hbefore p (by omega) hp (UInt64.le_antisymm ?_ ?_)
      · exact heq ▸ byAddress_le (Nat.sub_le i 1) hp hs
      · rw [← heq, ← halias]
        exact byAddress_le (by omega) hs' hp
    · intro hlt
      have hil := hstay (UInt64.ne_of_lt hlt)
      subst hil
      refine getLast?_aliases hs fun j s' hj hs' halias => ?_
      have hgt := hafter j s' hj hs'
      rw [halias] at hgt
      exact absurd hlt (UInt64.lt_asymm hgt)
    · intro hlt
      rw [← hxs] at hlt
      exact absurd hcovered (UInt64.not_le.mpr hlt)
  · have hgt := UInt64.not_le.mp hcovered
    have hzero : low = 0 := by
      rcases hbelow with h0 | hbelow
      · exact h0
      · rw [notAbove, hx, Option.any_some, decide_eq_true_eq] at hbelow
        exact absurd hbelow hcovered
    have hi0 : i = low := by omega
    subst hi0
    rw [hx] at hs
    obtain rfl := Option.some.inj hs
    refine ⟨fun hle => absurd hle hcovered, ?_, ?_, ?_⟩
    · exact fun heq => absurd (UInt64.le_of_eq heq) hcovered
    · exact fun hlt => absurd (UInt64.le_of_lt hlt) hcovered
    · intro _ s' hs'
      obtain ⟨j, hj⟩ := exists_byAddress hs'
      exact UInt64.lt_of_lt_of_le hgt (byAddress_le (by omega) hx hj)

theorem lookupAddress_outside (checks : Bool) {addr : UInt64}
    (h : addr < t.stext ∨ t.etext ≤ addr ∨ t.symbols = []) :
    t.mapped.lookupAddress checks addr = .ok none := by
  unfold KallsymsMapped.lookupAddress
  rw [t.bounds.1, t.bounds.2, t.numSyms, Generated.length_byAddress, if_pos]
  rcases h with h | h | h
  · exact Or.inl h
  · exact Or.inr (Or.inl h)
  · rw [h]
    exact Or.inr (Or.inr rfl)

/-- Inside the section a lookup reads the record of the symbol it has found and subtracts its
address from where it ends and from the address asked for. -/
theorem lookupAddress_inside {addr : UInt64} (hlow : t.stext ≤ addr)
    (hhigh : addr < t.etext) (hne : t.symbols ≠ []) :
    ∃ i s stop, (byAddress t.symbols)[i]? = some s ∧ Reported t.symbols addr s ∧
      SymbolEnd t.symbols t.etext s.addr stop ∧
      ∀ checks, t.mapped.lookupAddress checks addr = (do
        let (name, ty) ← t.mapped.symbolAt i
        let size ← u64Sub checks stop s.addr
        let offset ← u64Sub checks addr s.addr
        return some (name, size, offset, ty)) := by
  obtain ⟨low, i, s, hsearch, hlt, hfirst, hget, hreported⟩ := t.search_reported addr hne
  have hinside : ¬ (addr < t.mapped.stext ∨ addr ≥ t.mapped.etext ∨
      t.mapped.kallsymsNumSyms = 0) := by
    rw [t.bounds.1, t.bounds.2]
    rintro (h | h | h)
    · exact absurd hlow (UInt64.not_le.mpr h)
    · exact absurd hhigh (UInt64.not_lt.mpr h)
    · omega
  refine ⟨i, s, _, hget, hreported, t.symbolEnd_nextAddress hget, fun checks => ?_⟩
  unfold KallsymsMapped.lookupAddress
  rw [if_neg hinside, hsearch, ok_bind, if_neg (by omega)]
  simp only [hfirst, ok_bind, t.index_address hget, t.nextAddress_eq, t.bounds.2]

theorem symbolAt_fits (hfits : t.Fits) {i : Nat} {s : Symbol} {r : Str × Char}
    (hi : (byAddress t.symbols)[i]? = some s) :
    t.mapped.symbolAt i = .ok r ↔ s.name ≠ [] ∧ t.readBack s = r := by
  rw [t.symbolAt_eq hfits hi]
  by_cases hempty : s.name = [] <;> simp [hempty]

/-- A lookup names the symbol that covers the address exactly when the record that it reads, the
first alias's at the address itself and the last alias's behind it, is read as the first
alias's name and type. Below 4 GiB of names that is said of the alias itself. -/
theorem lookup_address_covers_iff {addr stop : UInt64} {first : Symbol}
    (hetext : ∀ s ∈ t.symbols, s.addr < t.etext) (hlow : t.stext ≤ addr)
    (hhigh : addr < t.etext) (hfirst : FirstCovering t.symbols addr first)
    (hstop : SymbolEnd t.symbols t.etext first.addr stop) :
    ∃ i s, (byAddress t.symbols)[i]? = some s ∧
      (if addr = first.addr then s = first
        else (t.symbols.filter fun s => s.addr = first.addr).getLast? = some s) ∧
      (t.mapped.lookupAddress t.checks addr =
          .ok (some (first.name, stop - first.addr, addr - first.addr, first.ty)) ↔
        t.mapped.symbolAt i = .ok (first.name, first.ty)) ∧
      (t.Fits → (t.mapped.lookupAddress t.checks addr =
          .ok (some (first.name, stop - first.addr, addr - first.addr, first.ty)) ↔
        s.name ≠ [] ∧ t.readBack s = (first.name, first.ty))) := by
  have hmem : first ∈ t.symbols := List.mem_of_mem_filter (List.mem_of_mem_head? hfirst.head)
  obtain ⟨i, s, stop', hget, hreported, hstop', hrun⟩ :=
    t.lookupAddress_inside hlow hhigh (List.ne_nil_of_mem hmem)
  have hlookup := hrun t.checks
  have hle : s.addr ≤ addr := by
    by_contra hgt
    exact absurd hfirst.le (UInt64.not_le.mpr (hreported.above (UInt64.not_le.mp hgt) first hmem))
  have hsame : s.addr = first.addr :=
    UInt64.le_antisymm (hfirst.greatest s (mem_of_byAddress hget) hle)
      (hreported.greatest hle first hmem hfirst.le)
  rw [hsame] at hstop' hlookup
  obtain rfl := hstop'.unique hstop
  have hstart : first.addr ≤ stop' := by
    rcases hstop with ⟨hlt, _⟩ | ⟨rfl, _⟩
    · exact UInt64.le_of_lt hlt
    · exact UInt64.le_of_lt (hetext first hmem)
  rw [u64Sub_of_le hstart, u64Sub_of_le hfirst.le] at hlookup
  have hiff : t.mapped.lookupAddress t.checks addr =
      .ok (some (first.name, stop' - first.addr, addr - first.addr, first.ty)) ↔
        t.mapped.symbolAt i = .ok (first.name, first.ty) := by
    rw [hlookup]
    cases t.mapped.symbolAt i with
    | error p => simp
    | ok r =>
      obtain ⟨name, ty⟩ := r
      show (Except.ok (some (name, _, _, ty)) : Run _) = _ ↔ _
      simp
  refine ⟨i, s, hget, ?_, hiff, fun hfits => hiff.trans (t.symbolAt_fits hfits hget)⟩
  split
  · rename_i heq
    have hhead := hreported.first (hsame.trans heq.symm)
    rw [hsame, hfirst.head] at hhead
    exact (Option.some.inj hhead).symm
  · rename_i hneq
    have hlt : s.addr < addr := UInt64.lt_of_le_of_ne hle fun h => hneq (h.symm.trans hsame)
    have hlast := hreported.last hlt
    rwa [hsame] at hlast

/-- Outside the text section, or with no symbols, there is nothing to look up. -/
def Outside (addr : UInt64) : Prop := addr < t.stext ∨ t.etext ≤ addr ∨ t.symbols = []

/-- A lookup comes to the same result whether overflow is checked or wraps, finds nothing below
the lowest symbol, and its offset and size lead from a symbol to the address and to its end. -/
def LooksUpSafely (addr : UInt64) : Prop :=
  ∃ r, (∀ checks, t.mapped.lookupAddress checks addr = .ok r) ∧
    ((∀ s ∈ t.symbols, addr < s.addr) → r = none) ∧
    ∀ name size offset ty, r = some (name, size, offset, ty) →
      offset ≤ addr ∧ ∃ s ∈ t.symbols, s.addr.toNat + offset.toNat = addr.toNat ∧
        ∃ stop, SymbolEnd t.symbols t.etext s.addr stop ∧
          s.addr.toNat + size.toNat = stop.toNat

theorem looksUpSafely_outside {addr : UInt64} (h : t.Outside addr) : t.LooksUpSafely addr :=
  ⟨none, fun checks => t.lookupAddress_outside checks h, fun _ => rfl, fun _ _ _ _ hr => nomatch hr⟩

theorem looksUpSafely_inside {addr : UInt64} (h : ¬ t.Outside addr) :
    ∃ i s, (byAddress t.symbols)[i]? = some s ∧ Reported t.symbols addr s ∧
      (t.LooksUpSafely addr ↔ s.addr ≤ addr ∧ ∃ r, t.mapped.symbolAt i = .ok r) := by
  have hlow : t.stext ≤ addr := UInt64.not_lt.mp fun hlt => h (Or.inl hlt)
  have hhigh : addr < t.etext := UInt64.not_le.mp fun hle => h (Or.inr (Or.inl hle))
  have hne : t.symbols ≠ [] := fun hnil => h (Or.inr (Or.inr hnil))
  obtain ⟨i, s, stop, hget, hreported, hstop, hrun⟩ := t.lookupAddress_inside hlow hhigh hne
  have hmem := mem_of_byAddress hget
  refine ⟨i, s, hget, hreported, ?_⟩
  constructor
  · rintro ⟨r, hok, hnone, _⟩
    -- With overflow checked, a symbol above the address is a panic.
    have hchecked := hok true
    rw [hrun] at hchecked
    cases hsymbol : t.mapped.symbolAt i with
    | error p =>
      rw [hsymbol] at hchecked
      cases hchecked
    | ok read =>
      refine ⟨?_, read, rfl⟩
      by_contra habove
      have hlt := UInt64.not_le.mp habove
      have hr := hnone (hreported.above hlt)
      subst hr
      rw [hsymbol, ok_bind] at hchecked
      cases hsize : u64Sub true stop s.addr with
      | error p =>
        rw [hsize] at hchecked
        cases hchecked
      | ok size =>
        have hoffset : u64Sub true addr s.addr = .error .overflow := by
          unfold u64Sub
          rw [if_neg habove, if_pos rfl]
        rw [hsize, hoffset] at hchecked
        cases hchecked
  · rintro ⟨hle, ⟨name, ty⟩, hsymbol⟩
    have hend : s.addr ≤ stop := by
      rcases hstop with ⟨hlt, _⟩ | ⟨rfl, _⟩
      · exact UInt64.le_of_lt hlt
      · exact UInt64.le_of_lt (UInt64.lt_of_le_of_lt hle hhigh)
    refine ⟨some (name, stop - s.addr, addr - s.addr, ty), fun checks => ?_, ?_, ?_⟩
    · rw [hrun, hsymbol, u64Sub_of_le hend, u64Sub_of_le hle]
      rfl
    · exact fun hall => absurd hle (UInt64.not_le.mpr (hall s hmem))
    · intro name' size offset ty' hr
      cases hr
      have hoffset := UInt64.toNat_sub_of_le addr s.addr hle
      have hsize := UInt64.toNat_sub_of_le stop s.addr hend
      have hle' := UInt64.le_iff_toNat_le.mp hle
      have hend' := UInt64.le_iff_toNat_le.mp hend
      refine ⟨?_, s, hmem, by omega, stop, hstop, by omega⟩
      rw [UInt64.le_iff_toNat_le]
      omega

/-- Two symbols that a lookup may read are the same. -/
theorem Reported.unique {symbols : List Symbol} {addr : UInt64} {s s' : Symbol}
    (h : Reported symbols addr s) (h' : Reported symbols addr s') (hs : s ∈ symbols)
    (hs' : s' ∈ symbols) (hle : s.addr ≤ addr) (hle' : s'.addr ≤ addr) : s = s' := by
  have hsame : s.addr = s'.addr :=
    UInt64.le_antisymm (h'.greatest hle' s hs hle) (h.greatest hle s' hs' hle')
  by_cases heq : s.addr = addr
  · have hfirst := h.first heq
    rw [hsame, h'.first (hsame ▸ heq)] at hfirst
    exact (Option.some.inj hfirst).symm
  · have hlast := h.last (UInt64.lt_of_le_of_ne hle heq)
    rw [hsame, h'.last (UInt64.lt_of_le_of_ne hle' (hsame ▸ heq))] at hlast
    exact (Option.some.inj hlast).symm

/-- Inside the text section a lookup is safe exactly when some symbol is not above the address
and the record that is read can be read. Below 4 GiB of names that is a name with a byte. -/
theorem lookup_address_safe_iff (addr : UInt64) :
    (t.Outside addr → t.LooksUpSafely addr) ∧
      (¬ t.Outside addr → ∃ i s, (byAddress t.symbols)[i]? = some s ∧
        Reported t.symbols addr s ∧
        (t.LooksUpSafely addr ↔ s.addr ≤ addr ∧ ∃ r, t.mapped.symbolAt i = .ok r)) ∧
      (t.Fits → (t.LooksUpSafely addr ↔ t.Outside addr ∨
        ∃ s ∈ t.symbols, s.addr ≤ addr ∧ Reported t.symbols addr s ∧ s.name ≠ [])) := by
  refine ⟨t.looksUpSafely_outside, t.looksUpSafely_inside, fun hfits => ?_⟩
  by_cases hout : t.Outside addr
  · exact iff_of_true (t.looksUpSafely_outside hout) (Or.inl hout)
  obtain ⟨i, s, hget, hreported, hiff⟩ := t.looksUpSafely_inside hout
  have hmem := mem_of_byAddress hget
  rw [hiff, or_iff_right hout]
  simp only [t.symbolAt_fits hfits hget]
  constructor
  · rintro ⟨hle, _, hne, _⟩
    exact ⟨s, hmem, hle, hreported, hne⟩
  · rintro ⟨s', hmem', hle', hreported', hne⟩
    have hle : s.addr ≤ addr := by
      by_contra hgt
      have hall := hreported.above (UInt64.not_le.mp hgt)
      exact absurd hle' (UInt64.not_le.mpr (hall s' hmem'))
    obtain rfl := hreported.unique hreported' hmem hmem' hle hle'
    exact ⟨hle, _, hne, rfl⟩

def aliasSymbols : List Symbol :=
  [⟨"alias_do_fork".toList, 0x1300, 'T'⟩, ⟨"do_fork".toList, 0x1300, 't'⟩,
    ⟨"vfs_read".toList, 0x1400, 'T'⟩]

def aliasBlob : KallsymsBlob := okOr (new.compressSymbols true countOrder aliasSymbols) new

def aliasBytes : List UInt8 := okOr aliasBlob.toBlob []

theorem compressed_aliasBlob :
    new.compressSymbols true countOrder aliasSymbols = .ok aliasBlob := by decide +kernel

theorem written_aliasBytes : aliasBlob.toBlob = .ok aliasBytes := by decide +kernel

theorem page_aliasBytes : PageMapped 4096 aliasBytes := ⟨by decide, by decide +kernel⟩

def aliasTable : Loaded where
  genChecks := true
  checks := true
  hash := countOrder
  symbols := aliasSymbols
  short := by decide +kernel
  table := aliasBlob
  compressed := compressed_aliasBlob
  blob := aliasBytes
  written := written_aliasBytes
  base := 4096
  page := page_aliasBytes
  stext := 0x1000
  etext := 0x1600
  mapped := aliasBlob.mapped 0x1000 0x1600
  opened := fromBlob_toBlob (compressSymbols_generated compressed_aliasBlob).arrays
    written_aliasBytes page_aliasBytes _ _

def aliasFirst : Symbol := ⟨"alias_do_fork".toList, 0x1300, 'T'⟩

theorem etext_aliasTable : ∀ s ∈ aliasTable.symbols, s.addr < aliasTable.etext := by decide

theorem symbolEnd_aliasTable : SymbolEnd aliasTable.symbols aliasTable.etext 0x1300 0x1400 :=
  Or.inl ⟨by decide, by decide +kernel, by decide⟩

theorem firstCovering_aliasTable {addr : UInt64} (hle : 0x1300 ≤ addr) (hlt : addr < 0x1400) :
    FirstCovering aliasTable.symbols addr aliasFirst where
  le := hle
  greatest := by
    intro s hs hsle
    have hbelow : ∀ s ∈ aliasTable.symbols, s.addr < 0x1400 → s.addr ≤ aliasFirst.addr := by
      decide +kernel
    exact hbelow s hs (UInt64.lt_of_le_of_lt hsle hlt)
  head := by decide +kernel

/-- At the address of the aliases the first one is reported. -/
theorem alias_reported_at_its_address :
    aliasTable.mapped.lookupAddress true 0x1300 =
      .ok (some ("alias_do_fork".toList, 0x1400 - 0x1300, 0x1300 - 0x1300, 'T')) := by
  obtain ⟨i, s, _, hs, _, hiff⟩ := lookup_address_covers_iff aliasTable etext_aliasTable
    (show aliasTable.stext ≤ 0x1300 by decide) (show 0x1300 < aliasTable.etext by decide)
    (firstCovering_aliasTable (by decide) (by decide)) symbolEnd_aliasTable
  rw [if_pos (show 0x1300 = aliasFirst.addr from rfl)] at hs
  rw [hs] at hiff
  exact (hiff (show aliasBlob.kallsymsNames.length < 2 ^ 32 by decide +kernel)).mpr
    ⟨by decide, by decide +kernel⟩

/-- Inside the aliases the last one is reported. -/
theorem last_alias_reported_behind :
    (∀ s ∈ aliasTable.symbols, s.addr < aliasTable.etext) ∧ aliasTable.stext ≤ 0x1350 ∧
      0x1350 < aliasTable.etext ∧ FirstCovering aliasTable.symbols 0x1350 aliasFirst ∧
      SymbolEnd aliasTable.symbols aliasTable.etext aliasFirst.addr 0x1400 ∧
      aliasTable.mapped.lookupAddress aliasTable.checks 0x1350 =
        .ok (some ("do_fork".toList, 0x100, 0x50, 't')) ∧
      ¬ aliasTable.mapped.lookupAddress aliasTable.checks 0x1350 =
        .ok (some (aliasFirst.name, 0x1400 - aliasFirst.addr, 0x1350 - aliasFirst.addr,
          aliasFirst.ty)) :=
  ⟨etext_aliasTable, by decide, by decide, firstCovering_aliasTable (by decide) (by decide),
    symbolEnd_aliasTable, by decide +kernel, by decide +kernel⟩

/-- Below the first symbol the offset underflows: a panic where overflow is checked, a wrapped
offset where it is not. -/
theorem lookup_below_underflows :
    (∀ s ∈ aliasTable.symbols, 0x1100 < s.addr) ∧
      aliasTable.mapped.lookupAddress true 0x1100 = .error .overflow ∧
      aliasTable.mapped.lookupAddress false 0x1100 =
        .ok (some ("alias_do_fork".toList, 0x100, 0x1100 - 0x1300, 'T')) ∧
      ¬ aliasTable.LooksUpSafely 0x1100 := by
  have hbelow : ∀ s ∈ aliasTable.symbols, 0x1100 < s.addr := by decide
  have hpanic : aliasTable.mapped.lookupAddress true 0x1100 = .error .overflow := by
    decide +kernel
  refine ⟨hbelow, hpanic, by decide +kernel, ?_⟩
  rintro ⟨r, hok, _⟩
  rw [hok true] at hpanic
  cases hpanic

end Loaded

end ExtKtrace.Ksym
