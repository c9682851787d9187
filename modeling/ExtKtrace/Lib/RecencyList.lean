import Mathlib.Data.List.Basic
import Mathlib.Data.List.Dedup

/-!
# Recency lists

Association lists kept in the order of last use, most recent first. A `stamp` on keys says
when each was last used; `Ordered` says that the list agrees with it.
-/

namespace ExtKtrace.RecencyList
set_option autoImplicit false

universe u v
variable {κ : Type u} {ν : Type v} [DecidableEq κ]

def keys (l : List (κ × ν)) : List κ := l.map Prod.fst

def remove (k : κ) (l : List (κ × ν)) : List (κ × ν) := l.filter fun e => e.1 ≠ k

/-- Using a key brings it to the front and leaves the rest in order. -/
def touch (k : κ) (l : List (κ × ν)) : List (κ × ν) :=
  match l.lookup k with
  | none => l
  | some v => (k, v) :: remove k l

/-- Only a new key past the capacity pushes the last entry out. -/
def put (cap : Nat) (k : κ) (v : ν) (l : List (κ × ν)) : List (κ × ν) :=
  match l.lookup k with
  | none => ((k, v) :: l).take cap
  | some _ => (k, v) :: remove k l

omit [DecidableEq κ] in
@[simp] theorem keys_cons (e : κ × ν) (l : List (κ × ν)) : keys (e :: l) = e.1 :: keys l := rfl

theorem mem_keys_remove {k k' : κ} {l : List (κ × ν)} :
    k' ∈ keys (remove k l) ↔ k' ∈ keys l ∧ k' ≠ k := by
  simp only [keys, remove, List.mem_map, List.mem_filter, decide_eq_true_eq]
  constructor
  · rintro ⟨e, ⟨he, hne⟩, rfl⟩
    exact ⟨⟨e, he, rfl⟩, hne⟩
  · rintro ⟨⟨e, he, rfl⟩, hne⟩
    exact ⟨e, ⟨he, hne⟩, rfl⟩

theorem lookup_eq_none {k : κ} {l : List (κ × ν)} : l.lookup k = none ↔ k ∉ keys l := by
  induction l with
  | nil => simp [keys]
  | cons e l ih =>
    rw [keys_cons, List.lookup_cons, List.mem_cons, not_or]
    by_cases h : k = e.1
    · simp [h]
    · have hb : (k == e.1) = false := by simpa using h
      simp [hb, h, ih]

theorem mem_of_lookup {k : κ} {v : ν} {l : List (κ × ν)} (h : l.lookup k = some v) :
    (k, v) ∈ l := by
  induction l with
  | nil => simp at h
  | cons e l ih =>
    rw [List.lookup_cons] at h
    by_cases hk : k = e.1
    · have hb : (k == e.1) = true := by simpa using hk
      simp only [hb, Option.some.injEq] at h
      rw [hk, ← h]
      exact List.mem_cons_self
    · have hb : (k == e.1) = false := by simpa using hk
      simp only [hb] at h
      exact List.mem_cons_of_mem e (ih h)

theorem lookup_of_mem {e : κ × ν} {l : List (κ × ν)} (hl : (keys l).Nodup) (h : e ∈ l) :
    l.lookup e.1 = some e.2 := by
  induction l with
  | nil => exact absurd h List.not_mem_nil
  | cons a l ih =>
    obtain ⟨hnot, htail⟩ := List.nodup_cons.mp hl
    rcases List.mem_cons.mp h with rfl | h
    · exact List.lookup_cons_self
    · have hne : e.1 ≠ a.1 := fun heq => hnot (heq ▸ List.mem_map_of_mem h)
      have hb : (e.1 == a.1) = false := by simpa using hne
      rw [List.lookup_cons, hb]
      exact ih htail h

theorem lookup_isSome {k : κ} {l : List (κ × ν)} : (l.lookup k).isSome ↔ k ∈ keys l := by
  rw [← not_iff_not, ← lookup_eq_none, Bool.not_eq_true, Option.isSome_eq_false_iff,
    Option.isNone_iff_eq_none]

theorem length_remove_lt {k : κ} {l : List (κ × ν)} (h : k ∈ keys l) :
    (remove k l).length < l.length := by
  obtain ⟨e, he, rfl⟩ := List.mem_map.mp h
  exact List.length_filter_lt_length_iff_exists.mpr ⟨e, he, by simp⟩

theorem length_remove_le (k : κ) (l : List (κ × ν)) : (remove k l).length ≤ l.length :=
  List.length_filter_le _ _

theorem touch_of_mem {k : κ} {l : List (κ × ν)} (h : k ∈ keys l) :
    ∃ v, l.lookup k = some v ∧ touch k l = (k, v) :: remove k l := by
  obtain ⟨v, hv⟩ := Option.isSome_iff_exists.mp (lookup_isSome.mpr h)
  exact ⟨v, hv, by simp [touch, hv]⟩

theorem touch_of_not_mem {k : κ} {l : List (κ × ν)} (h : k ∉ keys l) : touch k l = l := by
  simp [touch, lookup_eq_none.mpr h]

theorem mem_keys_touch {k k' : κ} {l : List (κ × ν)} : k' ∈ keys (touch k l) ↔ k' ∈ keys l := by
  by_cases h : k ∈ keys l
  · obtain ⟨v, -, htouch⟩ := touch_of_mem h
    rw [htouch, keys_cons, List.mem_cons, mem_keys_remove]
    by_cases hk : k' = k
    · simp [hk, h]
    · simp [hk]
  · rw [touch_of_not_mem h]

theorem remove_idem (k : κ) (l : List (κ × ν)) : remove k (remove k l) = remove k l := by
  simp [remove, List.filter_filter]

theorem remove_touch (k : κ) (l : List (κ × ν)) : remove k (touch k l) = remove k l := by
  by_cases h : k ∈ keys l
  · obtain ⟨v, -, htouch⟩ := touch_of_mem h
    have hcons : remove k ((k, v) :: remove k l) = remove k (remove k l) := by
      simp [remove]
    rw [htouch, hcons, remove_idem]
  · rw [touch_of_not_mem h]

theorem lookup_remove_of_ne {k k' : κ} (h : k' ≠ k) (l : List (κ × ν)) :
    (remove k l).lookup k' = l.lookup k' := by
  induction l with
  | nil => rfl
  | cons e l ih =>
    by_cases hk : e.1 = k
    · have hb : (k' == e.1) = false := by simpa [hk] using h
      have hgone : remove k (e :: l) = remove k l := List.filter_cons_of_neg (by simpa using hk)
      rw [hgone, ih, List.lookup_cons, hb]
    · have hkept : remove k (e :: l) = e :: remove k l :=
        List.filter_cons_of_pos (by simpa using hk)
      rw [hkept, List.lookup_cons, List.lookup_cons, ih]

/-- Using a key changes the order alone. -/
theorem lookup_touch (k k' : κ) (l : List (κ × ν)) : (touch k l).lookup k' = l.lookup k' := by
  by_cases hmem : k ∈ keys l
  · obtain ⟨v, hv, htouch⟩ := touch_of_mem hmem
    rw [htouch]
    by_cases hk : k' = k
    · rw [hk, List.lookup_cons_self, hv]
    · have hb : (k' == k) = false := by simpa using hk
      rw [List.lookup_cons, hb]
      exact lookup_remove_of_ne hk l
  · rw [touch_of_not_mem hmem]

theorem mem_of_mem_touch {k : κ} {e : κ × ν} {l : List (κ × ν)} (h : e ∈ touch k l) : e ∈ l := by
  by_cases hk : k ∈ keys l
  · obtain ⟨v, hv, htouch⟩ := touch_of_mem hk
    rw [htouch] at h
    rcases List.mem_cons.mp h with rfl | h
    · exact mem_of_lookup hv
    · exact List.mem_of_mem_filter h
  · rwa [touch_of_not_mem hk] at h

theorem remove_of_not_mem {k : κ} {l : List (κ × ν)} (h : k ∉ keys l) : remove k l = l := by
  apply List.filter_eq_self.mpr
  intro e he
  have hne : e.1 ≠ k := fun hek => h (List.mem_map.mpr ⟨e, he, hek⟩)
  simpa using hne

theorem nodup_remove {k : κ} {l : List (κ × ν)} (h : (keys l).Nodup) :
    (keys (remove k l)).Nodup :=
  h.sublist (List.filter_sublist.map _)

theorem nodup_touch {k : κ} {l : List (κ × ν)} (h : (keys l).Nodup) :
    (keys (touch k l)).Nodup := by
  by_cases hk : k ∈ keys l
  · obtain ⟨v, -, htouch⟩ := touch_of_mem hk
    rw [htouch, keys_cons, List.nodup_cons]
    exact ⟨fun hmem => (mem_keys_remove.mp hmem).2 rfl, nodup_remove h⟩
  · rwa [touch_of_not_mem hk]

/-- The most recent key stays where it is. -/
theorem touch_front {k : κ} {v : ν} {l : List (κ × ν)} (h : (keys ((k, v) :: l)).Nodup) :
    touch k ((k, v) :: l) = (k, v) :: l := by
  have hnot : k ∉ keys l := (List.nodup_cons.mp h).1
  have hremove : remove k ((k, v) :: l) = l := by
    refine Eq.trans ?_ (remove_of_not_mem hnot)
    simp [remove]
  simp only [touch, List.lookup_cons_self, hremove]

/-- The second most recent key changes places with the first. -/
theorem touch_second {k k' : κ} {v v' : ν} {l : List (κ × ν)}
    (h : (keys ((k, v) :: (k', v') :: l)).Nodup) :
    touch k' ((k, v) :: (k', v') :: l) = (k', v') :: (k, v) :: l := by
  obtain ⟨hk, htail⟩ := List.nodup_cons.mp h
  have hnot : k' ∉ keys l := (List.nodup_cons.mp htail).1
  have hne : k ≠ k' := fun heq => hk (heq ▸ List.mem_cons_self)
  have hremove : remove k' ((k, v) :: (k', v') :: l) = (k, v) :: l := by
    refine Eq.trans ?_ (congrArg ((k, v) :: ·) (remove_of_not_mem hnot))
    simp [remove, hne]
  have hbeq : (k' == k) = false := beq_eq_false_iff_ne.mpr hne.symm
  simp only [touch, List.lookup_cons, hbeq, beq_self_eq_true, hremove]

theorem put_of_mem {cap : Nat} {k : κ} {l : List (κ × ν)} (h : k ∈ keys l) (v : ν) :
    put cap k v l = (k, v) :: remove k l := by
  obtain ⟨w, hw⟩ := Option.isSome_iff_exists.mp (lookup_isSome.mpr h)
  simp [put, hw]

theorem put_of_not_mem {cap : Nat} {k : κ} {l : List (κ × ν)} (h : k ∉ keys l) (v : ν) :
    put cap k v l = ((k, v) :: l).take cap := by
  simp [put, lookup_eq_none.mpr h]

theorem mem_of_mem_put {cap : Nat} {k : κ} {v : ν} {e : κ × ν} {l : List (κ × ν)}
    (h : e ∈ put cap k v l) : e = (k, v) ∨ e ∈ l := by
  by_cases hk : k ∈ keys l
  · rw [put_of_mem hk] at h
    exact (List.mem_cons.mp h).imp_right List.mem_of_mem_filter
  · rw [put_of_not_mem hk] at h
    exact List.mem_cons.mp (List.mem_of_mem_take h)

/-- A key that a `put` loses was the last of a full list, and the only one lost. -/
theorem put_lost {cap : Nat} {key k : κ} {v : ν} {l : List (κ × ν)} (hlen : l.length ≤ cap)
    (hk : k ∈ keys l) (hlost : k ∉ keys (put cap key v l)) :
    key ∉ keys l ∧ l.length = cap ∧ put cap key v l = (key, v) :: remove k l ∧
      remove k l = l.take (cap - 1) := by
  have hkey : key ∉ keys l := by
    intro hkey
    rw [put_of_mem hkey, keys_cons, List.mem_cons, mem_keys_remove, not_or, not_and_not_right]
      at hlost
    exact hlost.1 (hlost.2 hk)
  rw [put_of_not_mem hkey] at hlost ⊢
  have hfull : l.length = cap := by
    by_contra hne
    rw [List.take_of_length_le (by simp; omega)] at hlost
    exact hlost (List.mem_cons_of_mem _ hk)
  have hpos : 0 < l.length := List.length_pos_of_mem (List.mem_map.mp hk).choose_spec.1
  obtain ⟨n, rfl⟩ : ∃ n, cap = n + 1 := ⟨cap - 1, by omega⟩
  rw [List.take_succ_cons] at hlost ⊢
  have hinit : k ∉ keys (l.take n) := fun h => hlost (List.mem_cons_of_mem _ h)
  have hsplit : l = l.take n ++ l.drop n := (List.take_append_drop n l).symm
  obtain ⟨e, he⟩ : ∃ e, l.drop n = [e] := List.length_eq_one_iff.mp (by simp; omega)
  rw [he] at hsplit
  have hek : e.1 = k := by
    rw [hsplit] at hk
    simp only [keys, List.map_append, List.mem_append] at hk
    rcases hk with hk | hk
    · exact absurd hk hinit
    · simpa [eq_comm] using hk
  have hremove : remove k l = l.take n := by
    calc remove k l = remove k (l.take n ++ [e]) := by rw [← hsplit]
      _ = remove k (l.take n) := by simp [remove, hek]
      _ = l.take n := remove_of_not_mem hinit
  exact ⟨hkey, hfull, by rw [hremove], by rw [hremove, Nat.add_sub_cancel]⟩

theorem length_touch_le (k : κ) (l : List (κ × ν)) : (touch k l).length ≤ l.length := by
  by_cases h : k ∈ keys l
  · obtain ⟨v, -, htouch⟩ := touch_of_mem h
    rw [htouch]
    exact length_remove_lt h
  · exact (touch_of_not_mem h).symm ▸ Nat.le_refl _

theorem length_put_le {cap : Nat} {k : κ} {v : ν} {l : List (κ × ν)} (h : l.length ≤ cap) :
    (put cap k v l).length ≤ cap := by
  unfold put
  cases hk : l.lookup k with
  | none => exact (List.length_take_le _ _)
  | some w =>
    have hmem : k ∈ keys l := lookup_isSome.mp (by simp [hk])
    exact Nat.le_trans (length_remove_lt hmem) h

section Ordered
variable (stamp : κ → Nat)

/-- The list runs from the most recently stamped key to the oldest. -/
def Ordered (l : List (κ × ν)) : Prop := (keys l).Pairwise fun a b => stamp b < stamp a

variable {stamp}

theorem Ordered.remove {l : List (κ × ν)} (h : Ordered stamp l) (k : κ) :
    Ordered stamp (remove k l) :=
  List.Pairwise.sublist (List.filter_sublist.map _) h

omit [DecidableEq κ] in
theorem Ordered.take {l : List (κ × ν)} (h : Ordered stamp l) (n : Nat) :
    Ordered stamp (l.take n) :=
  List.Pairwise.sublist ((List.take_sublist n l).map _) h

omit [DecidableEq κ] in
theorem Ordered.congr {stamp' : κ → Nat} {l : List (κ × ν)} (h : Ordered stamp l)
    (heq : ∀ k ∈ keys l, stamp' k = stamp k) : Ordered stamp' l := by
  refine List.Pairwise.imp_of_mem ?_ h
  intro a b ha hb hlt
  rw [heq a ha, heq b hb]
  exact hlt

omit [DecidableEq κ] in
theorem Ordered.nodup {l : List (κ × ν)} (h : Ordered stamp l) : (keys l).Nodup :=
  List.Pairwise.imp (fun hlt heq => by simp [heq] at hlt) h

/-- Stamping a key now and bringing it to the front keeps the order. -/
theorem Ordered.cons_now {l : List (κ × ν)} (h : Ordered stamp l) {k : κ} (v : ν) {now : Nat}
    (hk : k ∉ keys l) (hnow : ∀ k' ∈ keys l, stamp k' < now) :
    Ordered (Function.update stamp k now) ((k, v) :: l) := by
  have hne : ∀ k' ∈ keys l, Function.update stamp k now k' = stamp k' := by
    intro k' hk'
    exact Function.update_of_ne (fun he => hk (by rw [← he]; exact hk')) _ _
  refine List.pairwise_cons.mpr ⟨?_, h.congr hne⟩
  intro k' hk'
  rw [hne k' hk', Function.update_self]
  exact hnow k' hk'

theorem Ordered.front_now {l : List (κ × ν)} (h : Ordered stamp l) {k : κ} (v : ν) {now : Nat}
    (hnow : ∀ k' ∈ keys l, stamp k' < now) :
    Ordered (Function.update stamp k now) ((k, v) :: RecencyList.remove k l) :=
  (h.remove k).cons_now v (fun hk => (mem_keys_remove.mp hk).2 rfl)
    (fun k' hk' => hnow k' (mem_keys_remove.mp hk').1)

omit [DecidableEq κ] in
/-- What falls off the end is older than everything that stays. -/
theorem Ordered.dropped_oldest {l : List (κ × ν)} (h : Ordered stamp l) {n : Nat} {k k' : κ}
    (hk : k ∈ keys l) (hdrop : k ∉ keys (l.take n)) (hk' : k' ∈ keys (l.take n)) :
    stamp k < stamp k' := by
  have hsplit : keys l = keys (l.take n) ++ keys (l.drop n) := by
    rw [keys, keys, keys, ← List.map_append, List.take_append_drop]
  have hpair : (keys (l.take n) ++ keys (l.drop n)).Pairwise fun a b => stamp b < stamp a :=
    hsplit ▸ h
  rw [hsplit] at hk
  rcases List.mem_append.mp hk with hk | hk
  · exact absurd hk hdrop
  · exact (List.pairwise_append.mp hpair).2.2 k' hk' k hk

end Ordered

section Newest

/-- What has been used since, once `k` is used. -/
def used (k : κ) (since : κ → List κ) (k' : κ) : List κ := if k' = k then [] else k :: since k'

variable {since : κ → List κ} {k : κ} {l : List (κ × ν)}

/-- In front of every key stand just those that have been used since. -/
structure Newest (since : κ → List κ) (l : List (κ × ν)) : Prop where
  ordered : (keys l).Pairwise fun a b => a ∈ since b ∧ b ∉ since a
  closed : ∀ b ∈ keys l, ∀ a ∈ since b, a ∈ keys l
  irrefl : ∀ a ∈ keys l, a ∉ since a

theorem used_self (k : κ) (since : κ → List κ) : used k since k = [] := if_pos rfl

theorem used_of_ne {k' : κ} (h : k' ≠ k) (since : κ → List κ) :
    used k since k' = k :: since k' := if_neg h

omit [DecidableEq κ] in
theorem Newest.nil (since : κ → List κ) : Newest since ([] : List (κ × ν)) where
  ordered := .nil
  closed := by simp [keys]
  irrefl := by simp [keys]

/-- A key in its place: in front of it stands one entry for each key used since. -/
theorem Newest.split (h : Newest since l) (hk : k ∈ keys l) :
    ∃ front back, keys l = front ++ k :: back ∧ k ∉ front ∧ (∀ a, a ∈ front ↔ a ∈ since k) ∧
      front.length = (since k).dedup.length := by
  obtain ⟨front, back, hsplit⟩ := List.append_of_mem hk
  have hpair := h.ordered
  rw [hsplit] at hpair
  obtain ⟨hfront, hback, hcross⟩ := List.pairwise_append.mp hpair
  have hself := h.irrefl k hk
  have hmem : ∀ a, a ∈ front ↔ a ∈ since k := by
    refine fun a => ⟨fun ha => (hcross a ha k List.mem_cons_self).1, fun ha => ?_⟩
    have hin := h.closed k hk a ha
    rw [hsplit, List.mem_append, List.mem_cons] at hin
    rcases hin with hin | rfl | hin
    · exact hin
    · exact absurd ha hself
    · exact absurd ha ((List.pairwise_cons.mp hback).1 a hin).2
  have hnodup : front.Nodup := by
    refine hfront.imp ?_
    intro a b hab heq
    exact hab.2 (heq ▸ hab.1)
  have hperm : front.Perm (since k).dedup :=
    (List.perm_ext_iff_of_nodup hnodup (List.nodup_dedup _)).mpr (by simpa using hmem)
  exact ⟨front, back, hsplit, fun hin => hself ((hmem k).mp hin), hmem, hperm.length_eq⟩

/-- A cut keeps the keys since which few enough others have been used, and all of these. -/
theorem Newest.mem_take (h : Newest since l) (k : κ) (n : Nat) :
    k ∈ keys (l.take n) ↔ k ∈ keys l ∧ (since k).dedup.length < n := by
  have htake : keys (l.take n) = (keys l).take n := List.map_take
  rw [htake]
  constructor
  · intro hk
    have hin := List.mem_of_mem_take hk
    obtain ⟨front, back, hsplit, hnot, -, hlen⟩ := h.split hin
    refine ⟨hin, ?_⟩
    by_contra hge
    rw [hsplit, List.take_append_of_le_length (by omega)] at hk
    exact hnot (List.mem_of_mem_take hk)
  · rintro ⟨hin, hlt⟩
    obtain ⟨front, back, hsplit, -, -, hlen⟩ := h.split hin
    rw [← hlen] at hlt
    obtain ⟨m, rfl⟩ := Nat.exists_eq_add_of_lt hlt
    rw [hsplit, Nat.add_assoc, List.take_length_add_append, List.take_succ_cons]
    exact List.mem_append_right _ List.mem_cons_self

theorem Newest.take (h : Newest since l) (n : Nat) : Newest since (l.take n) where
  ordered := h.ordered.sublist ((List.take_sublist n l).map _)
  closed := by
    intro b hb a ha
    obtain ⟨hin, hlt⟩ := (h.mem_take b n).mp hb
    obtain ⟨front, back, hsplit, -, hmem, hlen⟩ := h.split hin
    have htake : keys (l.take n) = (keys l).take n := List.map_take
    rw [← hlen] at hlt
    obtain ⟨m, rfl⟩ := Nat.exists_eq_add_of_lt hlt
    rw [htake, hsplit, Nat.add_assoc, List.take_length_add_append]
    exact List.mem_append_left _ ((hmem a).mpr ha)
  irrefl := fun a ha => h.irrefl a ((h.mem_take a n).mp ha).1

/-- Using a key, new or not, brings it to the front. -/
theorem Newest.front (h : Newest since l) (k : κ) (v : ν) :
    Newest (used k since) ((k, v) :: remove k l) where
  ordered := by
    refine List.pairwise_cons.mpr ⟨?_, ?_⟩
    · intro b hb
      rw [used_of_ne (mem_keys_remove.mp hb).2, used_self]
      exact ⟨List.mem_cons_self, List.not_mem_nil⟩
    · refine List.Pairwise.imp_of_mem ?_ (h.ordered.sublist (List.filter_sublist.map _))
      intro a b ha hb hab
      have hne := (mem_keys_remove.mp hb).2
      rw [used_of_ne hne, used_of_ne (mem_keys_remove.mp ha).2, List.mem_cons, List.mem_cons,
        not_or]
      exact ⟨.inr hab.1, hne, hab.2⟩
  closed := by
    intro b hb a ha
    rw [keys_cons, List.mem_cons] at hb ⊢
    by_cases hbk : b = k
    · rw [hbk, used_self] at ha
      cases ha
    · rw [used_of_ne hbk, List.mem_cons] at ha
      have hin := (mem_keys_remove.mp (hb.resolve_left hbk)).1
      refine or_iff_not_imp_left.mpr fun hne => ?_
      exact mem_keys_remove.mpr ⟨h.closed b hin a (ha.resolve_left hne), hne⟩
  irrefl := by
    intro a ha hself
    by_cases hak : a = k
    · rw [hak, used_self] at hself
      cases hself
    · rw [keys_cons, List.mem_cons] at ha
      rw [used_of_ne hak, List.mem_cons] at hself
      exact h.irrefl a (mem_keys_remove.mp (ha.resolve_left hak)).1 (hself.resolve_left hak)

/-- In a list that is not too long, a `put` brings the key to the front and cuts. -/
theorem put_eq_take {cap : Nat} (hl : l.length ≤ cap) (k : κ) (v : ν) :
    put cap k v l = ((k, v) :: remove k l).take cap := by
  by_cases hk : k ∈ keys l
  · have hlt := length_remove_lt hk
    rw [put_of_mem hk, List.take_of_length_le]
    exact Nat.le_trans hlt hl
  · rw [put_of_not_mem hk, remove_of_not_mem hk]

theorem Newest.put (h : Newest since l) {cap : Nat} (hl : l.length ≤ cap) (k : κ) (v : ν) :
    Newest (used k since) (put cap k v l) := by
  rw [put_eq_take hl]
  exact (h.front k v).take cap

/-- What a `put` leaves in the list. -/
theorem Newest.mem_put (h : Newest since l) {cap : Nat} (hl : l.length ≤ cap) (hcap : 0 < cap)
    (k : κ) (v : ν) (k' : κ) :
    k' ∈ keys (RecencyList.put cap k v l) ↔
      k' = k ∨ k' ∈ keys l ∧ (used k since k').dedup.length < cap := by
  rw [put_eq_take hl, (h.front k v).mem_take, keys_cons, List.mem_cons, mem_keys_remove]
  by_cases hk : k' = k
  · rw [hk, used_self]
    simp [hcap]
  · simp [hk]

end Newest

end ExtKtrace.RecencyList
