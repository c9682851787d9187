import Mathlib.Data.Set.Basic

/-!
# Walks through a changing set

A walk goes up through an ordered set and remembers only the element it was told last. The set
may change between two turns as long as it keeps that element.
-/

namespace ExtKtrace.CursorWalk
set_option autoImplicit false

universe u
variable {κ : Type u} (lt : κ → κ → Prop)

/-- Nothing has been told yet, or `k` comes after what was told last. -/
def Behind (found : List κ) (k : κ) : Prop := ∀ c, found.head? = some c → lt c k

/-- The next element to be told. -/
structure Next (present : Set κ) (found : List κ) (k : κ) : Prop where
  mem : k ∈ present
  behind : Behind lt found k
  least : ∀ k' ∈ present, Behind lt found k' → ¬ lt k' k

/-- The sets a walk has seen and the elements it was told, newest first. -/
inductive Walk (s₀ : Set κ) : List (Set κ) → List κ → Prop where
  | start : Walk s₀ [s₀] []
  | told {s : Set κ} {seen : List (Set κ)} {found : List κ} {k : κ} :
      Walk s₀ (s :: seen) found → Next lt s found k → Walk s₀ (s :: seen) (k :: found)
  | change {s s' : Set κ} {seen : List (Set κ)} {found : List κ} :
      Walk s₀ (s :: seen) found → (∀ c, found.head? = some c → c ∈ s → c ∈ s') →
      Walk s₀ (s' :: s :: seen) found

namespace Walk
variable {lt} {s₀ s : Set κ} {seen : List (Set κ)} {found : List κ}

theorem cursor_mem {sets : List (Set κ)} (h : Walk lt s₀ sets found) :
    ∀ s seen, sets = s :: seen → ∀ c, found.head? = some c → c ∈ s := by
  induction h with
  | start =>
    intro s seen _ c hc
    cases hc
  | told _ hnext _ =>
    rintro s seen ⟨⟩ c ⟨⟩
    exact hnext.mem
  | change _ hkeep ih =>
    rintro s seen ⟨⟩ c hc
    exact hkeep c hc (ih _ _ rfl c hc)

/-- Everything told was there at some time. -/
theorem mem_seen {sets : List (Set κ)} (h : Walk lt s₀ sets found) {k : κ} (hk : k ∈ found) :
    ∃ s ∈ sets, k ∈ s := by
  induction h with
  | start => cases hk
  | told _ hnext ih =>
    rcases List.mem_cons.mp hk with rfl | hk
    · exact ⟨_, List.mem_cons_self, hnext.mem⟩
    · exact ih hk
  | change _ _ ih =>
    obtain ⟨s, hs, hmem⟩ := ih hk
    exact ⟨s, List.mem_cons_of_mem _ hs, hmem⟩

section
variable (transLt : ∀ {a b c}, lt a b → lt b c → lt a c)
include transLt

theorem increasing {sets : List (Set κ)} (h : Walk lt s₀ sets found) :
    found.Pairwise fun newer older => lt older newer := by
  induction h with
  | start => exact .nil
  | @told _ _ found k _ hnext ih =>
    refine List.pairwise_cons.mpr ⟨fun k' hk' => ?_, ih⟩
    cases found with
    | nil => cases hk'
    | cons c found =>
      have hck : lt c k := hnext.behind c rfl
      rcases List.mem_cons.mp hk' with rfl | hk'
      · exact hck
      · exact transLt ((List.pairwise_cons.mp ih).1 k' hk') hck
  | change _ _ ih => exact ih

end

section
variable (eqOfNotLt : ∀ {a b}, ¬ lt a b → ¬ lt b a → a = b)
include eqOfNotLt

/-- What was there all the time has been told, up to the last element told. -/
theorem mem_found {sets : List (Set κ)} (h : Walk lt s₀ sets found) {k : κ}
    (hk : ∀ s ∈ sets, k ∈ s) (hbefore : ¬ Behind lt found k) : k ∈ found := by
  induction h with
  | start => exact absurd (fun c hc => nomatch hc) hbefore
  | @told s seen found k' _ hnext ih =>
    by_cases hbehind : Behind lt found k
    · have hle : ¬ lt k k' := hnext.least k (hk s List.mem_cons_self) hbehind
      have hge : ¬ lt k' k := fun hlt => hbefore fun c hc => by cases hc; exact hlt
      exact eqOfNotLt hle hge ▸ List.mem_cons_self
    · exact List.mem_cons_of_mem _ (ih hk hbehind)
  | change _ _ ih => exact ih (fun s hs => hk s (List.mem_cons_of_mem _ hs)) hbefore

end

end Walk

end ExtKtrace.CursorWalk
