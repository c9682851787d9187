import ExtKtrace.Ddebug.Pattern
import ExtKtrace.Lib.Wildcard
import Mathlib.Data.List.TakeWhile

/-!
# What the wildcards match

The loop tries a byte of the pattern against the byte of the value before it looks for a `*`, so
a `*` of the value takes a `*` of the pattern for itself.
-/

namespace ExtKtrace.Ddebug
set_option autoImplicit false

open Wildcard (Literal Shy)

def language (pattern : List UInt8) : Language UInt8 := Wildcard.language star questionMark pattern

/-- The value can be cut along the pattern so that every `*` of the pattern that meets a `*` of
the value stands for that byte alone. -/
def NoStarHidden (pattern value : List UInt8) : Prop := Shy star questionMark pattern value

section
variable {pattern value : List UInt8} {s : GlobState}

theorem questionMark_ne_star : questionMark ≠ star := by decide

/-- Behind the last star seen, the pattern and the value have been read off at once. -/
structure Tracked (pattern value : List UInt8) (s : GlobState) : Prop where
  patIdx_le : s.patIdx ≤ pattern.length
  behind : ∀ k, s.starIdx = some k → k < pattern.length ∧ ∃ q u, Literal questionMark q u ∧
    pattern.drop (k + 1) = q ++ pattern.drop s.patIdx ∧
    value.drop s.starMatch = u ++ value.drop s.valIdx

/-- What is still to be found: the rest of the pattern at the rest of the value, or what follows
the last star anywhere from where it was tried last. -/
def Accepts (pattern value : List UInt8) (s : GlobState) : Prop :=
  match s.starIdx with
  | none => NoStarHidden (pattern.drop s.patIdx) (value.drop s.valIdx)
  | some k => ∃ t, t <:+ value.drop s.starMatch ∧ NoStarHidden (pattern.drop (k + 1)) t

theorem drop_eq_cons {α : Type} {l : List α} {i : Nat} {a : α} (h : l[i]? = some a) :
    l.drop i = a :: l.drop (i + 1) := by
  obtain ⟨hi, rfl⟩ := List.getElem?_eq_some_iff.mp h
  exact List.drop_eq_getElem_cons hi

theorem Tracked.advance (hs : Tracked pattern value s) {c b : UInt8}
    (hc : pattern[s.patIdx]? = some c) (hb : value[s.valIdx]? = some b)
    (hcb : c = questionMark ∨ c = b) {hle : s.starMatch ≤ s.valIdx + 1} :
    let next : GlobState := ⟨s.patIdx + 1, s.valIdx + 1, s.starIdx, s.starMatch, hle⟩
    Tracked pattern value next ∧ (Accepts pattern value next ↔ Accepts pattern value s) := by
  have hp := drop_eq_cons hc
  have hv := drop_eq_cons hb
  have hlt := (List.getElem?_eq_some_iff.mp hc).1
  refine ⟨⟨hlt, ?_⟩, ?_⟩
  · intro k hk
    obtain ⟨hlen, q, u, hlit, hq, hu⟩ := hs.behind k hk
    refine ⟨hlen, q ++ [c], u ++ [b], hlit.concat hcb, ?_, ?_⟩
    · rw [hq, hp, List.append_assoc]
      rfl
    · rw [hu, hv, List.append_assoc]
      rfl
  · unfold Accepts
    cases s.starIdx with
    | none =>
      rw [hp, hv]
      exact (Wildcard.shy_cons questionMark_ne_star hcb).symm
    | some k => exact Iff.rfl

/-- A star takes over from the one before it, which could not have got past it earlier. -/
theorem Tracked.newStar (hs : Tracked pattern value s) {b : UInt8}
    (hc : pattern[s.patIdx]? = some star) (hb : value[s.valIdx]? = some b) (hne : b ≠ star)
    {hle : s.valIdx ≤ s.valIdx} :
    let next : GlobState := ⟨s.patIdx + 1, s.valIdx, some s.patIdx, s.valIdx, hle⟩
    Tracked pattern value next ∧ (Accepts pattern value next ↔ Accepts pattern value s) := by
  have hp := drop_eq_cons hc
  have hlt := (List.getElem?_eq_some_iff.mp hc).1
  have hhead : (value.drop s.valIdx).head? ≠ some star := by
    rw [drop_eq_cons hb]
    exact fun heq => hne (Option.some.inj heq)
  have hhere := @Wildcard.shy_star _ star questionMark (pattern.drop (s.patIdx + 1))
    (value.drop s.valIdx) hhead
  refine ⟨⟨hlt, ?_⟩, ?_⟩
  · intro k hk
    cases hk
    exact ⟨hlt, [], [], .nil, rfl, rfl⟩
  · unfold Accepts
    cases hk : s.starIdx with
    | none =>
      rw [hp]
      exact hhere.symm
    | some k =>
      obtain ⟨-, q, u, hlit, hq, hu⟩ := hs.behind k hk
      dsimp only
      rw [hq, hu, hp]
      constructor
      · intro hrest
        refine ⟨u ++ value.drop s.valIdx, List.suffix_refl _, ?_⟩
        exact (Wildcard.shy_append questionMark_ne_star hlit).mpr (hhere.mpr hrest)
      · rintro ⟨t, ht, hshy⟩
        obtain ⟨t', ht', hshy'⟩ := hlit.late questionMark_ne_star ht hshy
        have hhead' : t'.head? ≠ some star ∨ ∃ t'', t' = star :: t'' := by
          cases t' with
          | nil => exact .inl (by simp)
          | cons d t'' =>
            by_cases hd : d = star
            · exact .inr ⟨t'', by rw [hd]⟩
            · exact .inl fun heq => hd (Option.some.inj heq)
        rcases hhead' with hhead' | ⟨t'', rfl⟩
        · obtain ⟨r, hr, hshy''⟩ := (Wildcard.shy_star hhead').mp hshy'
          exact ⟨r, hr.trans ht', hshy''⟩
        · have hrest := (Wildcard.shy_cons questionMark_ne_star (.inr rfl)).mp hshy'
          exact ⟨t'', (List.suffix_cons star t'').trans ht', hrest⟩

/-- Where the rest does not match, the last star gives up its place for the next one. -/
theorem Tracked.retry (hs : Tracked pattern value s) {b : UInt8}
    (hb : value[s.valIdx]? = some b) {k : Nat} (hk : s.starIdx = some k)
    (hstuck : ¬ NoStarHidden (pattern.drop s.patIdx) (value.drop s.valIdx))
    {hle : s.starMatch + 1 ≤ s.starMatch + 1} :
    let next : GlobState := ⟨k + 1, s.starMatch + 1, some k, s.starMatch + 1, hle⟩
    Tracked pattern value next ∧ (Accepts pattern value next ↔ Accepts pattern value s) := by
  obtain ⟨hlen, q, u, hlit, hq, hu⟩ := hs.behind k hk
  refine ⟨⟨hlen, ?_⟩, ?_⟩
  · intro k' hk'
    cases hk'
    exact ⟨hlen, [], [], .nil, rfl, rfl⟩
  · obtain ⟨d, rest, hcons⟩ : ∃ d rest, value.drop s.starMatch = d :: rest := by
      apply List.exists_cons_of_ne_nil
      rw [hu, drop_eq_cons hb]
      simp
    have hrest : value.drop (s.starMatch + 1) = rest := by
      rw [← List.tail_drop, hcons]
      rfl
    unfold Accepts
    rw [hk]
    dsimp only
    rw [hrest]
    constructor
    · rintro ⟨t, ht, hshy⟩
      refine ⟨t, ?_, hshy⟩
      rw [hcons]
      exact ht.trans (List.suffix_cons d rest)
    · rintro ⟨t, ht, hshy⟩
      rw [hcons] at ht
      rcases List.suffix_cons_iff.mp ht with rfl | ht
      · rw [← hcons, hq, hu] at hshy
        exact absurd ((Wildcard.shy_append questionMark_ne_star hlit).mp hshy) hstuck
      · exact ⟨t, ht, hshy⟩

theorem skipStars_eq_length {i : Nat} (hi : i ≤ pattern.length) :
    skipStars pattern i = pattern.length ↔ ∀ c ∈ pattern.drop i, c = star := by
  have hle := (List.takeWhile_sublist (fun c => decide (c = star)) (l := pattern.drop i)).length_le
  have hall : ((pattern.drop i).takeWhile (· = star)).length = (pattern.drop i).length ↔
      ∀ c ∈ pattern.drop i, c = star := by
    constructor
    · intro h c hc
      have hself := (List.takeWhile_sublist _).eq_of_length h
      rw [← hself] at hc
      exact of_decide_eq_true (List.mem_takeWhile_imp (p := fun d => decide (d = star)) hc)
    · intro h
      rw [List.takeWhile_eq_self_iff.mpr fun c hc => decide_eq_true (h c hc)]
  rw [← hall, skipStars, List.length_drop]
  rw [List.length_drop] at hle
  omega

theorem Tracked.ended (hs : Tracked pattern value s) (hv : ¬ s.valIdx < value.length) :
    skipStars pattern s.patIdx = pattern.length ↔ Accepts pattern value s := by
  have hnil : value.drop s.valIdx = [] := List.drop_eq_nil_of_le (by omega)
  have hrest := @Wildcard.shy_nil _ star questionMark (pattern.drop s.patIdx)
  rw [skipStars_eq_length hs.patIdx_le, ← hrest]
  unfold Accepts
  cases hk : s.starIdx with
  | none =>
    rw [hnil]
    exact Iff.rfl
  | some k =>
    obtain ⟨-, q, u, hlit, hq, hu⟩ := hs.behind k hk
    dsimp only
    rw [hq, hu, hnil]
    constructor
    · intro hshy
      exact ⟨u ++ [], List.suffix_refl _, (Wildcard.shy_append questionMark_ne_star hlit).mpr hshy⟩
    · rintro ⟨t, ht, hshy⟩
      obtain ⟨t', ht', hshy'⟩ := hlit.late questionMark_ne_star ht hshy
      rwa [List.suffix_nil.mp ht'] at hshy'

theorem stuck {b : UInt8} (hb : value[s.valIdx]? = some b)
    (hone : ¬(s.patIdx < pattern.length ∧
      (pattern[s.patIdx]? = some questionMark ∨ pattern[s.patIdx]? = value[s.valIdx]?)))
    (hstar : ¬(s.patIdx < pattern.length ∧ pattern[s.patIdx]? = some star)) :
    ¬ NoStarHidden (pattern.drop s.patIdx) (value.drop s.valIdx) := by
  intro h
  rw [drop_eq_cons hb] at h
  rcases hp : pattern[s.patIdx]? with _ | c
  · rw [List.drop_eq_nil_of_le (List.getElem?_eq_none_iff.mp hp)] at h
    cases h
  · have hlt := (List.getElem?_eq_some_iff.mp hp).1
    rw [hp, hb] at hone
    rw [hp] at hstar
    have hc : c ≠ star := fun heq => hstar ⟨hlt, congrArg some heq⟩
    rw [drop_eq_cons hp] at h
    obtain ⟨b', t', heq, hmatch, -⟩ := (Wildcard.mem_language_one hc).mp h.mem_language
    rw [← (List.cons.inj heq).1] at hmatch
    exact hone ⟨hlt, hmatch.imp (congrArg some) (congrArg some)⟩

theorem globLoop_iff (hs : Tracked pattern value s) :
    (∃ i, globLoop pattern value s = some i ∧ skipStars pattern i = pattern.length) ↔
      Accepts pattern value s := by
  have hget : ∀ {i : Nat}, i < value.length → ∃ b, value[i]? = some b :=
    fun h => ⟨_, List.getElem?_eq_getElem h⟩
  induction s using globLoop.induct pattern value with
  | case1 s hval hone ih =>
    obtain ⟨b, hb⟩ := hget hval
    have hc : pattern[s.patIdx]? = some pattern[s.patIdx] := List.getElem?_eq_getElem hone.1
    have hcb : pattern[s.patIdx] = questionMark ∨ pattern[s.patIdx] = b := by
      have h := hone.2
      rw [hc, hb] at h
      exact h.imp Option.some.inj Option.some.inj
    obtain ⟨hs', hacc⟩ := hs.advance hc hb hcb
    rw [globLoop, if_pos hval, if_pos hone]
    exact (ih hs').trans hacc
  | case2 s hval hone hstar ih =>
    obtain ⟨b, hb⟩ := hget hval
    have hne : b ≠ star := by
      rintro rfl
      exact hone ⟨hstar.1, .inr (hstar.2.trans hb.symm)⟩
    obtain ⟨hs', hacc⟩ := hs.newStar hstar.2 hb hne
    rw [globLoop, if_pos hval, if_neg hone, if_pos hstar]
    exact (ih hs').trans hacc
  | case3 s hval hone hstar k hk ih =>
    obtain ⟨b, hb⟩ := hget hval
    obtain ⟨hs', hacc⟩ := hs.retry hb hk (stuck hb hone hstar)
    rw [globLoop, if_pos hval, if_neg hone, if_neg hstar, hk]
    exact (ih hs').trans hacc
  | case4 s hval hone hstar hk =>
    obtain ⟨b, hb⟩ := hget hval
    have hstuck := stuck hb hone hstar
    rw [globLoop, if_pos hval, if_neg hone, if_neg hstar, hk]
    unfold Accepts
    rw [hk]
    exact iff_of_false (fun ⟨i, hi, _⟩ => nomatch hi) hstuck
  | case5 s hval =>
    rw [globLoop, if_neg hval, ← hs.ended hval]
    constructor
    · rintro ⟨i, hi, hskip⟩
      cases hi
      exact hskip
    · exact fun hskip => ⟨_, rfl, hskip⟩

theorem globMatchBytes_noStarHidden_iff (pattern value : List UInt8) :
    globMatchBytes pattern value = true ↔ NoStarHidden pattern value := by
  have hs : Tracked pattern value ⟨0, 0, none, 0, Nat.le_refl 0⟩ := ⟨Nat.zero_le _, fun k hk => nomatch hk⟩
  have hloop := globLoop_iff hs
  have haccepts : Accepts pattern value ⟨0, 0, none, 0, Nat.le_refl 0⟩ ↔
      NoStarHidden pattern value := Iff.rfl
  rw [← haccepts, ← hloop]
  unfold globMatchBytes
  cases globLoop pattern value ⟨0, 0, none, 0, Nat.le_refl 0⟩ with
  | none => simp
  | some i => simp

end

theorem globMatchBytes_of_no_star {pattern value : List UInt8} (h : star ∉ value) :
    globMatchBytes pattern value = true ↔ value ∈ language pattern := by
  rw [globMatchBytes_noStarHidden_iff]
  exact ⟨Shy.mem_language, Wildcard.shy_of_no_star h⟩

/-- A match is one that the pattern stands for; the other way round it takes a cut of the value
that hides no `*` in a star of the pattern. -/
theorem globMatchBytes_language_iff (pattern value : List UInt8) :
    (globMatchBytes pattern value = true ↔ value ∈ language pattern) ↔
      (value ∈ language pattern → NoStarHidden pattern value) := by
  rw [globMatchBytes_noStarHidden_iff]
  exact ⟨fun h hmem => h.mpr hmem, fun h => ⟨Shy.mem_language, h⟩⟩

/-- `*` stands for `*a`, and the loop takes it for the first byte alone. -/
theorem globMatchBytes_star_before_a :
    ¬ ∀ pattern value, globMatchBytes pattern value = true ↔ value ∈ language pattern := by
  intro h
  have hmem : [star, 0x61] ∈ language [star] :=
    Wildcard.mem_language_star.mpr ⟨[], List.nil_suffix, Wildcard.mem_language_nil.mpr rfl⟩
  have hmatch := (globMatchBytes_noStarHidden_iff _ _).mp ((h [star] [star, 0x61]).mpr hmem)
  have hrest := (Wildcard.shy_cons questionMark_ne_star (.inr rfl)).mp hmatch
  cases hrest

end ExtKtrace.Ddebug
