import Mathlib.Computability.Language

/-!
# Wildcard patterns

A pattern is a word with two letters that stand for more than themselves: `star` for any word
and `any` for any one letter. A text may hold these letters too, and `Shy` is what is left of
the language of a pattern when a star does not reach over a star of the text.
-/

namespace ExtKtrace.Wildcard
set_option autoImplicit false

universe u
variable {α : Type u} (star any : α)

/-- The words a letter of a pattern stands for. -/
def letter (c : α) : Language α := {w | c = star ∨ ∃ b, w = [b] ∧ (c = any ∨ c = b)}

def language (pattern : List α) : Language α := (pattern.map (letter star any)).prod

/-- A text that can be cut along the pattern so that a star which meets a star stands for that
letter alone. -/
inductive Shy : List α → List α → Prop where
  | nil : Shy [] []
  | one {c b : α} {p t : List α} : c ≠ star → c = any ∨ c = b → Shy p t → Shy (c :: p) (b :: t)
  | alone {p t : List α} : Shy p t → Shy (star :: p) (star :: t)
  | run {p t : List α} (w : List α) : (w ++ t).head? ≠ some star → Shy p t →
      Shy (star :: p) (w ++ t)

/-- Letter by letter, a star standing for a star. -/
inductive Literal : List α → List α → Prop where
  | nil : Literal [] []
  | cons {c b : α} {p t : List α} : c = any ∨ c = b → Literal p t → Literal (c :: p) (b :: t)

variable {star any} {c b : α} {p q t u v : List α}

@[simp] theorem mem_language_nil : t ∈ language star any [] ↔ t = [] := Iff.rfl

theorem mem_language_cons :
    t ∈ language star any (c :: p) ↔
      ∃ w ∈ letter star any c, ∃ t' ∈ language star any p, w ++ t' = t := Language.mem_mul

theorem mem_language_star :
    t ∈ language star any (star :: p) ↔ ∃ t', t' <:+ t ∧ t' ∈ language star any p := by
  rw [mem_language_cons]
  constructor
  · rintro ⟨w, -, t', ht', rfl⟩
    exact ⟨t', List.suffix_append w t', ht'⟩
  · rintro ⟨t', ⟨w, rfl⟩, ht'⟩
    exact ⟨w, .inl rfl, t', ht', rfl⟩

theorem mem_language_one (hc : c ≠ star) :
    t ∈ language star any (c :: p) ↔
      ∃ b t', t = b :: t' ∧ (c = any ∨ c = b) ∧ t' ∈ language star any p := by
  rw [mem_language_cons]
  constructor
  · rintro ⟨w, hw, t', ht', rfl⟩
    obtain ⟨b, rfl, hb⟩ := hw.resolve_left hc
    exact ⟨b, t', rfl, hb, ht'⟩
  · rintro ⟨b, t', rfl, hb, ht'⟩
    exact ⟨[b], .inr ⟨b, rfl, hb⟩, t', ht', rfl⟩

theorem Shy.mem_language (h : Shy star any p t) : t ∈ language star any p := by
  induction h with
  | nil => exact mem_language_nil.mpr rfl
  | one hc hb _ ih => exact (mem_language_one hc).mpr ⟨_, _, rfl, hb, ih⟩
  | alone _ ih => exact mem_language_star.mpr ⟨_, List.suffix_cons star _, ih⟩
  | run w _ _ ih => exact mem_language_star.mpr ⟨_, List.suffix_append w _, ih⟩

/-- In a text without stars no star of the pattern is held back. -/
theorem shy_of_no_star (ht : star ∉ t) (h : t ∈ language star any p) : Shy star any p t := by
  induction p generalizing t with
  | nil =>
    rw [mem_language_nil.mp h]
    exact .nil
  | cons c p ih =>
    by_cases hc : c = star
    · subst hc
      obtain ⟨t', ⟨w, rfl⟩, hmem⟩ := mem_language_star.mp h
      apply Shy.run w
      · exact fun hhead => ht (List.mem_of_mem_head? hhead)
      · exact ih (fun hstar => ht (List.mem_append_right w hstar)) hmem
    · obtain ⟨b, t', rfl, hb, hmem⟩ := (mem_language_one hc).mp h
      exact .one hc hb (ih (fun hstar => ht (List.mem_cons_of_mem b hstar)) hmem)

theorem shy_nil : Shy star any p [] ↔ ∀ c ∈ p, c = star := by
  constructor
  · intro h
    generalize ht : ([] : List α) = t at h
    induction h with
    | nil => exact fun c hc => absurd hc List.not_mem_nil
    | one _ _ _ _ => cases ht
    | alone _ _ => cases ht
    | run w _ _ ih =>
      obtain ⟨-, ht⟩ := List.append_eq_nil_iff.mp ht.symm
      exact List.forall_mem_cons.mpr ⟨rfl, ih ht.symm⟩
  · intro h
    induction p with
    | nil => exact .nil
    | cons c p ih =>
      obtain ⟨rfl, hp⟩ := List.forall_mem_cons.mp h
      exact .run [] (by simp) (ih hp)

/-- A star before a text that does not begin with one. -/
theorem shy_star (hv : v.head? ≠ some star) :
    Shy star any (star :: p) v ↔ ∃ t, t <:+ v ∧ Shy star any p t := by
  constructor
  · intro h
    cases h with
    | one hc _ _ => exact absurd rfl hc
    | alone _ => exact absurd rfl hv
    | run w _ hp => exact ⟨_, List.suffix_append w _, hp⟩
  · rintro ⟨t, ⟨w, rfl⟩, hp⟩
    exact .run w hv hp

theorem shy_cons (hany : any ≠ star) (hb : c = any ∨ c = b) :
    Shy star any (c :: p) (b :: t) ↔ Shy star any p t := by
  constructor
  · intro h
    generalize ht : b :: t = t' at h
    cases h with
    | one _ _ hp =>
      cases ht
      exact hp
    | alone hp =>
      cases ht
      exact hp
    | run w hhead _ =>
      rw [← ht] at hhead
      rcases hb with rfl | rfl
      · exact absurd rfl hany
      · exact absurd rfl hhead
  · intro hp
    by_cases hc : c = star
    · subst hc
      cases hb.resolve_left hany.symm
      exact .alone hp
    · exact .one hc hb hp

theorem shy_append (hany : any ≠ star) (h : Literal any q u) :
    Shy star any (q ++ p) (u ++ v) ↔ Shy star any p v := by
  induction h with
  | nil => exact Iff.rfl
  | cons hb _ ih => exact (shy_cons hany hb).trans ih

theorem Literal.concat (h : Literal any p t) (hb : c = any ∨ c = b) :
    Literal any (p ++ [c]) (t ++ [b]) := by
  induction h with
  | nil => exact .cons hb .nil
  | cons hd _ ih => exact .cons hd ih

/-- Where the letters of `q` can be read off at once, a later start never gets past them
earlier: a star of `q` that meets its star gives nothing away by being taken for it. -/
theorem Literal.late (hany : any ≠ star) (h : Literal any q u) (ht : t <:+ u ++ v)
    (hshy : Shy star any (q ++ p) t) : ∃ t', t' <:+ v ∧ Shy star any p t' := by
  induction h generalizing t with
  | nil => exact ⟨t, ht, hshy⟩
  | @cons c b q u hb _ ih =>
    have htail : ∀ {b' : α} {t' : List α}, b' :: t' <:+ b :: (u ++ v) → t' <:+ u ++ v := by
      intro b' t' hsuffix
      rcases List.suffix_cons_iff.mp hsuffix with heq | hsuffix
      · rw [(List.cons.inj heq).2]
      · exact (List.suffix_cons b' t').trans hsuffix
    rw [List.cons_append] at ht
    generalize hp : c :: q ++ p = p' at hshy
    cases hshy with
    | nil => cases hp
    | one _ _ hrest =>
      cases hp
      exact ih (htail ht) hrest
    | alone hrest =>
      cases hp
      exact ih (htail ht) hrest
    | @run _ t w hhead hrest =>
      cases hp
      -- the text of `u` begins with the star that `c` is
      have hstar : b = star := (hb.resolve_left hany.symm).symm
      rcases List.suffix_cons_iff.mp ht with heq | hsuffix
      · rw [heq, hstar] at hhead
        exact absurd rfl hhead
      · exact ih ((List.suffix_append w t).trans hsuffix) hrest

end ExtKtrace.Wildcard
