import ExtKtrace.Ksym.Records

/-!
# Tokens and records of a generated table

When the generator gets through a list of symbols, and what it has written then: a short list of
distinct tokens, and for each symbol in address order its record.
-/

namespace ExtKtrace.Ksym
set_option autoImplicit false
open Utf8 StableSort

section Loops
variable {σ α : Type} {f : σ → α → Run σ}

theorem foldlM_ok_iff {l : List α} {P : α → Prop}
    (h : ∀ s, ∀ a ∈ l, (∃ t, f s a = .ok t) ↔ P a) (s : σ) :
    (∃ t, l.foldlM f s = .ok t) ↔ ∀ a ∈ l, P a := by
  induction l generalizing s with
  | nil => exact iff_of_true ⟨s, rfl⟩ fun a ha => absurd ha List.not_mem_nil
  | cons a l ih =>
    have hrest := ih fun s b hb => h s b (List.mem_cons_of_mem _ hb)
    rw [List.foldlM_cons, List.forall_mem_cons, ← h s a List.mem_cons_self]
    cases hstep : f s a with
    | error p => simp
    | ok t => simpa using hrest t

theorem foldlM_preserves {l : List α} {P : σ → Prop}
    (hf : ∀ s, ∀ a ∈ l, ∀ t, P s → f s a = .ok t → P t) {s t : σ} (hs : P s)
    (h : l.foldlM f s = .ok t) : P t := by
  induction l generalizing s with
  | nil =>
    cases h
    exact hs
  | cons a l ih =>
    rw [List.foldlM_cons] at h
    cases hstep : f s a with
    | error p =>
      rw [hstep] at h
      cases h
    | ok s' =>
      rw [hstep, ok_bind] at h
      exact ih (fun s b hb => hf s b (List.mem_cons_of_mem _ hb))
        (hf s a List.mem_cons_self s' hs hstep) h

end Loops

namespace KallsymsBlob

/-- No candidate length ends inside a character of the name. -/
def Cuttable (name : Str) : Prop :=
  ∀ l ∈ PREFIX_CANDIDATE_LENS, l ≤ (encode name).length →
    (decode ((encode name).take l)).isSome

theorem cuttable_ascii {name : Str} (h : Ascii name) : Cuttable name := by
  intro l _ _
  rw [decode_take_ascii h]
  rfl

theorem candidate_le : ∀ l ∈ PREFIX_CANDIDATE_LENS, 0 < l ∧ l ≤ 2000 := by decide

theorem countPrefix_ok_iff (name : Str) (counts : List (Str × Nat)) (l : Nat) :
    (∃ t, countPrefix name counts l = .ok t) ↔
      (l ≤ (encode name).length → (decode ((encode name).take l)).isSome) := by
  unfold countPrefix
  split
  · rename_i hle
    cases hdec : decode ((encode name).take l) <;> simp [hle]
  · rename_i hgt
    split
    · exact iff_of_true ⟨_, rfl⟩ fun hle => absurd hle hgt
    · exact iff_of_true ⟨_, rfl⟩ fun hle => absurd hle hgt

theorem countPrefixes_ok_iff (counts : List (Str × Nat)) (symbol : Symbol) :
    (∃ t, countPrefixes counts symbol = .ok t) ↔ Cuttable symbol.name :=
  foldlM_ok_iff (fun counts l _ => countPrefix_ok_iff symbol.name counts l) counts

/-- A string that is counted as a token for a name. -/
def Candidate (name token : Str) : Prop :=
  (∃ l ∈ PREFIX_CANDIDATE_LENS, encode token = (encode name).take l) ∨
    (token = name ∧ (encode name).length < 10)

theorem Candidate.length_le {name token : Str} (h : Candidate name token) :
    (encode token).length ≤ 2000 := by
  rcases h with ⟨l, hl, htoken⟩ | ⟨rfl, hlt⟩
  · have hle := (candidate_le l hl).2
    rw [htoken, List.length_take]
    omega
  · omega

theorem mem_countToken {token : Str} {counts : List (Str × Nat)} {key : Str}
    (h : key ∈ (countToken token counts).map (·.1)) : key = token ∨ key ∈ counts.map (·.1) := by
  induction counts with
  | nil => exact Or.inl (List.mem_singleton.mp h)
  | cons entry counts ih =>
    obtain ⟨t, count⟩ := entry
    unfold countToken at h
    split at h
    · exact Or.inr h
    · rw [List.map_cons, List.mem_cons] at h
      rcases h with h | h
      · exact Or.inr (h ▸ List.mem_cons_self)
      · exact (ih h).imp_right (List.mem_cons_of_mem _)

theorem mem_countPrefix {name key : Str} {counts t : List (Str × Nat)} {l : Nat}
    (hl : l ∈ PREFIX_CANDIDATE_LENS) (hstep : countPrefix name counts l = .ok t)
    (h : key ∈ t.map (·.1)) : Candidate name key ∨ key ∈ counts.map (·.1) := by
  unfold countPrefix at hstep
  split at hstep
  · cases hdec : decode ((encode name).take l) with
    | none =>
      rw [hdec] at hstep
      cases hstep
    | some token =>
      rw [hdec] at hstep
      cases hstep
      refine (mem_countToken h).imp_left ?_
      rintro rfl
      exact Or.inl ⟨l, hl, decode_eq_some.mp hdec⟩
  · rename_i hgt
    split at hstep
    · rename_i hfirst
      cases hstep
      have hten : 10 = l := Option.some.inj hfirst.2
      refine (mem_countToken h).imp_left ?_
      rintro rfl
      exact Or.inr ⟨rfl, by omega⟩
    · cases hstep
      exact Or.inr h

theorem mem_tokenCount {symbols : List Symbol} {counts : List (Str × Nat)}
    (h : symbols.foldlM countPrefixes [] = .ok counts) :
    ∀ key ∈ counts.map (·.1), ∃ s ∈ symbols, Candidate s.name key := by
  let P : List (Str × Nat) → Prop :=
    fun counts => ∀ key ∈ counts.map (·.1), ∃ s ∈ symbols, Candidate s.name key
  refine foldlM_preserves (P := P) (fun counts symbol hsymbol t hs hstep => ?_) ?_ h
  · refine foldlM_preserves (P := P) (fun counts l hl t hs hstep key hkey => ?_) hs hstep
    rcases mem_countPrefix hl hstep hkey with hcandidate | hkey
    · exact ⟨symbol, hsymbol, hcandidate⟩
    · exact hs key hkey
  · exact fun key hkey => absurd hkey List.not_mem_nil

/-- What holds of the tokens that are chosen from a list. -/
structure Chosen (tokens : List Str) (selected : List Str) : Prop where
  nodup : selected.Nodup
  count : selected.length ≤ MAX_TOKEN
  subset : ∀ token ∈ selected, token ∈ tokens

theorem Chosen.selectToken {tokens selected : List Str} (h : Chosen tokens selected) {tok : Str}
    (htok : tok ∈ tokens) : Chosen tokens (selectToken selected tok) := by
  unfold KallsymsBlob.selectToken
  split
  · exact h
  rename_i hroom
  split
  · exact h
  rename_i hstarts
  have hnew : tok ∉ selected := by
    intro hmem
    refine hstarts (List.any_eq_true.mpr ⟨tok, hmem, ?_⟩)
    exact List.isPrefixOf_iff_prefix.mpr (List.prefix_refl _)
  refine ⟨?_, ?_, ?_⟩
  · rw [List.nodup_append]
    refine ⟨h.nodup, List.nodup_singleton tok, ?_⟩
    intro a ha b hb hab
    rw [List.mem_singleton] at hb
    rw [hab, hb] at ha
    exact hnew ha
  · rw [List.length_append, List.length_singleton]
    omega
  · intro token hmem
    rw [List.mem_append, List.mem_singleton] at hmem
    rcases hmem with hmem | rfl
    · exact h.subset token hmem
    · exact htok

theorem Chosen.foldl {tokens selected : List Str} (h : Chosen tokens selected) {toks : List Str}
    (htoks : ∀ tok ∈ toks, tok ∈ tokens) :
    Chosen tokens (toks.foldl KallsymsBlob.selectToken selected) := by
  induction toks generalizing selected with
  | nil => exact h
  | cons tok toks ih =>
    exact ih (h.selectToken (htoks tok List.mem_cons_self))
      fun t ht => htoks t (List.mem_cons_of_mem _ ht)

theorem chosen_selectTokens (entries : List (Str × Nat)) :
    Chosen (entries.map (·.1)) (selectTokens entries) := by
  refine Chosen.foldl ⟨List.nodup_nil, by decide, fun _ h => absurd h List.not_mem_nil⟩ ?_
  intro tok htok
  obtain ⟨entry, hentry, rfl⟩ := List.mem_map.mp htok
  exact List.mem_map_of_mem ((perm_sortBy _ _).mem_iff.mp hentry)

/-- The tokens that the generator chooses for a list of symbols. -/
def chosenTokens (hash : HashOrder) (symbols : List Symbol) : List Str :=
  match symbols.foldlM countPrefixes [] with
  | .ok counts => selectTokens (hash.order counts)
  | .error _ => []

theorem chosenTokens_eq {hash : HashOrder} {symbols : List Symbol} {counts : List (Str × Nat)}
    (h : symbols.foldlM countPrefixes [] = .ok counts) :
    chosenTokens hash symbols = selectTokens (hash.order counts) := by
  unfold chosenTokens
  rw [h]

theorem chosenTokens_nodup (hash : HashOrder) (symbols : List Symbol) :
    (chosenTokens hash symbols).Nodup := by
  unfold chosenTokens
  split
  · exact (chosen_selectTokens _).nodup
  · exact List.nodup_nil

theorem chosenTokens_count (hash : HashOrder) (symbols : List Symbol) :
    (chosenTokens hash symbols).length ≤ MAX_TOKEN := by
  unfold chosenTokens
  split
  · exact (chosen_selectTokens _).count
  · exact Nat.zero_le _

theorem mem_chosenTokens {hash : HashOrder} {symbols : List Symbol} {token : Str}
    (h : token ∈ chosenTokens hash symbols) : ∃ s ∈ symbols, Candidate s.name token := by
  unfold chosenTokens at h
  split at h
  · rename_i counts hcounts
    have hmem := (chosen_selectTokens _).subset token h
    exact mem_tokenCount hcounts token (((hash.perm counts).map _).mem_iff.mp hmem)
  · exact absurd h List.not_mem_nil

theorem chosenTokens_short (hash : HashOrder) (symbols : List Symbol) :
    ShortTokens (chosenTokens hash symbols) := by
  intro token htoken
  obtain ⟨s, _, hcandidate⟩ := mem_chosenTokens htoken
  exact Nat.lt_of_le_of_lt hcandidate.length_le (by decide)

theorem findToken_picks {tokenMap : List (Str × UInt16)} {name : Str} {lens : List Nat}
    (hpos : ∀ l ∈ lens, 0 < l) {l : Nat} {id : UInt16}
    (h : findToken tokenMap name lens = .ok (some (l, id))) :
    KallsymsMapped.Picks tokenMap name l id := by
  induction lens with
  | nil => cases h
  | cons k lens ih =>
    have hrest := ih fun l hl => hpos l (List.mem_cons_of_mem _ hl)
    unfold findToken at h
    split at h
    · exact hrest h
    rename_i hle
    cases hcandidate : strPrefix name k with
    | error p =>
      rw [hcandidate] at h
      cases h
    | ok candidate =>
      rw [hcandidate, ok_bind] at h
      cases hid : tokenId tokenMap candidate with
      | none =>
        rw [hid] at h
        exact hrest h
      | some id' =>
        rw [hid] at h
        cases h
        exact ⟨hpos l List.mem_cons_self, Nat.le_of_not_gt hle, candidate, hcandidate, hid⟩

theorem findToken_ok {tokenMap : List (Str × UInt16)} {name : Str} {lens : List Nat}
    (hcut : ∀ l ∈ lens, l ≤ (encode name).length → (decode ((encode name).take l)).isSome) :
    ∃ token, findToken tokenMap name lens = .ok token := by
  induction lens with
  | nil => exact ⟨_, rfl⟩
  | cons l lens ih =>
    have hrest := ih fun l hl => hcut l (List.mem_cons_of_mem _ hl)
    unfold findToken
    split
    · exact hrest
    rename_i hle
    obtain ⟨candidate, hcandidate⟩ :=
      Option.isSome_iff_exists.mp (hcut l List.mem_cons_self (Nat.le_of_not_gt hle))
    rw [strPrefix, hcandidate, ok_bind]
    cases tokenId tokenMap candidate with
    | none => exact hrest
    | some id => exact ⟨_, rfl⟩

/-- The record that a symbol is written as. -/
def Writes (checks : Bool) (tokenMap : List (Str × UInt16)) (s : Symbol) (bytes : List UInt8) :
    Prop :=
  ∃ token, findToken tokenMap s.name PREFIX_CANDIDATE_LENS.reverse = .ok token ∧
    record checks s.name s.ty token = .ok bytes

theorem exists_writes {s : Symbol} (hcut : Cuttable s.name)
    (hlen : (encode s.name).length ≤ KSYM_NAME_LEN) (checks : Bool)
    (tokenMap : List (Str × UInt16)) : ∃ bytes, Writes checks tokenMap s bytes := by
  obtain ⟨token, htoken⟩ : ∃ token,
      findToken tokenMap s.name PREFIX_CANDIDATE_LENS.reverse = .ok token :=
    findToken_ok fun l hl => hcut l (List.mem_reverse.mp hl)
  obtain ⟨payload, length, hrecord, _⟩ := KallsymsMapped.record_eq checks s.ty token hlen
  exact ⟨_, token, htoken, hrecord⟩

end KallsymsBlob

end ExtKtrace.Ksym
