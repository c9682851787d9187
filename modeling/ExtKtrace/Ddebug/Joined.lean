import ExtKtrace.Ddebug.Control
import ExtKtrace.Ddebug.RoundTrip

/-!
# Queries put together

Two queries with a separator between them, and lines of strings in double quotes.
-/

namespace ExtKtrace.Ddebug.Joined
set_option autoImplicit false

variable {κ : Type}

/-- The write returns a count. -/
def Accepted (F : RawStaticFalseKey κ) (query : Str) (control : ControlFile κ) : Prop :=
  ∃ n control', (write F query).exec control = some (.ok n, control')

theorem bind_eq_pure {α β : Type} {c : Parse α} {f : α → Parse β} {b : β}
    (h : c >>= f = pure b) : ∃ a, c = pure a ∧ f a = pure b := by
  rcases c with _ | e | a
  · cases h
  · cases h
  · exact ⟨a, rfl, h⟩

theorem parseLines_append {lines lines' : List (List Str)} {commands commands' : List Command}
    (h : parseLines lines = pure commands) (h' : parseLines lines' = pure commands') :
    parseLines (lines ++ lines') = pure (commands ++ commands') := by
  induction lines generalizing commands with
  | nil =>
    cases h
    exact h'
  | cons tokens lines ih =>
    rw [parseLines] at h
    obtain ⟨command, hcommand, h⟩ := bind_eq_pure h
    obtain ⟨rest, hrest, h⟩ := bind_eq_pure h
    cases h
    rw [List.cons_append, parseLines, hcommand, pure_bind, ih hrest]
    rfl

/-- A query is accepted for its lines of tokens and the commands they make. -/
theorem parseCommands_eq_ok {query : Str} {commands : List Command} :
    (parseCommands query).run = some (.ok commands) ↔
      ∃ lines, tokenize query = .ok lines ∧ lines ≠ [] ∧ parseLines lines = pure commands := by
  unfold parseCommands
  rcases htokens : tokenize query with e | lines
  · constructor
    · intro h
      cases h
    · rintro ⟨lines, h, -⟩
      cases h
  · have hbind : (Parse.ofExcept (.ok lines) >>= fun tokenLines =>
        if tokenLines = [] then .fail "empty dynamic debug command".toList
        else parseLines tokenLines : Parse (List Command)) =
          if lines = [] then .fail "empty dynamic debug command".toList else parseLines lines := rfl
    rw [hbind]
    constructor
    · intro h
      split at h
      · cases h
      · rename_i hne
        exact ⟨lines, rfl, hne, h⟩
    · rintro ⟨lines', heq, hne, h⟩
      cases heq
      rw [if_neg hne, h]
      rfl

theorem parseCommands_join {q₁ q₂ : Str} {sep : Char} (hsep : sep = ';' ∨ sep = newline)
    (hend : ¬ EndsInBackslash q₁) {commands₁ commands₂ : List Command}
    (h₁ : (parseCommands q₁).run = some (.ok commands₁))
    (h₂ : (parseCommands q₂).run = some (.ok commands₂)) :
    (parseCommands (q₁ ++ sep :: q₂)).run = some (.ok (commands₁ ++ commands₂)) := by
  obtain ⟨lines₁, htok₁, hne₁, hlines₁⟩ := parseCommands_eq_ok.mp h₁
  obtain ⟨lines₂, htok₂, hne₂, hlines₂⟩ := parseCommands_eq_ok.mp h₂
  apply parseCommands_eq_ok.mpr
  refine ⟨lines₁ ++ lines₂, ?_, List.append_ne_nil_of_left_ne_nil hne₁ _,
    parseLines_append hlines₁ hlines₂⟩
  rw [(reads_of_tokenize htok₁ hend).tokenize_join hsep, htok₂]
  rfl

theorem applyCommands_append (F : RawStaticFalseKey κ) (commands commands' : List Command)
    (sites : List (DebugSite κ)) :
    applyCommands F (commands ++ commands') sites =
      ((applyCommands F commands' (applyCommands F commands sites).1).1,
        (applyCommands F commands sites).2 +
          (applyCommands F commands' (applyCommands F commands sites).1).2) := by
  induction commands generalizing sites with
  | nil => simp [applyCommands]
  | cons command commands ih =>
    simp only [List.cons_append, applyCommands, ih]
    rw [Nat.add_assoc]

theorem exec_write_ok (F : RawStaticFalseKey κ) {query : Str} {commands : List Command}
    (h : (parseCommands query).run = some (.ok commands)) (control : ControlFile κ) :
    (write F query).exec control = some (.ok (applyCommands F commands control.sites).2,
      ⟨(applyCommands F commands control.sites).1⟩) := by
  unfold write
  simp only [Call.exec_bind, Call.exec_orPanic, h, Option.map_some, Option.bind_some,
    Call.exec_ofExcept, Call.exec_self, Call.exec_update, Call.exec_pure]

theorem commands_of_accepted {F : RawStaticFalseKey κ} {query : Str} {control : ControlFile κ}
    (h : Accepted F query control) :
    ∃ commands, (parseCommands query).run = some (.ok commands) := by
  obtain ⟨n, control', hexec⟩ := h
  rcases exec_write F query control with ⟨e, herror⟩ | ⟨commands, hparse, -⟩
  · rw [hexec] at herror
    cases herror
  · exact ⟨commands, hparse⟩

/-- A write of two accepted queries with a separator between them does what the one and then the
other would do, and counts for both. -/
theorem write_join (F : RawStaticFalseKey κ) (control : ControlFile κ) (q₁ q₂ : Str) (sep : Char)
    (hsep : sep = ';' ∨ sep = newline) (h₁ : Accepted F q₁ control) (h₂ : Accepted F q₂ control)
    (hend : ¬ EndsInBackslash q₁) :
    ∃ n₁ n₂ control₁ control₂, (write F q₁).exec control = some (.ok n₁, control₁) ∧
      (write F q₂).exec control₁ = some (.ok n₂, control₂) ∧
      (write F (q₁ ++ sep :: q₂)).exec control = some (.ok (n₁ + n₂), control₂) := by
  obtain ⟨commands₁, hparse₁⟩ := commands_of_accepted h₁
  obtain ⟨commands₂, hparse₂⟩ := commands_of_accepted h₂
  refine ⟨_, _, _, _, exec_write_ok F hparse₁ control, exec_write_ok F hparse₂ _, ?_⟩
  rw [exec_write_ok F (parseCommands_join hsep hend hparse₁ hparse₂), applyCommands_append]

theorem write_join_demo : ∃ n₁ n₂ control₁ control₂,
    (write flagKey "line 7 +p".toList).exec ⟨[demoSite]⟩ = some (.ok n₁, control₁) ∧
      (write flagKey "line 7 -p".toList).exec control₁ = some (.ok n₂, control₂) ∧
      (write flagKey ("line 7 +p".toList ++ ';' :: "line 7 -p".toList)).exec ⟨[demoSite]⟩ =
        some (.ok (n₁ + n₂), control₂) := by
  apply write_join
  · exact .inl rfl
  · exact ⟨_, _, rfl⟩
  · exact ⟨_, _, rfl⟩
  · rintro ⟨front, h, -⟩
    have hlast := congrArg List.getLast? h
    rw [List.getLast?_concat] at hlast
    cases hlast

/-- The lines with a `;` between them. -/
def joinLines : List Str → Str
  | [] => []
  | [line] => line
  | line :: lines => line ++ ';' :: joinLines lines

/-- Every string in double quotes, as a line of words. -/
def quoteLines (lines : List (List Str)) : Str :=
  joinLines (lines.map fun line => joinWords (line.map inQuotes))

theorem spells_quoted (line : List Str) : List.Forall₂ Spells (line.map inQuotes) line := by
  rw [List.forall₂_map_left_iff]
  exact List.forall₂_same.mpr fun value _ => spells_inQuotes value

/-- Empty strings are passed over, and lines of nothing else. -/
theorem reads_quoteLines (lines : List (List Str)) :
    Reads (quoteLines lines) ((lines.map (·.filter (· ≠ []))).filter (· ≠ [])) := by
  induction lines with
  | nil =>
    intro commands
    refine ⟨_, rfl, rfl, rfl, ?_⟩
    rw [List.map_nil, List.filter_nil, List.append_nil]
    rfl
  | cons line lines ih =>
    have hline := reads_words (spells_quoted line)
    cases lines with
    | nil => exact hline
    | cons line' lines =>
      have hjoin := hline.join (.inl rfl) ih
      rw [← List.filter_append] at hjoin
      exact hjoin

theorem filter_lines_eq {lines : List (List Str)} (hlines : ∀ line ∈ lines, line ≠ []) :
    (lines.map (·.filter (· ≠ []))).filter (· ≠ []) = lines ↔
      ∀ line ∈ lines, ∀ s ∈ line, s ≠ [] := by
  constructor
  · intro h line hline s hs
    rw [← h] at hline
    obtain ⟨line', -, rfl⟩ := List.mem_map.mp (List.mem_of_mem_filter hline)
    have hs := List.of_mem_filter hs
    exact of_decide_eq_true hs
  · intro h
    have hmap : lines.map (·.filter (· ≠ [])) = lines.map id := by
      apply List.map_congr_left
      intro line hline
      exact List.filter_eq_self.mpr fun s hs => decide_eq_true (h line hline s hs)
    rw [hmap, List.map_id]
    exact List.filter_eq_self.mpr fun line hline => decide_eq_true (hlines line hline)

/-- Quoted strings are one token each, and the commands are read from just these, exactly if none
of the strings is empty. -/
theorem tokenize_quoteLines_iff (lines : List (List Str)) (hne : lines ≠ [])
    (hlines : ∀ line ∈ lines, line ≠ []) :
    (tokenize (quoteLines lines) = .ok lines ∧
      parseCommands (quoteLines lines) = parseLines lines) ↔
        ∀ line ∈ lines, ∀ s ∈ line, s ≠ [] := by
  have htokens := (reads_quoteLines lines).tokenize
  rw [← filter_lines_eq hlines, htokens]
  constructor
  · exact fun h => Except.ok.inj h.1
  · intro h
    refine ⟨congrArg Except.ok h, ?_⟩
    unfold parseCommands
    rw [htokens, h]
    show (if lines = [] then .fail "empty dynamic debug command".toList else parseLines lines :
      Parse (List Command)) = _
    rw [if_neg hne]

theorem tokenize_quoteLines_file :
    tokenize (quoteLines [["file".toList, "a \";b".toList, "+p".toList]]) =
        .ok [["file".toList, "a \";b".toList, "+p".toList]] ∧
      parseCommands (quoteLines [["file".toList, "a \";b".toList, "+p".toList]]) =
        parseLines [["file".toList, "a \";b".toList, "+p".toList]] := by
  apply (tokenize_quoteLines_iff _ (List.cons_ne_nil _ _) ?_).mpr
  · intro line hline s hs
    rw [List.mem_singleton.mp hline] at hs
    rcases List.mem_cons.mp hs with rfl | hs
    · exact List.cons_ne_nil _ _
    rcases List.mem_cons.mp hs with rfl | hs
    · exact List.cons_ne_nil _ _
    · rw [List.mem_singleton.mp hs]
      exact List.cons_ne_nil _ _
  · intro line hline
    rw [List.mem_singleton.mp hline]
    exact List.cons_ne_nil _ _

/-- Behind `file` an empty string in quotes is lost, and the flags are taken for the file. -/
theorem tokenize_quoteLines_empty :
    ¬ ∀ lines : List (List Str), lines ≠ [] → (∀ line ∈ lines, line ≠ []) →
      tokenize (quoteLines lines) = .ok lines ∧
        parseCommands (quoteLines lines) = parseLines lines := by
  intro h
  have hall := h [["file".toList, [], "+p".toList]] (List.cons_ne_nil _ _) (by
    intro line hline
    rw [List.mem_singleton.mp hline]
    exact List.cons_ne_nil _ _)
  have htokens : tokenize (quoteLines [["file".toList, [], "+p".toList]]) =
      .ok [["file".toList, "+p".toList]] := (reads_quoteLines _).tokenize
  rw [htokens] at hall
  cases hall.1

end ExtKtrace.Ddebug.Joined
