import ExtKtrace.Ddebug.Control
import ExtKtrace.Ddebug.GlobMatch

/-!
# Function selectors and sites without a name

A site of `pr_debug!` has an empty function name. No pattern should select it, but one of stars
alone does.
-/

namespace ExtKtrace.Ddebug.NamedSites
set_option autoImplicit false

variable {κ : Type} {F : RawStaticFalseKey κ} {command : Command} {sites : List (DebugSite κ)}

def IsFunc : Selector → Prop
  | .func _ => True
  | _ => False

/-- A command on sites leaves the ones without a name as they are and does not count them. -/
structure LeavesUnnamed (F : RawStaticFalseKey κ) (command : Command) (sites : List (DebugSite κ)) :
    Prop where
  sites_eq : List.Forall₂ (fun site site' => site.function = [] → site' = site) sites
    (applyCommand F command sites).1
  count_eq : (applyCommand F command sites).2 =
    (applyCommand F command (sites.filter fun site => site.function ≠ [])).2

/-- Each command of an accepted query that has a `func` selector, on the sites that the commands
before it leave behind. -/
def FuncSelectsNamed (F : RawStaticFalseKey κ) (query : Str) (control : ControlFile κ) : Prop :=
  ∀ before command after, (parseCommands query).run = some (.ok (before ++ command :: after)) →
    (∃ selector ∈ command.selectors, IsFunc selector) →
    LeavesUnnamed F command (applyCommands F before control.sites).1

/-- A selector that can keep a site without a name out: a function pattern with a character other
than `*`, or a selector of another kind that does not match. -/
def Excludes (site : DebugSite κ) : Selector → Prop
  | .func pattern => ∃ c ∈ pattern, c ≠ '*'
  | selector => selector.matches site = false

def FuncExcludesUnnamed (query : Str) (control : ControlFile κ) : Prop :=
  ∀ before command after, (parseCommands query).run = some (.ok (before ++ command :: after)) →
    (∃ selector ∈ command.selectors, IsFunc selector) →
    ∀ site ∈ control.sites, site.function = [] → ∃ selector ∈ command.selectors,
      Excludes site selector

theorem asBytes_stars {pattern : Str} :
    (∀ b ∈ asBytes pattern, b = star) ↔ ∀ c ∈ pattern, c = '*' := by
  constructor
  · intro h c hc
    obtain ⟨b, bs, hbytes, hb⟩ := utf8EncodeChar_head c
    have hmem : b ∈ asBytes pattern := by
      apply List.mem_flatMap.mpr
      exact ⟨c, hc, by rw [hbytes]; exact List.mem_cons_self⟩
    have hvalue : b.toNat = 42 := by
      rw [h b hmem]
      rfl
    apply Char.toNat_inj.mp
    have hstar : '*'.toNat = 42 := rfl
    omega
  · intro h b hb
    obtain ⟨c, hc, hbc⟩ := List.mem_flatMap.mp hb
    rw [h c hc] at hbc
    exact List.mem_singleton.mp hbc

theorem globMatch_nil {pattern : Str} : globMatch pattern [] = true ↔ ∀ c ∈ pattern, c = '*' := by
  unfold globMatch
  rw [globMatchBytes_noStarHidden_iff, ← asBytes_stars]
  exact Wildcard.shy_nil

theorem hasGlob_of_stars {pattern : Str} (h : ∀ c ∈ pattern, c = '*') (hne : pattern ≠ []) :
    hasGlob pattern = true := by
  cases pattern with
  | nil => exact absurd rfl hne
  | cons c pattern =>
    rw [h c List.mem_cons_self]
    rfl

theorem matchesFunc_nil {pattern : Str} : matchesFunc pattern [] = true ↔ ∀ c ∈ pattern, c = '*' := by
  have hlast : lastSegment [] = [] := rfl
  unfold matchesFunc
  rw [hlast]
  split
  · rw [Bool.or_self]
    exact globMatch_nil
  · rename_i hglob
    rw [Bool.or_self, beq_iff_eq]
    constructor
    · rintro rfl
      exact fun c hc => absurd hc List.not_mem_nil
    · intro h
      by_contra hne
      exact hglob (hasGlob_of_stars h fun heq => hne heq.symm)

theorem excludes_iff {site : DebugSite κ} (hsite : site.function = []) (selector : Selector) :
    Excludes site selector ↔ selector.matches site = false := by
  cases selector with
  | func pattern =>
    have hmatch : Selector.matches site (.func pattern) = matchesFunc pattern [] := by
      rw [← hsite]
      rfl
    rw [hmatch, ← Bool.not_eq_true, matchesFunc_nil]
    unfold Excludes
    push Not
    exact Iff.rfl
  | _ => exact Iff.rfl

/-- A command keeps a site without a name out exactly if one of its selectors does. -/
theorem matches_eq_false {site : DebugSite κ} (hsite : site.function = []) :
    command.matches site = false ↔ ∃ selector ∈ command.selectors, Excludes site selector := by
  unfold Command.matches
  rw [List.all_eq_false]
  constructor
  · rintro ⟨selector, hmem, hnot⟩
    exact ⟨selector, hmem, (excludes_iff hsite selector).mpr (Bool.eq_false_iff.mpr hnot)⟩
  · rintro ⟨selector, hmem, hex⟩
    exact ⟨selector, hmem, Bool.eq_false_iff.mp ((excludes_iff hsite selector).mp hex)⟩

theorem leavesUnnamed_iff :
    LeavesUnnamed F command sites ↔
      ∀ site ∈ sites, site.function = [] → command.matches site = false := by
  constructor
  · intro h site hmem hsite
    have hcount := h.count_eq
    rw [applyCommand_eq, applyCommand_eq] at hcount
    have hsplit := List.countP_eq_countP_filter_add sites command.matches
      fun site => decide (site.function ≠ [])
    have hnone : (sites.filter fun site => !decide (site.function ≠ [])).countP command.matches = 0 := by
      dsimp only at hcount
      omega
    apply Bool.eq_false_iff.mpr
    exact List.countP_eq_zero.mp hnone site (List.mem_filter.mpr ⟨hmem, by simp [hsite]⟩)
  · intro h
    constructor
    · rw [applyCommand_eq, List.forall₂_map_right_iff]
      refine List.forall₂_same.mpr fun site hmem hsite => ?_
      unfold Command.onSite
      rw [h site hmem hsite]
      rfl
    · rw [applyCommand_eq, applyCommand_eq]
      dsimp only
      rw [List.countP_filter]
      refine List.countP_congr fun site hmem => ?_
      by_cases hsite : site.function = []
      · simp [h site hmem hsite]
      · simp [hsite]

/-- Commands before it do not change which sites a command selects. -/
theorem leavesUnnamed_applyCommands (before : List Command) :
    LeavesUnnamed F command (applyCommands F before sites).1 ↔
      ∀ site ∈ sites, site.function = [] → command.matches site = false := by
  rw [leavesUnnamed_iff, applyCommands_eq, List.forall_mem_map]
  refine forall₂_congr fun site _ => ?_
  have hplace := (changed_foldl F before site).place
  rw [hplace.function, hplace.matches_eq]

/-- The commands of a query with a `func` selector select named sites only, exactly if each of
them has a selector for every site without a name that keeps it out. -/
theorem func_selects_named_iff (F : RawStaticFalseKey κ) (query : Str) (control : ControlFile κ) :
    FuncSelectsNamed F query control ↔ FuncExcludesUnnamed query control := by
  unfold FuncSelectsNamed FuncExcludesUnnamed
  refine forall₃_congr fun before command after => ?_
  refine imp_congr_right fun _ => imp_congr_right fun _ => ?_
  rw [leavesUnnamed_applyCommands]
  exact forall₃_congr fun site _ hsite => matches_eq_false hsite

/-- A single star selects the site of a `pr_debug!`. -/
theorem func_star_selects_unnamed :
    ¬ ∀ (query : Str) (control : ControlFile Bool), FuncSelectsNamed flagKey query control := by
  intro h
  have hparse : (parseCommands "func * +p".toList).run =
      some (.ok [⟨[.func "*".toList], ⟨.add, FLAG_PRINT⟩⟩]) := rfl
  have hleaves := h _ ⟨[demoSite]⟩ [] _ [] hparse ⟨_, List.mem_cons_self, trivial⟩
  have hmatch := leavesUnnamed_iff.mp hleaves demoSite List.mem_cons_self rfl
  obtain ⟨selector, hmem, hex⟩ := (matches_eq_false rfl).mp hmatch
  rw [List.mem_singleton.mp hmem] at hex
  obtain ⟨c, hc, hne⟩ := hex
  exact hne (List.mem_singleton.mp hc)

end ExtKtrace.Ddebug.NamedSites
