import ExtKtrace.Ddebug.LoggerRefinement
import ExtKtrace.Ddebug.RoundTrip

/-!
# Flags that are listed and written again

Commands know of six flags, so the flags of a site never have another bit. The column of the listing
says all of them, and as a command it sets them.
-/

namespace ExtKtrace.Ddebug
set_option autoImplicit false

/-- Every value that the call comes back with has `P`. -/
def Ends {α : Type} (P : α → Prop) (c : Parse α) : Prop := ∀ a, c.run = some (.ok a) → P a

namespace Ends
variable {α β : Type} {P : α → Prop} {Q : β → Prop}

theorem pure {a : α} (h : P a) : Ends P (pure a) := by
  intro b hb
  cases hb
  exact h

theorem fail (msg : Str) : Ends P (.fail msg) := by
  intro a ha
  cases ha

theorem bind {c : Parse α} {f : α → Parse β} (hc : Ends P c) (hf : ∀ a, P a → Ends Q (f a)) :
    Ends Q (c >>= f) := by
  intro b hb
  rw [ExceptT.run_bind] at hb
  cases hrun : c.run with
  | none =>
    rw [hrun] at hb
    cases hb
  | some r =>
    rw [hrun] at hb
    cases r with
    | error e => cases hb
    | ok a => exact hf a (hc a hrun) b hb

theorem any (c : Parse α) : Ends (fun _ => True) c := fun _ _ => trivial

end Ends

/-- No bit but those of the flags. -/
def Known (bits : UInt8) : Prop := bits &&& ~~~63 = 0

theorem Known.or {a b : UInt8} (ha : Known a) (hb : Known b) : Known (a ||| b) := by
  have hdistrib : (a ||| b) &&& ~~~63 = a &&& ~~~63 ||| b &&& ~~~63 :=
    UInt8.eq_of_toBitVec_eq BitVec.and_or_distrib_right
  unfold Known at *
  rw [hdistrib, ha, hb]
  rfl

theorem Known.and {a : UInt8} (ha : Known a) (b : UInt8) : Known (a &&& b) := by
  unfold Known at *
  rw [UInt8.and_assoc, UInt8.and_comm b, ← UInt8.and_assoc, ha]
  exact UInt8.zero_and ..

theorem known_flagMaskFor {chr : Char} {flag : UInt8} (h : flagMaskFor chr = some flag) :
    Known flag := by
  unfold flagMaskFor at h
  split at h
  all_goals cases h
  all_goals rfl

theorem known_parseMask (token : Str) (rest : Str) {mask mask' : UInt8} (hmask : Known mask)
    (h : parseMask token mask rest = .ok mask') : Known mask' := by
  induction rest generalizing mask with
  | nil =>
    cases h
    exact hmask
  | cons chr rest ih =>
    unfold parseMask at h
    split at h
    · cases h
    split at h
    · cases h
    · rename_i flag hflag
      exact ih (hmask.or (known_flagMaskFor hflag)) h

theorem FlagOp.known_apply {op : FlagOp} (hop : Known op.mask) {bits : UInt8} (h : Known bits) :
    Known (op.apply bits) := by
  unfold FlagOp.apply
  split
  · exact h.or hop
  · exact h.and _
  · exact hop

theorem parseFlagOp_known (token : Str) : Ends (fun op => Known op.mask) (parseFlagOp token) := by
  have hzero : Known 0 := rfl
  unfold parseFlagOp
  split
  · exact .fail _
  split
  · exact .pure hzero
  split
  · exact .fail _
  · rename_i head rest _ _
    have hmask : Ends Known (Parse.ofExcept (parseMask (head :: rest) 0 rest)) := by
      intro mask hrun
      exact known_parseMask _ rest hzero (Option.some.inj hrun)
    refine hmask.bind ?_
    intro mask hknown
    split
    · exact .pure hknown
    split
    · exact .pure hknown
    split
    · exact .pure hknown
    · intro op hop
      cases hop

theorem parseTokens_known (selectors : List Selector) (operation : Option FlagOp)
    (tokens : List Str) (h : ∀ op, operation = some op → Known op.mask) :
    Ends (fun command => Known command.operation.mask)
      (parseTokens selectors operation tokens) := by
  fun_induction parseTokens selectors operation tokens with
  | case1 selectors operation => exact .pure (h operation rfl)
  | case2 selectors => exact .fail _
  | case3 selectors operation token rest hflag hsome => exact .fail _
  | case4 selectors operation token rest hflag hnone ih =>
    refine (parseFlagOp_known token).bind ?_
    intro op hop
    apply ih op
    intro op' heq
    cases heq
    exact hop
  | case5 selectors operation token rest hflag hunknown => exact .fail _
  | case6 selectors operation token hflag make hmake => exact .fail _
  | case7 selectors operation token hflag make hmake value rest ih =>
    exact (Ends.any _).bind fun selector _ => ih selector h

theorem parseLines_known (lines : List (List Str)) :
    Ends (fun commands => ∀ command ∈ commands, Known command.operation.mask) (parseLines lines) := by
  induction lines with
  | nil => exact .pure fun _ h => absurd h List.not_mem_nil
  | cons tokens lines ih =>
    refine (parseTokens_known [] none tokens fun _ h => nomatch h).bind ?_
    intro command hcommand
    refine ih.bind ?_
    intro commands hcommands
    exact .pure (List.forall_mem_cons.mpr ⟨hcommand, hcommands⟩)

theorem parseCommands_known (query : Str) :
    Ends (fun commands => ∀ command ∈ commands, Known command.operation.mask)
      (parseCommands query) := by
  refine (Ends.any _).bind ?_
  intro tokenLines _
  split
  · exact .fail _
  · exact parseLines_known tokenLines

variable {κ : Type}

def AllKnown (control : ControlFile κ) : Prop := ∀ site ∈ control.sites, Known site.flags

theorem known_foldl (F : RawStaticFalseKey κ) {commands : List Command}
    (hcommands : ∀ command ∈ commands, Known command.operation.mask) {site : DebugSite κ}
    (h : Known site.flags) : Known (commands.foldl (Command.onSite F) site).flags := by
  induction commands generalizing site with
  | nil => exact h
  | cons command commands ih =>
    obtain ⟨hcommand, hcommands⟩ := List.forall_mem_cons.mp hcommands
    apply ih hcommands
    unfold Command.onSite
    split
    · rw [setFlags_flags]
      exact FlagOp.known_apply hcommand h
    · exact h

theorem AllKnown.step {F : RawStaticFalseKey κ} {control control' : ControlFile κ} {event : Event}
    {answer : Answer} (h : AllKnown control) (hstep : step F control event = some (answer, control')) :
    AllKnown control' := by
  cases event with
  | write query =>
    obtain ⟨r, hexec, heq⟩ := Option.map_eq_some_iff.mp hstep
    cases heq
    rcases exec_write F query control with ⟨e, hexec'⟩ | ⟨commands, hparse, hexec'⟩
    · cases hexec.symm.trans hexec'
      exact h
    · cases hexec.symm.trans hexec'
      intro site hsite
      obtain ⟨old, hold, rfl⟩ := List.mem_map.mp hsite
      exact known_foldl F (parseCommands_known query commands hparse) (h old hold)
  | read =>
    cases hstep
    exact h
  | hit i threadId args =>
    cases hstep
    exact h

theorem column_eq_text {bits : UInt8} (h : Known bits) :
    flagsToString bits = FlagOp.text ⟨.replace, bits⟩ := by
  obtain ⟨n, hn, rfl⟩ := known_lt h
  have hall : ∀ n < 64, flagsToString (.ofNat n) = FlagOp.text ⟨.replace, .ofNat n⟩ := by
    decide +kernel
  exact hall n hn

/-- A command of selectors with a column of the listing between them. -/
def restoring (selectors : List Selector) (position : Nat) (column : Str) : Str :=
  joinWords ((selectors.take position).flatMap Selector.words ++
    column :: (selectors.drop position).flatMap Selector.words)

theorem write_restoring (F : RawStaticFalseKey κ) {bits : UInt8} (h : Known bits)
    {selectors : List Selector} (hvalues : ∀ s ∈ selectors, s.value ≠ []) (position : Nat)
    (control : ControlFile κ) :
    (write F (restoring selectors position (flagsToString bits))).exec control = some
      (.ok (control.sites.countP fun site => selectors.all (Selector.matches site)),
        ⟨control.sites.map fun site =>
          if selectors.all (Selector.matches site) then site.setFlags F bits else site⟩) := by
  have hprintable : Command.Printable ⟨selectors, ⟨.replace, bits⟩⟩ := ⟨hvalues, h, fun _ => rfl⟩
  have hparse := parseCommands_printCommands ⟨⟨selectors, ⟨.replace, bits⟩⟩, position⟩ []
    hprintable (fun _ he => absurd he List.not_mem_nil) (fun _ he => absurd he List.not_mem_nil)
  have htext : printCommands ⟨⟨selectors, ⟨.replace, bits⟩⟩, position⟩ [] =
      restoring selectors position (flagsToString bits) := by
    rw [column_eq_text h]
    exact List.append_nil _
  rw [htext] at hparse
  unfold write
  simp only [Call.exec_bind, Call.exec_orPanic, hparse, Option.map_some, Option.bind_some,
    Call.exec_ofExcept, Call.exec_self, Call.exec_update, Call.exec_pure, applyCommands_eq,
    List.map_cons, List.map_nil, List.sum_cons, List.sum_nil, Nat.add_zero]
  rfl

/-- The flags that a control file lists after any calls and hits, between any selectors as a
command, are the flags of exactly the sites selected, and nothing else changes but their keys. -/
theorem listed_flags_written (F : RawStaticFalseKey κ) (rawSites : List (DebugSite κ))
    (hflags : ∀ site ∈ rawSites, site.flags = 0) (events : List Event) {answers : List Answer}
    {control : ControlFile κ}
    (hrun : Machine.run (step F) (dynamicDebugInit rawSites) events = some (answers, control))
    (site : DebugSite κ) (hsite : site ∈ control.sites) {selectors : List Selector}
    (hvalues : ∀ s ∈ selectors, s.value ≠ []) (position : Nat) (other : ControlFile κ) :
    (write F (restoring selectors position (flagsToString site.flags))).exec other = some
      (.ok (other.sites.countP fun s => selectors.all (Selector.matches s)),
        ⟨other.sites.map fun s =>
          if selectors.all (Selector.matches s) then s.setFlags F site.flags else s⟩) := by
  have hstart : AllKnown (dynamicDebugInit rawSites) := by
    intro s hs
    rw [hflags s ((StableSort.perm_sortBy cmpSites rawSites).mem_iff.mp hs)]
    rfl
  have hknown := Machine.run_invariant (fun _ _ _ _ h hstep => AllKnown.step h hstep) events hstart
    hrun
  exact write_restoring F (hknown site hsite) hvalues position other

/-- The site as a write has left it, with a prefix of function and line. -/
def printedSite : DebugSite Bool := { namedSite with flags := 0x29, key := true }

def printed : ControlFile Bool := ⟨[printedSite, demoSite]⟩

theorem write_printed : (write flagKey (restoring [.func "work".toList] 1 "=pfl".toList)).exec
    (dynamicDebugInit [demoSite, namedSite]) = some (.ok 1, printed) :=
  write_restoring flagKey (rfl : Known 0x29) (by simp [Selector.value]) 1 _

/-- The site is switched on, hit and listed. Its column takes the flags to a file in which the site is
off. -/
theorem listed_flags_written_work :
    flagsToString printedSite.flags = "=pfl".toList ∧
    (write flagKey (restoring [.line ⟨9, 9, by decide⟩] 0 (flagsToString printedSite.flags))).exec
        ⟨[demoSite, namedSite]⟩ = some (.ok 1, ⟨[demoSite, printedSite]⟩) := by
  have hrun : Machine.run (step flagKey) (dynamicDebugInit [demoSite, namedSite])
      [.write (restoring [.func "work".toList] 1 "=pfl".toList), .hit 0 3 "n=1".toList, .read] =
        some ([.written (.ok 1), .emitted (some "work line:9 n=1\n".toList),
          .listing (read printed)], printed) := by
    simp only [Machine.run, step, write_printed, Option.map_some]
    rfl
  exact ⟨rfl, listed_flags_written flagKey [demoSite, namedSite] (by simp [demoSite, namedSite]) _ hrun
    printedSite List.mem_cons_self (by decide) 0 ⟨[demoSite, namedSite]⟩⟩

end ExtKtrace.Ddebug
