import ExtKtrace.Ddebug.Logger

/-!
# Call sites refine the logger

Each site shows an entry of the logger: its flags as bits, its static key in step with them.
-/

namespace ExtKtrace.Ddebug
set_option autoImplicit false

open StableSort
open Utf8 (encode)

variable {κ : Type} {F : RawStaticFalseKey κ}

structure Shows (F : RawStaticFalseKey κ) (site : DebugSite κ) (entry : Entry) : Prop where
  place : site.place = entry.place
  flags : flagsIn site.flags = entry.flags
  inStep : InStep F site

theorem flagsIn_apply (op : FlagOp) (bits : UInt8) :
    flagsIn (op.apply bits) = op.onFlags (flagsIn bits) := by
  ext f
  rw [mem_flagsIn_iff, FlagOp.getLsbD_apply]
  unfold FlagOp.onFlags
  cases op.kind with
  | add => rw [Finset.mem_union, mem_flagsIn_iff, mem_flagsIn_iff, Bool.or_eq_true]
  | remove =>
    rw [Finset.mem_sdiff, mem_flagsIn_iff, mem_flagsIn_iff, Bool.and_eq_true, Bool.not_eq_true',
      Bool.not_eq_true]
  | replace => rw [mem_flagsIn_iff]
theorem matches_eq_selects (command : Command) (site : DebugSite κ) :
    command.matches site = command.selects site.place := by
  unfold Command.matches Command.selects
  apply congrArg (List.all command.selectors)
  funext selector
  cases selector <;> rfl

/-- What is put behind a text under a condition. -/
theorem append_ite (c : Bool) (out text : Str) :
    (if c then out ++ text else out) = out ++ if c then text else [] := by
  cases c with
  | true => rfl
  | false => exact (List.append_nil out).symm

/-- Where a site is, as the flags have it. -/
def location (site : DebugSite κ) (flags : UInt8) : Str :=
  if flags &&& FLAG_SOURCE != 0 then
    site.file ++ ((if flags &&& FLAG_LINE != 0 then [':'] ++ decimal site.line.toNat else []) ++
      [' '])
  else if flags &&& FLAG_LINE != 0 then "line:".toList ++ decimal site.line.toNat ++ [' '] else []

theorem appendPrefix_eq (threadId : UInt64) (site : DebugSite κ) (flags : UInt8) (out : Str) :
    appendPrefix threadId site flags out = out ++
      ((if flags &&& FLAG_THREAD != 0 then "tid=".toList ++ decimal threadId.toNat ++ [' '] else []) ++
        ((if flags &&& FLAG_MODULE != 0 then ['['] ++ site.module ++ [']', ' '] else []) ++
          ((if flags &&& FLAG_FUNC != 0 && !site.function.isEmpty then site.function ++ [' ']
            else []) ++ location site flags))) := by
  have hthree : ∀ (c : Bool) (out a b d : Str),
      (if c then out ++ a ++ b ++ d else out) = out ++ if c then a ++ b ++ d else [] := by
    intro c out a b d
    rw [← append_ite, List.append_assoc out, List.append_assoc out]
  have htwo : ∀ (c : Bool) (out a b : Str),
      (if c then out ++ a ++ b else out) = out ++ if c then a ++ b else [] := by
    intro c out a b
    rw [← append_ite, List.append_assoc out]
  unfold appendPrefix location
  dsimp only
  rw [hthree, hthree, htwo, htwo]
  split
  · simp only [List.append_assoc]
  split
  · simp only [List.append_assoc]
  · simp only [List.append_assoc, List.append_nil]

namespace Shows
variable {site : DebugSite κ} {entry : Entry}

theorem matches_eq (h : Shows F site entry) (command : Command) :
    command.matches site = command.selects entry.place := by
  rw [matches_eq_selects, h.place]

theorem onSite (h : Shows F site entry) (command : Command) :
    Shows F (command.onSite F site) (command.onEntry entry) := by
  refine ⟨?_, ?_, h.inStep.onSite command⟩
  · have hplace := samePlace_onSite (F := F) site command
    have hentry : (command.onEntry entry).place = entry.place := by
      unfold Command.onEntry
      split <;> rfl
    rw [hentry, ← h.place]
    unfold DebugSite.place
    rw [hplace.line, hplace.module, hplace.file, hplace.function, hplace.format]
  · unfold Command.onSite Command.onEntry
    rw [h.matches_eq]
    split
    · rw [setFlags_flags]
      unfold Command.apply
      rw [flagsIn_apply, h.flags]
    · exact h.flags

theorem foldl (h : Shows F site entry) (commands : List Command) :
    Shows F (commands.foldl (Command.onSite F) site) (commands.foldl Command.onEntry entry) := by
  induction commands generalizing site entry with
  | nil => exact h
  | cons command commands ih => exact ih (h.onSite command)

end Shows

section
variable (site : DebugSite κ) (bits : UInt8)

theorem flag_eq (f : Flag) : (bits &&& f.mask != 0) = decide (f ∈ flagsIn bits) := by
  rw [Bool.eq_iff_iff, decide_eq_true_iff, mem_flagsIn, bne_iff_ne]

theorem location_eq : location site bits = Entry.location ⟨site.place, flagsIn bits⟩ := by
  have hsource : (bits &&& FLAG_SOURCE != 0) = _ := flag_eq bits .source
  have hline : (bits &&& FLAG_LINE != 0) = _ := flag_eq bits .line
  unfold location Entry.location
  rw [hsource, hline]
  simp only [decide_eq_true_eq, DebugSite.place, List.append_assoc, List.singleton_append]

theorem header_eq (threadId : UInt64) :
    appendPrefix threadId site bits [] = Entry.header threadId ⟨site.place, flagsIn bits⟩ := by
  have hthread : (bits &&& FLAG_THREAD != 0) = _ := flag_eq bits .thread
  have hmodule : (bits &&& FLAG_MODULE != 0) = _ := flag_eq bits .module
  have hfunc : (bits &&& FLAG_FUNC != 0) = _ := flag_eq bits .func
  have hnamed : (decide (Flag.func ∈ flagsIn bits) && !site.function.isEmpty) =
      decide (Flag.func ∈ flagsIn bits ∧ site.place.function ≠ []) := by
    rw [Bool.decide_and]
    congr 1
    cases hname : site.function <;> simp [DebugSite.place, hname]
  rw [appendPrefix_eq, hthread, hmodule, hfunc, hnamed, location_eq, List.nil_append]
  unfold Entry.header
  simp only [decide_eq_true_eq]
  simp only [DebugSite.place, List.append_assoc, List.cons_append, List.nil_append]

theorem print_eq : prints bits = decide (Flag.print ∈ flagsIn bits) := flag_eq bits .print

/-- What is emitted with the flags that have been loaded. -/
theorem dynamicPrDebug_eq (threadId : UInt64) (args : Str) :
    dynamicPrDebug threadId site bits args = Entry.hit threadId args ⟨site.place, flagsIn bits⟩ := by
  have hprint := print_eq bits
  unfold dynamicPrDebug Entry.hit
  by_cases hmem : Flag.print ∈ flagsIn bits
  · have hflag : (bits &&& FLAG_PRINT == 0) = false := by
      rw [decide_eq_true hmem] at hprint
      exact beq_eq_false_iff_ne.mpr (bne_iff_ne.mp hprint)
    rw [if_pos hmem, hflag, header_eq]
    rfl
  · have hflag : (bits &&& FLAG_PRINT == 0) = true := by
      rw [decide_eq_false hmem] at hprint
      exact beq_iff_eq.mpr (not_not.mp fun h => absurd hprint (by simp [prints, h]))
    rw [if_neg hmem, hflag]
    rfl

end

theorem Shows.eq {site : DebugSite κ} {entry : Entry} (h : Shows F site entry) :
    entry = ⟨site.place, flagsIn site.flags⟩ := by
  cases entry
  simp only [Entry.mk.injEq]
  exact ⟨h.place.symm, h.flags.symm⟩

theorem Shows.hit_eq {site : DebugSite κ} {entry : Entry} (h : Shows F site entry)
    (threadId : UInt64) (args : Str) : prDebug F threadId site args = entry.hit threadId args := by
  have hkey : F.isEnabled site.key = decide (Flag.print ∈ flagsIn site.flags) :=
    h.inStep.trans (print_eq site.flags)
  unfold prDebug
  rw [hkey, h.eq]
  by_cases hmem : Flag.print ∈ flagsIn site.flags
  · rw [if_pos (decide_eq_true hmem), dynamicPrDebug_eq]
  · rw [if_neg (by simpa using hmem)]
    exact (if_neg hmem).symm

/-- The letters of the flags that are set, behind what is there. -/
theorem foldl_letters (p : UInt8 × Char → Bool) (l : List (UInt8 × Char)) (out : Str) :
    l.foldl (fun out e => if p e then out ++ [e.2] else out) out =
      out ++ (l.filter p).map Prod.snd := by
  induction l generalizing out with
  | nil => exact (List.append_nil out).symm
  | cons e l ih =>
    rw [List.foldl_cons, ih, List.filter_cons]
    split
    · rw [List.map_cons, List.append_assoc, List.singleton_append]
    · rfl

theorem flagLetters_eq : flagLetters = Flag.all.map fun f => (f.mask, f.letter) := rfl

theorem flagsToString_eq (bits : UInt8) : flagsToString bits = Entry.column (flagsIn bits) := by
  have hletters : (flagLetters.filter fun e => bits &&& e.1 != 0).map Prod.snd =
      (Flag.all.filter (· ∈ flagsIn bits)).map Flag.letter := by
    rw [flagLetters_eq, List.filter_map, List.map_map]
    apply congrArg
    apply List.filter_congr
    intro f _
    rw [Bool.eq_iff_iff, decide_eq_true_iff, mem_flagsIn]
    exact bne_iff_ne
  unfold flagsToString Entry.column
  dsimp only
  rw [foldl_letters, hletters]
  by_cases hempty : flagsIn bits = ∅
  · rw [hempty]
    rfl
  · obtain ⟨f, hf⟩ := Finset.nonempty_iff_ne_empty.mpr hempty
    have hmem : f ∈ Flag.all.filter (· ∈ flagsIn bits) :=
      List.mem_filter.mpr ⟨f.mem_all, decide_eq_true hf⟩
    have hlength := List.length_pos_of_mem hmem
    rw [if_neg hempty, if_neg]
    · rfl
    · rw [List.length_append, List.length_map, List.length_singleton]
      omega

theorem Shows.line_eq {site : DebugSite κ} {entry : Entry} (h : Shows F site entry) (out : Str) :
    writeSiteLine out site = out ++ entry.line := by
  unfold writeSiteLine Entry.line
  rw [flagsToString_eq, h.flags, ← h.place]
  dsimp only [DebugSite.place]
  split
  · rename_i hempty
    rw [List.isEmpty_iff.mp hempty]
    simp
  · simp

theorem read_eq {sites : List (DebugSite κ)} {logger : Logger}
    (h : List.Forall₂ (Shows F) sites logger) (out : Str) :
    sites.foldl writeSiteLine out = out ++ logger.flatMap Entry.line := by
  induction h generalizing out with
  | nil => exact (List.append_nil out).symm
  | cons hhead _ ih => rw [List.foldl_cons, hhead.line_eq, ih, List.flatMap_cons, List.append_assoc]

theorem forall₂_countP {sites : List (DebugSite κ)} {logger : Logger}
    (h : List.Forall₂ (Shows F) sites logger) (command : Command) :
    sites.countP command.matches = logger.countP fun e => command.selects e.place := by
  induction h with
  | nil => rfl
  | cons hhead _ ih => rw [List.countP_cons, List.countP_cons, ih, hhead.matches_eq]

theorem write_refines {control : ControlFile κ} {logger : Logger}
    (h : List.Forall₂ (Shows F) control.sites logger) (query : Str) :
    ∃ control', (write F query).exec control = some ((Logger.write query logger).1, control') ∧
      List.Forall₂ (Shows F) control'.sites (Logger.write query logger).2 := by
  have hparsed : (parseCommands query).run = some (commandsOf query) := (Option.some_get _).symm
  unfold Logger.write
  cases hcommands : commandsOf query with
  | error e =>
    rw [hcommands] at hparsed
    refine ⟨control, ?_, h⟩
    unfold write
    simp only [Call.exec_bind, Call.exec_orPanic, hparsed, Option.map_some, Option.bind_some,
      Call.exec_ofExcept]
  | ok commands =>
    rw [hcommands] at hparsed
    refine ⟨⟨control.sites.map fun site => commands.foldl (Command.onSite F) site⟩, ?_, ?_⟩
    · have hcounts : (commands.map fun command => control.sites.countP command.matches) =
          commands.map fun command => logger.countP fun e => command.selects e.place :=
        List.map_congr_left fun command _ => forall₂_countP h command
      unfold write
      simp only [Call.exec_bind, Call.exec_orPanic, hparsed, Option.map_some, Option.bind_some,
        Call.exec_ofExcept, Call.exec_self, Call.exec_update, Call.exec_pure, applyCommands_eq,
        hcounts]
    · dsimp only
      rw [List.forall₂_map_left_iff, List.forall₂_map_right_iff]
      exact h.imp fun site entry hshows => hshows.foldl commands

theorem step_refines : Machine.Refines
    (fun (control : ControlFile κ) logger => List.Forall₂ (Shows F) control.sites logger) (step F)
    Logger.step := by
  intro control logger event h
  cases event with
  | write query =>
    obtain ⟨control', hexec, hshows⟩ := write_refines h query
    refine ⟨control', ?_, hshows⟩
    unfold step
    dsimp only
    rw [hexec]
    rfl
  | read =>
    refine ⟨control, ?_, h⟩
    unfold step read Logger.step Logger.listing
    rw [read_eq h]
  | hit i threadId args =>
    refine ⟨control, ?_, h⟩
    have hhit : (control.sites[i]?.bind fun site => prDebug F threadId site args) =
        logger[i]?.bind (Entry.hit threadId args) := by
      cases hsite : control.sites[i]? with
      | none =>
        have hlength := List.getElem?_eq_none_iff.mp hsite
        rw [h.length_eq] at hlength
        rw [List.getElem?_eq_none_iff.mpr hlength]
        rfl
      | some site =>
        obtain ⟨hi, rfl⟩ := List.getElem?_eq_some_iff.mp hsite
        have hi' : i < logger.length := h.length_eq ▸ hi
        rw [List.getElem?_eq_getElem hi']
        exact (h.get hi hi').hit_eq threadId args
    unfold step Logger.step
    dsimp only
    rw [hhit]

section Start
attribute [local instance] lexOrd

theorem Place.key_injective : Function.Injective Place.key := by
  intro p q h
  obtain ⟨hfile, hline, hmodule, hfunction, hformat⟩ := by simpa only [Place.key, Prod.mk.injEq] using h
  cases p
  cases q
  simp only [Place.mk.injEq]
  exact ⟨hline, Utf8.encode_injective hmodule, Utf8.encode_injective hfile,
    Utf8.encode_injective hfunction, Utf8.encode_injective hformat⟩

/-- The order of the section does not matter. -/
theorem Logger.start_eq_of_perm {places places' : List Place} (h : places.Perm places') :
    Logger.start places = Logger.start places' := by
  have hperm : (sortByKey Place.key places).Perm (sortByKey Place.key places') :=
    (perm_sortByKey _ _).trans (h.trans (perm_sortByKey _ _).symm)
  unfold Logger.start
  apply congrArg
  refine List.Perm.eq_of_pairwise ?_ (sorted_sortByKey Place.key places)
    (sorted_sortByKey Place.key places') hperm
  intro p q _ _ hpq hqp
  exact Place.key_injective (Std.LawfulEqOrd.eq_of_compare (Std.OrientedCmp.isLE_antisymm hpq hqp))

theorem scanDebugSites_eq (rawSites : List (DebugSite κ)) :
    scanDebugSites rawSites = sortByKey (fun site => site.place.key) rawSites := rfl

theorem start_refines {rawSites : List (DebugSite κ)} (hflags : ∀ site ∈ rawSites, site.flags = 0)
    (hkeys : ∀ site ∈ rawSites, F.isEnabled site.key = false) {places : List Place}
    (hplaces : places.Perm (rawSites.map DebugSite.place)) :
    List.Forall₂ (Shows F) (dynamicDebugInit rawSites).sites (Logger.start places) := by
  have hsorted : (scanDebugSites rawSites).map DebugSite.place =
      sortByKey Place.key (rawSites.map DebugSite.place) := by
    rw [scanDebugSites_eq]
    exact map_sortByKey DebugSite.place Place.key rawSites
  rw [Logger.start_eq_of_perm hplaces]
  unfold dynamicDebugInit Logger.start
  dsimp only
  rw [← hsorted, List.map_map, List.forall₂_map_right_iff]
  refine List.forall₂_same.mpr ?_
  intro site hsite
  have hraw : site ∈ rawSites := (perm_sortBy cmpSites rawSites).mem_iff.mp hsite
  refine ⟨rfl, ?_, ?_⟩
  · rw [hflags site hraw, flagsIn_zero]
    rfl
  · unfold InStep
    rw [hkeys site hraw, hflags site hraw]
    rfl

end Start

/-- From the section of an image, in whatever order it was linked, any calls on the control file and
any hits are answered as the logger of the places answers them, and every site shows its entry. -/
theorem control_refines_logger (F : RawStaticFalseKey κ) (rawSites : List (DebugSite κ))
    (hflags : ∀ site ∈ rawSites, site.flags = 0)
    (hkeys : ∀ site ∈ rawSites, F.isEnabled site.key = false) (places : List Place)
    (hplaces : places.Perm (rawSites.map DebugSite.place)) (events : List Event) :
    ∃ control, Machine.run (step F) (dynamicDebugInit rawSites) events =
        some ((Machine.specRun Logger.step (Logger.start places) events).1, control) ∧
      List.Forall₂ (Shows F) control.sites
        (Machine.specRun Logger.step (Logger.start places) events).2 :=
  step_refines.run events (start_refines hflags hkeys hplaces)

def namedSite : DebugSite Bool :=
  ⟨0, 9, "demo".toList, "src/a.rs".toList, "work".toList, "n=".toList, false⟩

theorem control_refines_logger_demo :
    ∃ control, Machine.run (step flagKey) (dynamicDebugInit [demoSite, namedSite])
        [.write "func work =pfl".toList, .hit 0 3 "n=1".toList, .read] =
      some ((Machine.specRun Logger.step (Logger.start [namedSite.place, demoSite.place])
        [.write "func work =pfl".toList, .hit 0 3 "n=1".toList, .read]).1, control) ∧
      List.Forall₂ (Shows flagKey) control.sites
        (Machine.specRun Logger.step (Logger.start [namedSite.place, demoSite.place])
          [.write "func work =pfl".toList, .hit 0 3 "n=1".toList, .read]).2 :=
  control_refines_logger flagKey [demoSite, namedSite]
    (by simp only [List.forall_mem_cons]; exact ⟨rfl, rfl, fun _ h => absurd h List.not_mem_nil⟩)
    (by simp only [List.forall_mem_cons]; exact ⟨rfl, rfl, fun _ h => absurd h List.not_mem_nil⟩)
    [namedSite.place, demoSite.place] (List.Perm.swap ..) _

end ExtKtrace.Ddebug
