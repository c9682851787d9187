import ExtKtrace.Ddebug.LoggerRefinement

/-!
# Hits during a write

A write changes the flags of a site with one swap and then patches its key; hits on other processors
look at the key and load the flags on their own. The steps of both are taken in any order. There is
one control file, and a write has it to itself.
-/

namespace ExtKtrace.Ddebug.Concurrent
set_option autoImplicit false

variable {θ κ : Type} {F : RawStaticFalseKey κ}

/-- The end of `set_flags`, when `swap` has returned `prev`. -/
def switchKey (F : RawStaticFalseKey κ) (prev next : UInt8) (site : DebugSite κ) : DebugSite κ :=
  if prints prev = prints next then site
  else if prints next then { site with key := F.enable site.key }
  else { site with key := F.disable site.key }

theorem setFlags_eq (site : DebugSite κ) (next : UInt8) :
    site.setFlags F next = switchKey F site.flags next { site with flags := next } := rfl

/-- Where the writer is. The commands and sites that it has yet to go through begin with the ones
named; `matched` counts the sites changed so far. -/
inductive Writer where
  | idle
  | between (commands : List Command) (matched : Nat)
  | looking (command : Command) (rest : List Command) (site matched : Nat)
  | loaded (command : Command) (rest : List Command) (site matched : Nat) (current : UInt8)
  | swapped (command : Command) (rest : List Command) (site matched : Nat) (prev next : UInt8)

structure Hit where
  site : Nat
  threadId : UInt64
  args : Str

/-- Where a processor is. -/
inductive Pc where
  | idle
  | testing (hit : Hit)
  | loading (hit : Hit)
  | printing (hit : Hit) (flags : UInt8)

inductive Event (θ : Type) where
  | emitted (cpu : θ) (hit : Hit) (line : Option Str)
  | written (result : Except Error Nat)

structure State (θ κ : Type) where
  sites : List (DebugSite κ)
  writer : Writer
  pc : θ → Pc
  history : List (Event θ)

/-- A step of a write, with the sites it leaves. -/
def advance (F : RawStaticFalseKey κ) (sites : List (DebugSite κ)) :
    Writer → Option (Writer × List (DebugSite κ))
  | .idle | .between [] _ => none
  | .between (command :: rest) matched => some (.looking command rest 0 matched, sites)
  | .looking command rest i matched =>
    match sites[i]? with
    | none => some (.between rest matched, sites)
    | some site =>
      if command.matches site then some (.loaded command rest i matched site.flags, sites)
      else some (.looking command rest (i + 1) matched, sites)
  | .loaded command rest i matched current =>
    match sites[i]? with
    | none => none
    | some site =>
      some (.swapped command rest i matched site.flags (command.apply current),
        sites.set i { site with flags := command.apply current })
  | .swapped command rest i matched prev next =>
    some (.looking command rest (i + 1) (matched + 1), sites.modify i (switchKey F prev next))

variable [DecidableEq θ]

def State.go (cpu : θ) (pc : Pc) (events : List (Event θ)) (s : State θ κ) : State θ κ :=
  { s with pc := Function.update s.pc cpu pc, history := s.history ++ events }

inductive Step (F : RawStaticFalseKey κ) : State θ κ → State θ κ → Prop where
  | hit {s : State θ κ} (cpu : θ) (h : Hit) (hpc : s.pc cpu = .idle) :
    Step F s (s.go cpu (.testing h) [])
  | unlikely {s : State θ κ} (cpu : θ) {h : Hit} {site : DebugSite κ} (hpc : s.pc cpu = .testing h)
    (hsite : s.sites[h.site]? = some site) (hkey : F.isEnabled site.key = false) :
    Step F s (s.go cpu .idle [.emitted cpu h none])
  | likely {s : State θ κ} (cpu : θ) {h : Hit} {site : DebugSite κ} (hpc : s.pc cpu = .testing h)
    (hsite : s.sites[h.site]? = some site) (hkey : F.isEnabled site.key = true) :
    Step F s (s.go cpu (.loading h) [])
  | load {s : State θ κ} (cpu : θ) {h : Hit} {site : DebugSite κ} (hpc : s.pc cpu = .loading h)
    (hsite : s.sites[h.site]? = some site) : Step F s (s.go cpu (.printing h site.flags) [])
  | print {s : State θ κ} (cpu : θ) {h : Hit} {flags : UInt8} {site : DebugSite κ}
    (hpc : s.pc cpu = .printing h flags) (hsite : s.sites[h.site]? = some site) :
    Step F s (s.go cpu .idle [.emitted cpu h (dynamicPrDebug h.threadId site flags h.args)])
  | refuse {s : State θ κ} {query : Str} {e : Error} (hidle : s.writer = .idle)
    (hparse : commandsOf query = .error e) :
    Step F s { s with history := s.history ++ [.written (.error e)] }
  | parse {s : State θ κ} {query : Str} {commands : List Command} (hidle : s.writer = .idle)
    (hparse : commandsOf query = .ok commands) : Step F s { s with writer := .between commands 0 }
  | advance {s : State θ κ} {writer : Writer} {sites : List (DebugSite κ)}
    (hadvance : advance F s.sites s.writer = some (writer, sites)) :
    Step F s { s with writer := writer, sites := sites }
  | finish {s : State θ κ} {matched : Nat} (hwriter : s.writer = .between [] matched) :
    Step F s { s with writer := .idle, history := s.history ++ [.written (.ok matched)] }

/-- A run, in which nothing may happen for a while. -/
def Run (F : RawStaticFalseKey κ) (run : Nat → State θ κ) : Prop :=
  ∀ n, run (n + 1) = run n ∨ Step F (run n) (run (n + 1))

omit [DecidableEq θ] in
/-- The writer is between the swap and the key of a site. -/
def Writer.changing (i : Nat) : Writer → Option UInt8
  | .swapped _ _ j _ prev _ => if j = i then some prev else none
  | _ => none

/-- The flags that a site has. While it is being changed, that is those before and those after. -/
def State.flagsAt (s : State θ κ) (i : Nat) : List UInt8 :=
  (s.sites[i]?.map DebugSite.flags).toList ++ (s.writer.changing i).toList

section Sites
omit [DecidableEq θ]

structure Consistent (F : RawStaticFalseKey κ) (sites : List (DebugSite κ)) (writer : Writer) :
    Prop where
  keys : ∀ i site, sites[i]? = some site →
    F.isEnabled site.key = prints ((writer.changing i).getD site.flags)
  loaded : ∀ command rest i matched current, writer = .loaded command rest i matched current →
    ∃ site, sites[i]? = some site ∧ site.flags = current ∧ command.matches site = true
  swapped : ∀ command rest i matched prev next,
    writer = .swapped command rest i matched prev next →
      ∃ site, sites[i]? = some site ∧ site.flags = next

theorem isEnabled_switchKey {prev next : UInt8} {site : DebugSite κ}
    (hkey : F.isEnabled site.key = prints prev) :
    F.isEnabled (switchKey F prev next site).key = prints next := by
  unfold switchKey
  split
  · rename_i hsame
    exact hkey.trans hsame
  split
  · rename_i hprints
    exact (F.isEnabled_enable _).trans hprints.symm
  · rename_i hprints
    exact (F.isEnabled_disable _).trans (Bool.eq_false_iff.mpr hprints).symm

theorem place_switchKey (F : RawStaticFalseKey κ) (prev next : UInt8) (site : DebugSite κ) :
    (switchKey F prev next site).place = site.place ∧
      (switchKey F prev next site).flags = site.flags := by
  unfold switchKey
  split
  · exact ⟨rfl, rfl⟩
  split
  · exact ⟨rfl, rfl⟩
  · exact ⟨rfl, rfl⟩

variable {sites sites' : List (DebugSite κ)} {writer writer' : Writer}

/-- The writer has nothing loaded, and changes no site. -/
theorem Consistent.moved (h : Consistent F sites writer)
    (hchanging : ∀ i, writer.changing i = none) (hchanging' : ∀ i, writer'.changing i = none)
    (hloaded : ∀ command rest i matched current,
      writer' = .loaded command rest i matched current →
        ∃ site, sites[i]? = some site ∧ site.flags = current ∧ command.matches site = true) :
    Consistent F sites writer' where
  keys i site hsite := by
    have hkey := h.keys i site hsite
    rw [hchanging] at hkey
    rw [hchanging']
    exact hkey
  loaded := hloaded
  swapped command rest i matched prev next heq := by
    have hnone := hchanging' i
    rw [heq, Writer.changing, if_pos rfl] at hnone
    cases hnone

theorem Consistent.advance (h : Consistent F sites writer)
    (hadvance : advance F sites writer = some (writer', sites')) : Consistent F sites' writer' := by
  cases writer with
  | idle => cases hadvance
  | between commands matched =>
    cases commands with
    | nil => cases hadvance
    | cons command rest =>
      cases hadvance
      exact h.moved (fun _ => rfl) (fun _ => rfl) (fun _ _ _ _ _ heq => nomatch heq)
  | looking command rest i matched =>
    unfold Concurrent.advance at hadvance
    dsimp only at hadvance
    split at hadvance
    · cases hadvance
      exact h.moved (fun _ => rfl) (fun _ => rfl) (fun _ _ _ _ _ heq => nomatch heq)
    · rename_i site hsite
      split at hadvance
      · rename_i hmatches
        cases hadvance
        refine h.moved (fun _ => rfl) (fun _ => rfl) ?_
        intro _ _ _ _ _ heq
        cases heq
        exact ⟨site, hsite, rfl, hmatches⟩
      · cases hadvance
        exact h.moved (fun _ => rfl) (fun _ => rfl) (fun _ _ _ _ _ heq => nomatch heq)
  | loaded command rest i matched current =>
    obtain ⟨site, hsite, hflags, -⟩ := h.loaded command rest i matched current rfl
    have hi : i < sites.length := (List.getElem?_eq_some_iff.mp hsite).1
    unfold Concurrent.advance at hadvance
    dsimp only at hadvance
    rw [hsite] at hadvance
    cases hadvance
    refine ⟨?_, (fun _ _ _ _ _ heq => nomatch heq), ?_⟩
    · intro j site' hsite'
      by_cases hij : i = j
      · subst hij
        rw [List.getElem?_set_self hi] at hsite'
        cases hsite'
        rw [Writer.changing, if_pos rfl]
        exact h.keys i site hsite
      · rw [List.getElem?_set_ne hij] at hsite'
        rw [Writer.changing, if_neg hij]
        exact h.keys j site' hsite'
    · intro _ _ _ _ _ _ heq
      cases heq
      exact ⟨_, List.getElem?_set_self hi, rfl⟩
  | swapped command rest i matched prev next =>
    cases hadvance
    refine ⟨?_, (fun _ _ _ _ _ heq => nomatch heq), (fun _ _ _ _ _ _ heq => nomatch heq)⟩
    intro j site' hsite'
    rw [List.getElem?_modify] at hsite'
    by_cases hij : i = j
    · subst hij
      obtain ⟨site, hsite, hnext⟩ := h.swapped command rest i matched prev next rfl
      rw [hsite] at hsite'
      simp only [if_true, Option.map_eq_map, Option.map_some, Option.some.injEq] at hsite'
      subst hsite'
      have hkey := h.keys i site hsite
      rw [Writer.changing, if_pos rfl, Option.getD_some] at hkey
      have hflags := (place_switchKey F prev next site).2.trans hnext
      rw [isEnabled_switchKey hkey]
      exact congrArg prints hflags.symm
    · have hkey := h.keys j site' (by simpa [hij] using hsite')
      rw [Writer.changing, if_neg hij] at hkey
      exact hkey

theorem places_advance (hadvance : advance F sites writer = some (writer', sites')) :
    sites'.map DebugSite.place = sites.map DebugSite.place := by
  unfold Concurrent.advance at hadvance
  split at hadvance
  · cases hadvance
  · cases hadvance
  · cases hadvance
    rfl
  · split at hadvance
    · cases hadvance
      rfl
    split at hadvance
    · cases hadvance
      rfl
    · cases hadvance
      rfl
  · split at hadvance
    · cases hadvance
    · rename_i site hsite
      cases hadvance
      obtain ⟨hi, hget⟩ := List.getElem?_eq_some_iff.mp hsite
      rw [List.map_set]
      apply List.ext_getElem?
      intro j
      rw [List.getElem?_set]
      split
      · rename_i hij
        subst hij
        rw [List.getElem?_map, hsite]
        simp [hi, DebugSite.place]
      · rfl
  · cases hadvance
    apply List.ext_getElem?
    intro j
    rw [List.getElem?_map, List.getElem?_map, List.getElem?_modify]
    cases hsite : sites[j]? with
    | none => rfl
    | some site =>
      split
      · exact congrArg some (place_switchKey F _ _ site).1
      · rfl

end Sites

variable {run : Nat → State θ κ}

/-- Where a run starts: no write is under way, and the keys are in step. -/
structure Starts (F : RawStaticFalseKey κ) (s : State θ κ) : Prop where
  idle : s.writer = .idle
  inStep : ∀ site ∈ s.sites, InStep F site

theorem Step.consistent {s s' : State θ κ} (hstep : Step F s s')
    (h : Consistent F s.sites s.writer) : Consistent F s'.sites s'.writer := by
  have hidle : ∀ {writer : Writer}, writer = .idle → ∀ i, writer.changing i = none := by
    rintro _ rfl _
    rfl
  cases hstep with
  | hit | unlikely | likely | load | print => exact h
  | refuse hw _ => exact h
  | parse hw _ =>
    exact h.moved (hidle hw) (fun _ => rfl) (fun _ _ _ _ _ heq => nomatch heq)
  | advance hadvance => exact h.advance hadvance
  | finish hw =>
    exact h.moved (fun _ => by rw [hw]; rfl) (fun _ => rfl) (fun _ _ _ _ _ heq => nomatch heq)

theorem Run.consistent (hrun : Run F run) (hstart : Starts F (run 0)) (n : Nat) :
    Consistent F (run n).sites (run n).writer := by
  induction n with
  | zero =>
    rw [hstart.idle]
    refine ⟨?_, (fun _ _ _ _ _ heq => nomatch heq), (fun _ _ _ _ _ _ heq => nomatch heq)⟩
    exact fun i site hsite => hstart.inStep site (List.mem_of_getElem? hsite)
  | succ n ih =>
    rcases hrun n with heq | hstep
    · rw [heq]
      exact ih
    · exact hstep.consistent ih

theorem Step.places {s s' : State θ κ} (hstep : Step F s s') :
    s'.sites.map DebugSite.place = s.sites.map DebugSite.place := by
  cases hstep with
  | hit | unlikely | likely | load | print | refuse | parse | finish => rfl
  | advance hadvance => exact places_advance hadvance

theorem Run.places (hrun : Run F run) (n : Nat) :
    (run n).sites.map DebugSite.place = (run 0).sites.map DebugSite.place := by
  induction n with
  | zero => rfl
  | succ n ih =>
    rcases hrun n with heq | hstep
    · rw [heq]
      exact ih
    · rw [hstep.places, ih]

theorem pc_go (s : State θ κ) (other cpu : θ) (pc : Pc) (events : List (Event θ)) :
    (s.go other pc events).pc cpu = if cpu = other then pc else s.pc cpu :=
  Function.update_apply ..

/-- A processor prints with flags that it has had before, or that it loads. -/
theorem Step.loads {s s' : State θ κ} (hstep : Step F s s') {cpu : θ} {h : Hit} {flags : UInt8}
    (hafter : s'.pc cpu = .printing h flags) :
    s.pc cpu = .printing h flags ∨
      ∃ site, s.sites[h.site]? = some site ∧ site.flags = flags := by
  cases hstep with
  | refuse | parse | advance | finish => exact .inl hafter
  | load other hpc hsite =>
    rw [pc_go] at hafter
    split at hafter
    · cases hafter
      exact .inr ⟨_, hsite, rfl⟩
    · exact .inl hafter
  | hit other h' hpc =>
    rw [pc_go] at hafter
    split at hafter
    · cases hafter
    · exact .inl hafter
  | unlikely other hpc | likely other hpc | print other hpc =>
    rw [pc_go] at hafter
    split at hafter
    · cases hafter
    · exact .inl hafter

/-- What a processor prints with is what the site had at some moment of the hit. -/
theorem Run.loaded (hrun : Run F run) {cpu : θ} {h : Hit} {flags : UInt8} {j k : Nat} (hjk : j ≤ k)
    (hbegun : (run j).pc cpu = .testing h) (hprinting : (run k).pc cpu = .printing h flags) :
    ∃ m, j ≤ m ∧ m ≤ k ∧ flags ∈ (run m).flagsAt h.site := by
  induction k, hjk using Nat.le_induction with
  | base =>
    rw [hbegun] at hprinting
    cases hprinting
  | succ k hjk ih =>
    have hearlier : (run k).pc cpu = .printing h flags →
        ∃ m, j ≤ m ∧ m ≤ k + 1 ∧ flags ∈ (run m).flagsAt h.site := by
      intro hpc
      obtain ⟨m, hjm, hmk, hmem⟩ := ih hpc
      exact ⟨m, hjm, Nat.le_succ_of_le hmk, hmem⟩
    rcases hrun k with heq | hstep
    · rw [heq] at hprinting
      exact hearlier hprinting
    · rcases hstep.loads hprinting with hpc | ⟨site, hsite, rfl⟩
      · exact hearlier hpc
      · refine ⟨k, hjk, Nat.le_succ k, List.mem_append_left _ ?_⟩
        rw [hsite]
        exact List.mem_singleton_self _

/-- How a hit ends. -/
theorem Step.ends {s s' : State θ κ} (hstep : Step F s s') {cpu : θ} {h : Hit} {line : Option Str}
    (hended : s'.history = s.history ++ [.emitted cpu h line]) :
    ∃ site, s.sites[h.site]? = some site ∧
      ((s.pc cpu = .testing h ∧ F.isEnabled site.key = false ∧ line = none) ∨
        ∃ flags, s.pc cpu = .printing h flags ∧
          line = dynamicPrDebug h.threadId site flags h.args) := by
  cases hstep with
  | unlikely other hpc hsite hkey =>
    cases List.append_cancel_left hended
    exact ⟨_, hsite, .inl ⟨hpc, hkey, rfl⟩⟩
  | print other hpc hsite =>
    cases List.append_cancel_left hended
    exact ⟨_, hsite, .inr ⟨_, hpc, rfl⟩⟩
  | hit | likely | load => cases List.append_cancel_left hended
  | refuse | finish => cases List.append_cancel_left hended
  | parse | advance =>
    exact absurd (congrArg List.length hended) (by simp)

omit [DecidableEq θ] in
/-- A site whose key is off has, or had before the change that is under way, no print flag. -/
theorem Consistent.quiet {s : State θ κ} (h : Consistent F s.sites s.writer) {i : Nat}
    {site : DebugSite κ} (hsite : s.sites[i]? = some site) (hkey : F.isEnabled site.key = false) :
    ∃ flags ∈ s.flagsAt i, prints flags = false := by
  have hprints := (h.keys i site hsite).symm.trans hkey
  unfold State.flagsAt
  cases hchanging : s.writer.changing i with
  | none =>
    rw [hchanging] at hprints
    refine ⟨site.flags, List.mem_append_left _ ?_, hprints⟩
    rw [hsite]
    exact List.mem_singleton_self _
  | some prev =>
    rw [hchanging] at hprints
    exact ⟨prev, List.mem_append_right _ (List.mem_singleton_self _), hprints⟩

/-- A hit that ends at some moment is answered as the logger answers it with flags that the site has
had since the hit began. While the site is being changed, those before the change count as well. -/
theorem hit_answers (hrun : Run F run) (hstart : Starts F (run 0)) (cpu : θ) (h : Hit) {j k : Nat}
    (hjk : j ≤ k) (hbegun : (run j).pc cpu = .testing h) {line : Option Str}
    (hended : (run (k + 1)).history = (run k).history ++ [.emitted cpu h line]) :
    ∃ m, j ≤ m ∧ m ≤ k ∧ ∃ flags ∈ (run m).flagsAt h.site,
      ∃ site, (run 0).sites[h.site]? = some site ∧
        line = Entry.hit h.threadId h.args ⟨site.place, flagsIn flags⟩ := by
  have hlast : Step F (run k) (run (k + 1)) := by
    refine (hrun k).resolve_left ?_
    intro heq
    rw [heq] at hended
    exact absurd (congrArg List.length hended) (by simp)
  obtain ⟨site, hsite, hcases⟩ := hlast.ends hended
  have hplace : ∃ site₀, (run 0).sites[h.site]? = some site₀ ∧ site₀.place = site.place := by
    have hplaces := congrArg (·[h.site]?) (hrun.places k)
    simp only [List.getElem?_map, hsite, Option.map_some] at hplaces
    exact Option.map_eq_some_iff.mp hplaces.symm
  obtain ⟨site₀, hsite₀, hplace⟩ := hplace
  rcases hcases with ⟨-, hkey, rfl⟩ | ⟨flags, hprinting, rfl⟩
  · obtain ⟨flags, hmem, hprints⟩ := (hrun.consistent hstart k).quiet hsite hkey
    refine ⟨k, hjk, Nat.le_refl k, flags, hmem, site₀, hsite₀, ?_⟩
    rw [print_eq, decide_eq_false_iff_not] at hprints
    exact (if_neg hprints).symm
  · obtain ⟨m, hjm, hmk, hmem⟩ := hrun.loaded hjk hbegun hprinting
    refine ⟨m, hjm, hmk, flags, hmem, site₀, hsite₀, ?_⟩
    rw [hplace, dynamicPrDebug_eq]

/-- What the sites and the count come to when the writer goes on alone. -/
def outcome (F : RawStaticFalseKey κ) (sites : List (DebugSite κ)) :
    Writer → List (DebugSite κ) × Nat
  | .idle => (sites, 0)
  | .between commands matched =>
    let last := applyCommands F commands sites
    (last.1, matched + last.2)
  | .looking command rest i matched | .loaded command rest i matched _ =>
    let first := applyCommand F command (sites.drop i)
    let last := applyCommands F rest (sites.take i ++ first.1)
    (last.1, matched + first.2 + last.2)
  | .swapped command rest i matched prev next =>
    let sites := sites.modify i (switchKey F prev next)
    let first := applyCommand F command (sites.drop (i + 1))
    let last := applyCommands F rest (sites.take (i + 1) ++ first.1)
    (last.1, matched + 1 + first.2 + last.2)

section Sites
omit [DecidableEq θ]
variable {sites sites' : List (DebugSite κ)} {writer writer' : Writer}

theorem outcome_looking {command : Command} {rest : List Command} {i matched : Nat}
    {site : DebugSite κ} (hsite : sites[i]? = some site) :
    outcome F sites (.looking command rest i matched) =
      if command.matches site then
        outcome F (sites.set i (site.setFlags F (command.apply site.flags)))
          (.looking command rest (i + 1) (matched + 1))
      else outcome F sites (.looking command rest (i + 1) matched) := by
  obtain ⟨hi, hget⟩ := List.getElem?_eq_some_iff.mp hsite
  have hdrop : sites.drop i = site :: sites.drop (i + 1) := by
    rw [List.drop_eq_getElem_cons hi, hget]
  have htake : ∀ x : DebugSite κ, (sites.set i x).take (i + 1) = sites.take i ++ [x] := by
    intro x
    rw [List.take_set, List.take_succ_eq_append_getElem hi, List.set_append_right]
    · simp [Nat.min_eq_left hi.le]
    · simp
  have hbehind : ∀ x : DebugSite κ, (sites.set i x).drop (i + 1) = sites.drop (i + 1) := by
    intro x
    rw [List.drop_set, if_pos (Nat.lt_succ_self i)]
  unfold outcome
  dsimp only
  rw [hdrop, applyCommand]
  split
  · rw [htake, hbehind]
    simp only [List.append_assoc, List.singleton_append, Nat.add_assoc, Nat.add_comm 1]
  · have htake' : sites.take (i + 1) = sites.take i ++ [site] := by
      rw [List.take_succ_eq_append_getElem hi, hget]
    rw [htake']
    simp only [List.append_assoc, List.singleton_append]

/-- A step of a write does not change what it comes to. -/
theorem Consistent.outcome_advance (h : Consistent F sites writer)
    (hadvance : Concurrent.advance F sites writer = some (writer', sites')) :
    outcome F sites' writer' = outcome F sites writer := by
  cases writer with
  | idle => cases hadvance
  | between commands matched =>
    cases commands with
    | nil => cases hadvance
    | cons command rest =>
      cases hadvance
      unfold outcome
      dsimp only
      rw [applyCommands, List.drop_zero, List.take_zero, List.nil_append, Nat.add_assoc]
  | looking command rest i matched =>
    unfold Concurrent.advance at hadvance
    dsimp only at hadvance
    split at hadvance
    · rename_i hnone
      cases hadvance
      have hlength := List.getElem?_eq_none_iff.mp hnone
      unfold outcome
      dsimp only
      rw [List.drop_eq_nil_of_le hlength, List.take_of_length_le hlength, applyCommand]
      simp only [List.append_nil, Nat.add_zero]
    · rename_i site hsite
      split at hadvance
      · cases hadvance
        rfl
      · rename_i hmatches
        cases hadvance
        rw [outcome_looking hsite, if_neg hmatches]
  | loaded command rest i matched current =>
    obtain ⟨site, hsite, hflags, hmatches⟩ := h.loaded command rest i matched current rfl
    have hi : i < sites.length := (List.getElem?_eq_some_iff.mp hsite).1
    unfold Concurrent.advance at hadvance
    dsimp only at hadvance
    rw [hsite] at hadvance
    cases hadvance
    have hlooking : outcome F sites (.loaded command rest i matched current) =
        outcome F sites (.looking command rest i matched) := rfl
    have hmodify : (sites.set i { site with flags := command.apply current }).modify i
        (switchKey F site.flags (command.apply current)) =
          sites.set i (site.setFlags F (command.apply site.flags)) := by
      rw [← hflags, setFlags_eq]
      apply List.ext_getElem?
      intro j
      rw [List.getElem?_modify, List.getElem?_set, List.getElem?_set]
      by_cases hij : i = j
      · subst hij
        simp [hi]
      · simp [hij]
    rw [hlooking, outcome_looking hsite, if_pos hmatches]
    unfold outcome
    dsimp only
    rw [hmodify]
  | swapped command rest i matched prev next =>
    cases hadvance
    rfl

end Sites

/-- While a write is under way, every step leaves what it comes to. -/
theorem Step.outcome_eq {s s' : State θ κ} (hstep : Step F s s')
    (h : Consistent F s.sites s.writer) (hbusy : s.writer ≠ .idle) (hbusy' : s'.writer ≠ .idle) :
    outcome F s'.sites s'.writer = outcome F s.sites s.writer := by
  cases hstep with
  | hit | unlikely | likely | load | print => rfl
  | refuse hidle _ | parse hidle _ => exact absurd hidle hbusy
  | advance hadvance => exact h.outcome_advance hadvance
  | finish _ => exact absurd rfl hbusy'

theorem Run.outcome_eq (hrun : Run F run) (hstart : Starts F (run 0)) {j k : Nat} (hjk : j ≤ k)
    (hbusy : ∀ m, j ≤ m → m ≤ k → (run m).writer ≠ .idle) :
    outcome F (run k).sites (run k).writer = outcome F (run j).sites (run j).writer := by
  induction k, hjk using Nat.le_induction with
  | base => rfl
  | succ k hjk ih =>
    have hearlier := ih fun m hjm hmk => hbusy m hjm (Nat.le_succ_of_le hmk)
    rcases hrun k with heq | hstep
    · rw [heq]
      exact hearlier
    · rw [← hearlier]
      exact hstep.outcome_eq (hrun.consistent hstart k) (hbusy k hjk (Nat.le_succ k))
        (hbusy (k + 1) (Nat.le_succ_of_le hjk) (Nat.le_refl _))

/-- How a write ends. -/
theorem Step.finishes {s s' : State θ κ} (hstep : Step F s s') (hbusy : s.writer ≠ .idle)
    (hidle : s'.writer = .idle) : ∃ matched, s.writer = .between [] matched ∧
      s'.sites = s.sites ∧ s'.history = s.history ++ [.written (.ok matched)] := by
  cases hstep with
  | hit | unlikely | likely | load | print => exact absurd hidle hbusy
  | refuse hbefore _ | parse hbefore _ => exact absurd hbefore hbusy
  | advance hadvance =>
    dsimp only at hidle
    subst hidle
    unfold Concurrent.advance at hadvance
    repeat' split at hadvance
    all_goals cases hadvance
  | finish hwriter => exact ⟨_, hwriter, rfl, rfl⟩

/-- A write that is parsed at one moment and comes back at another has answered what it answers
alone, and left what it leaves alone, whatever has been hit meanwhile. All keys are in step then. -/
theorem write_answers (hrun : Run F run) (hstart : Starts F (run 0)) {query : Str}
    {commands : List Command} (hparse : commandsOf query = .ok commands) {j k : Nat} (hjk : j ≤ k)
    (hbegun : (run j).writer = .between commands 0)
    (hbusy : ∀ m, j ≤ m → m ≤ k → (run m).writer ≠ .idle) (hidle : (run (k + 1)).writer = .idle) :
    ∃ matched, (write F query).exec ⟨(run j).sites⟩ = some (.ok matched, ⟨(run (k + 1)).sites⟩) ∧
      (run (k + 1)).history = (run k).history ++ [.written (.ok matched)] ∧
      ∀ site ∈ (run (k + 1)).sites, InStep F site := by
  have hlast : Step F (run k) (run (k + 1)) := by
    refine (hrun k).resolve_left ?_
    intro heq
    rw [heq] at hidle
    exact hbusy k hjk (Nat.le_refl k) hidle
  obtain ⟨matched, hwriter, hsites, hhistory⟩ := hlast.finishes (hbusy k hjk (Nat.le_refl k)) hidle
  have houtcome := hrun.outcome_eq hstart hjk hbusy
  rw [hwriter, hbegun] at houtcome
  have hfirst : (run k).sites = (applyCommands F commands (run j).sites).1 :=
    congrArg Prod.fst houtcome
  have hsecond : matched = (applyCommands F commands (run j).sites).2 := by
    have hcount : matched + 0 = 0 + (applyCommands F commands (run j).sites).2 :=
      congrArg Prod.snd houtcome
    rwa [Nat.add_zero, Nat.zero_add] at hcount
  have hparsed : (parseCommands query).run = some (.ok commands) := by
    rw [← hparse]
    exact (Option.some_get _).symm
  refine ⟨matched, ?_, hhistory, ?_⟩
  · unfold write
    simp only [Call.exec_bind, Call.exec_orPanic, hparsed, Option.map_some, Option.bind_some,
      Call.exec_ofExcept, Call.exec_self, Call.exec_update, Call.exec_pure]
    rw [hsites, hfirst, hsecond]
  · intro site hsite
    obtain ⟨i, hi⟩ := List.mem_iff_getElem?.mp hsite
    have hkey := (hrun.consistent hstart (k + 1)).keys i site hi
    rw [hidle] at hkey
    exact hkey

def printing : Command := ⟨[], ⟨.add, FLAG_PRINT⟩⟩

def firstSite : Hit := ⟨0, 3, "n".toList⟩

theorem commandsOf_printing : commandsOf "+p".toList = .ok [printing] := rfl

/-- The writer has swapped the flags and not yet patched the key. -/
def swappedState : State Unit Bool :=
  ⟨[{ demoSite with flags := 1 }], .swapped printing [] 0 0 0 1, fun _ => .idle, []⟩

/-- The key has been tested there. -/
def silentState : State Unit Bool :=
  (swappedState.go () (.testing firstSite) []).go () .idle [.emitted () firstSite none]

def patchedState (writer : Writer) (events : List (Event Unit)) : State Unit Bool :=
  ⟨[{ demoSite with flags := 1, key := true }], writer, silentState.pc,
    silentState.history ++ events⟩

def demoRun : Nat → State Unit Bool
  | 0 => ⟨[demoSite], .idle, fun _ => .idle, []⟩
  | 1 => ⟨[demoSite], .between [printing] 0, fun _ => .idle, []⟩
  | 2 => ⟨[demoSite], .looking printing [] 0 0, fun _ => .idle, []⟩
  | 3 => ⟨[demoSite], .loaded printing [] 0 0 0, fun _ => .idle, []⟩
  | 4 => swappedState
  | 5 => swappedState.go () (.testing firstSite) []
  | 6 => silentState
  | 7 => patchedState (.looking printing [] 1 1) []
  | 8 => patchedState (.between [] 1) []
  | _ => patchedState .idle [.written (.ok 1)]

theorem run_demoRun : Run flagKey demoRun
  | 0 => .inr (.parse rfl commandsOf_printing)
  | 1 => .inr (.advance rfl)
  | 2 => .inr (.advance rfl)
  | 3 => .inr (.advance rfl)
  | 4 => .inr (.hit () firstSite rfl)
  | 5 => .inr (.unlikely () rfl rfl rfl)
  | 6 => .inr (.advance rfl)
  | 7 => .inr (.advance rfl)
  | 8 => .inr (.finish rfl)
  | _ + 9 => .inl rfl

theorem starts_demoRun : Starts flagKey (demoRun 0) where
  idle := rfl
  inStep := by
    intro site hsite
    rw [List.mem_singleton.mp hsite]
    rfl

theorem hit_answers_demo : ∃ m, 5 ≤ m ∧ m ≤ 5 ∧ ∃ flags ∈ (demoRun m).flagsAt 0,
    ∃ site, (demoRun 0).sites[0]? = some site ∧
      none = Entry.hit 3 "n".toList ⟨site.place, flagsIn flags⟩ :=
  hit_answers run_demoRun starts_demoRun () firstSite (Nat.le_refl 5) rfl rfl

theorem busy_demoRun : ∀ m, 1 ≤ m → m ≤ 8 → (demoRun m).writer ≠ .idle
  | 0, h, _ => absurd h (by decide)
  | 1, _, _ | 2, _, _ | 3, _, _ | 4, _, _ => nofun
  | 5, _, _ | 6, _, _ | 7, _, _ | 8, _, _ => nofun
  | _ + 9, _, h => absurd h (by omega)

theorem write_answers_demo : ∃ matched,
    (write flagKey "+p".toList).exec ⟨(demoRun 1).sites⟩ =
        some (.ok matched, ⟨(demoRun 9).sites⟩) ∧
      (demoRun 9).history = (demoRun 8).history ++ [.written (.ok matched)] ∧
      ∀ site ∈ (demoRun 9).sites, InStep flagKey site :=
  write_answers run_demoRun starts_demoRun commandsOf_printing (by decide : 1 ≤ 8) rfl busy_demoRun
    rfl

end ExtKtrace.Ddebug.Concurrent
