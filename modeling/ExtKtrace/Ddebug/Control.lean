import ExtKtrace.Ddebug.Query
import ExtKtrace.Lib.Call
import ExtKtrace.Lib.Machine
import Mathlib.Data.List.Forall2

/-!
# The control file

Each call site holds its flags and a static key. A write applies its commands in order to all
sites, or does nothing.
-/

namespace ExtKtrace.Ddebug
set_option autoImplicit false

/-- The static keys of the runtime, and what enabling and disabling one does to its state. -/
structure RawStaticFalseKey (κ : Type) where
  enable : κ → κ
  disable : κ → κ
  isEnabled : κ → Bool
  isEnabled_enable : ∀ key, isEnabled (enable key) = true
  isEnabled_disable : ∀ key, isEnabled (disable key) = false

structure DebugSite (κ : Type) where
  flags : UInt8
  line : UInt32
  module : Str
  file : Str
  function : Str
  format : Str
  key : κ

structure ControlFile (κ : Type) where
  sites : List (DebugSite κ)

variable {κ : Type}

def prints (flags : UInt8) : Bool := flags &&& FLAG_PRINT != 0

/-- The key is switched only when the print flag changes. -/
def DebugSite.setFlags (F : RawStaticFalseKey κ) (site : DebugSite κ) (next : UInt8) :
    DebugSite κ :=
  let prev := site.flags
  let site := { site with flags := next }
  if prints prev = prints next then site
  else if prints next then { site with key := F.enable site.key }
  else { site with key := F.disable site.key }

def Selector.matches (site : DebugSite κ) : Selector → Bool
  | .file pattern => matchesFile pattern site.file
  | .func pattern => matchesFunc pattern site.function
  | .module pattern => matchesModule pattern site.module
  | .line range => range.contains site.line
  | .format pattern => matchesFormat pattern site.format

def Command.matches (command : Command) (site : DebugSite κ) : Bool :=
  command.selectors.all (Selector.matches site)

def Command.apply (command : Command) (current : UInt8) : UInt8 :=
  command.operation.apply current

/-- One command on all sites, with the number of sites it matches. -/
def applyCommand (F : RawStaticFalseKey κ) (command : Command) :
    List (DebugSite κ) → List (DebugSite κ) × Nat
  | [] => ([], 0)
  | site :: sites =>
    let rest := applyCommand F command sites
    if command.matches site then
      (site.setFlags F (command.apply site.flags) :: rest.1, rest.2 + 1)
    else (site :: rest.1, rest.2)

/-- The commands one after the other, with the sum of their matches. -/
def applyCommands (F : RawStaticFalseKey κ) :
    List Command → List (DebugSite κ) → List (DebugSite κ) × Nat
  | [], sites => (sites, 0)
  | command :: commands, sites =>
    let first := applyCommand F command sites
    let rest := applyCommands F commands first.1
    (rest.1, first.2 + rest.2)

/-- `ControlFile::write`. -/
def write (F : RawStaticFalseKey κ) (query : Str) : Call Error (ControlFile κ) Nat := do
  let parsed ← Call.orPanic (parseCommands query).run
  let commands ← Call.ofExcept parsed
  let control ← Call.self
  let applied := applyCommands F commands control.sites
  Call.update fun _ => { sites := applied.1 }
  return applied.2

/-- The first byte of a character is below `0x80` only when it is the character. -/
theorem utf8EncodeChar_head (c : Char) : ∃ b bs, String.utf8EncodeChar c = b :: bs ∧
    (b.toNat = c.toNat ∨ (0x80 ≤ b.toNat ∧ 0x80 ≤ c.toNat)) := by
  have hc : c.toNat = c.val.toNat := rfl
  have hmax : c.val.toNat < 2 ^ 32 := c.val.toNat_lt
  unfold String.utf8EncodeChar
  simp only
  split
  · refine ⟨_, _, rfl, Or.inl ?_⟩
    rw [UInt8.toNat_ofNat']
    omega
  split
  · refine ⟨_, _, rfl, Or.inr ⟨?_, by omega⟩⟩
    rw [UInt8.toNat_ofNat']
    omega
  split
  · refine ⟨_, _, rfl, Or.inr ⟨?_, by omega⟩⟩
    rw [UInt8.toNat_ofNat']
    omega
  · refine ⟨_, _, rfl, Or.inr ⟨?_, by omega⟩⟩
    rw [UInt8.toNat_ofNat']
    omega

theorem isFlagToken_cons {c : Char} {rest : Str} (h : isFlagToken (c :: rest) = true) :
    c = '+' ∨ c = '-' ∨ c = '=' := by
  obtain ⟨b, bs, hbytes, hb⟩ := utf8EncodeChar_head c
  have hhead : b = 0x2B ∨ b = 0x2D ∨ b = 0x3D := by
    unfold isFlagToken asBytes at h
    rw [List.flatMap_cons, hbytes] at h
    simpa [or_assoc] using h
  have hchar : ∀ d : Char, c.toNat = d.toNat → c = d := fun d hd => Char.toNat_inj.mp hd
  rcases hhead with rfl | rfl | rfl
  · refine Or.inl (hchar '+' ?_)
    have h1 : (0x2B : UInt8).toNat = 43 := rfl
    have h2 : '+'.toNat = 43 := rfl
    omega
  · refine Or.inr (Or.inl (hchar '-' ?_))
    have h1 : (0x2D : UInt8).toNat = 45 := rfl
    have h2 : '-'.toNat = 45 := rfl
    omega
  · refine Or.inr (Or.inr (hchar '=' ?_))
    have h1 : (0x3D : UInt8).toNat = 61 := rfl
    have h2 : '='.toNat = 61 := rfl
    omega

/-- The call comes back, with a value or an error. -/
def ComesBack {α : Type} (c : Parse α) : Prop := ∃ r : Except Error α, c.run = some r

theorem ComesBack.bind {α β : Type} {c : Parse α} {f : α → Parse β} (hc : ComesBack c)
    (hf : ∀ a, ComesBack (f a)) : ComesBack (c >>= f) := by
  obtain ⟨r, hr⟩ := hc
  unfold ComesBack
  rw [ExceptT.run_bind, hr]
  cases r with
  | error e => exact ⟨.error e, rfl⟩
  | ok a => exact hf a

theorem parseFlagOp_comes_back {token : Str} (h : isFlagToken token = true) :
    ComesBack (parseFlagOp token) := by
  cases token with
  | nil => exact ⟨_, rfl⟩
  | cons head rest =>
    have hhead := isFlagToken_cons h
    unfold parseFlagOp
    simp only
    split
    · exact ⟨_, rfl⟩
    split
    · exact ⟨_, rfl⟩
    · refine ComesBack.bind ⟨_, rfl⟩ fun mask => ?_
      split
      · exact ⟨_, rfl⟩
      split
      · exact ⟨_, rfl⟩
      split
      · exact ⟨_, rfl⟩
      · rename_i hplus hminus hequal
        rcases hhead with heq | heq | heq
        · exact absurd heq hplus
        · exact absurd heq hminus
        · exact absurd heq hequal

theorem parseTokens_comes_back (selectors : List Selector) (operation : Option FlagOp)
    (tokens : List Str) : ComesBack (parseTokens selectors operation tokens) := by
  fun_induction parseTokens selectors operation tokens with
  | case1 selectors operation => exact ⟨_, rfl⟩
  | case2 selectors => exact ⟨_, rfl⟩
  | case3 selectors operation token rest hflag hsome => exact ⟨_, rfl⟩
  | case4 selectors operation token rest hflag hnone ih =>
    exact ComesBack.bind (parseFlagOp_comes_back hflag) ih
  | case5 selectors operation token rest hflag hunknown => exact ⟨_, rfl⟩
  | case6 selectors operation token hflag make hmake => exact ⟨_, rfl⟩
  | case7 selectors operation token hflag make hmake value rest ih =>
    exact ComesBack.bind ⟨_, rfl⟩ ih

theorem parseLines_comes_back (lines : List (List Str)) : ComesBack (parseLines lines) := by
  induction lines with
  | nil => exact ⟨_, rfl⟩
  | cons tokens lines ih =>
    refine ComesBack.bind (parseTokens_comes_back [] none tokens) fun command => ?_
    exact ComesBack.bind ih fun commands => ⟨_, rfl⟩

theorem parseCommands_comes_back (input : Str) : ComesBack (parseCommands input) := by
  refine ComesBack.bind ⟨_, rfl⟩ fun tokenLines => ?_
  split
  · exact ⟨_, rfl⟩
  · exact parseLines_comes_back tokenLines

/-- Everything but the flags and the key. -/
structure SamePlace (site site' : DebugSite κ) : Prop where
  line : site'.line = site.line
  module : site'.module = site.module
  file : site'.file = site.file
  function : site'.function = site.function
  format : site'.format = site.format

/-- The key is enabled exactly when the print flag is set. -/
def InStep (F : RawStaticFalseKey κ) (site : DebugSite κ) : Prop :=
  F.isEnabled site.key = prints site.flags

/-- The flags are folded over those of the commands that match the site. -/
structure Changed (commands : List Command) (site site' : DebugSite κ) : Prop where
  place : SamePlace site site'
  flags : site'.flags = (commands.filter (·.matches site)).foldl
    (fun flags command => command.apply flags) site.flags

/-- A command on one site. -/
def Command.onSite (F : RawStaticFalseKey κ) (site : DebugSite κ) (command : Command) :
    DebugSite κ :=
  if command.matches site then site.setFlags F (command.apply site.flags) else site

section
variable {F : RawStaticFalseKey κ} {site site' : DebugSite κ} {command : Command}

theorem SamePlace.refl (site : DebugSite κ) : SamePlace site site := ⟨rfl, rfl, rfl, rfl, rfl⟩

theorem SamePlace.trans {site'' : DebugSite κ} (h : SamePlace site site')
    (h' : SamePlace site' site'') : SamePlace site site'' :=
  ⟨h'.line.trans h.line, h'.module.trans h.module, h'.file.trans h.file,
    h'.function.trans h.function, h'.format.trans h.format⟩

/-- Selectors look at the place of a site only. -/
theorem SamePlace.matches_eq (h : SamePlace site site') (command : Command) :
    command.matches site' = command.matches site := by
  unfold Command.matches
  refine congrArg (List.all command.selectors) (funext fun selector => ?_)
  cases selector with
  | file pattern => exact congrArg (matchesFile pattern) h.file
  | func pattern => exact congrArg (matchesFunc pattern) h.function
  | module pattern => exact congrArg (matchesModule pattern) h.module
  | line range => exact congrArg range.contains h.line
  | format pattern => exact congrArg (matchesFormat pattern) h.format

theorem samePlace_setFlags (site : DebugSite κ) (next : UInt8) :
    SamePlace site (site.setFlags F next) := by
  unfold DebugSite.setFlags
  simp only
  split
  · exact ⟨rfl, rfl, rfl, rfl, rfl⟩
  split
  · exact ⟨rfl, rfl, rfl, rfl, rfl⟩
  · exact ⟨rfl, rfl, rfl, rfl, rfl⟩

theorem setFlags_flags (site : DebugSite κ) (next : UInt8) :
    (site.setFlags F next).flags = next := by
  unfold DebugSite.setFlags
  simp only
  split
  · rfl
  split
  · rfl
  · rfl

/-- Switching the key on edges of the print flag keeps it in step. -/
theorem InStep.setFlags (h : InStep F site) (next : UInt8) :
    InStep F (site.setFlags F next) := by
  unfold InStep at h ⊢
  rw [setFlags_flags]
  unfold DebugSite.setFlags
  simp only
  split
  · rename_i hsame
    exact h.trans hsame
  split
  · rename_i hprints
    rw [F.isEnabled_enable, hprints]
  · rename_i hprints
    rw [F.isEnabled_disable, Bool.eq_false_iff.mpr hprints]

theorem samePlace_onSite (site : DebugSite κ) (command : Command) :
    SamePlace site (command.onSite F site) := by
  unfold Command.onSite
  split
  · exact samePlace_setFlags site _
  · exact .refl site

theorem InStep.onSite (h : InStep F site) (command : Command) :
    InStep F (command.onSite F site) := by
  unfold Command.onSite
  split
  · exact h.setFlags _
  · exact h

/-- Commands one after the other on one site. -/
theorem changed_foldl (F : RawStaticFalseKey κ) (commands : List Command) (site : DebugSite κ) :
    Changed commands site (commands.foldl (Command.onSite F) site) := by
  induction commands generalizing site with
  | nil => exact ⟨.refl site, rfl⟩
  | cons command commands ih =>
    have hplace := samePlace_onSite (F := F) site command
    have hrest := ih (command.onSite F site)
    refine ⟨hplace.trans hrest.place, ?_⟩
    have hfilter : commands.filter (·.matches (command.onSite F site)) =
        commands.filter (·.matches site) :=
      List.filter_congr fun c _ => hplace.matches_eq c
    rw [List.foldl_cons, hrest.flags, hfilter]
    unfold Command.onSite
    rw [List.filter_cons]
    by_cases hmatch : command.matches site = true
    · rw [if_pos hmatch, if_pos hmatch, List.foldl_cons, setFlags_flags]
    · rw [if_neg hmatch, if_neg hmatch]

theorem inStep_foldl (h : InStep F site) (commands : List Command) :
    InStep F (commands.foldl (Command.onSite F) site) := by
  induction commands generalizing site with
  | nil => exact h
  | cons command commands ih => exact ih (h.onSite command)

theorem applyCommand_eq (F : RawStaticFalseKey κ) (command : Command)
    (sites : List (DebugSite κ)) :
    applyCommand F command sites =
      (sites.map fun site => command.onSite F site, sites.countP command.matches) := by
  induction sites with
  | nil => rfl
  | cons site sites ih =>
    unfold applyCommand
    simp only [ih, List.map_cons, List.countP_cons, Command.onSite]
    split <;> rfl

/-- The commands act on each site by itself, and none changes which commands match. -/
theorem applyCommands_eq (F : RawStaticFalseKey κ) (commands : List Command)
    (sites : List (DebugSite κ)) :
    applyCommands F commands sites =
      (sites.map fun site => commands.foldl (Command.onSite F) site,
        (commands.map fun command => sites.countP command.matches).sum) := by
  induction commands generalizing sites with
  | nil => simp [applyCommands]
  | cons command commands ih =>
    have hcount : ∀ c : Command,
        (sites.map fun site => command.onSite F site).countP c.matches = sites.countP c.matches := by
      intro c
      rw [List.countP_map]
      refine List.countP_congr fun site _ => ?_
      rw [Function.comp, (samePlace_onSite site command).matches_eq c]
    simp only [applyCommands, applyCommand_eq, ih, List.map_map, List.map_cons, List.sum_cons,
      hcount]
    rfl

end

/-- A write comes back; it changes nothing, or it applies all its commands. -/
theorem exec_write (F : RawStaticFalseKey κ) (query : Str) (control : ControlFile κ) :
    (∃ e, (write F query).exec control = some (.error e, control)) ∨
      ∃ commands, (parseCommands query).run = some (.ok commands) ∧
        (write F query).exec control = some
          (.ok (commands.map fun command => control.sites.countP command.matches).sum,
            ⟨control.sites.map fun site => commands.foldl (Command.onSite F) site⟩) := by
  obtain ⟨r, hr⟩ := parseCommands_comes_back query
  cases r with
  | error e =>
    left
    refine ⟨e, ?_⟩
    unfold write
    simp only [Call.exec_bind, Call.exec_orPanic, hr, Option.map_some, Option.bind_some,
      Call.exec_ofExcept]
  | ok commands =>
    right
    refine ⟨commands, hr, ?_⟩
    unfold write
    simp only [Call.exec_bind, Call.exec_orPanic, hr, Option.map_some, Option.bind_some,
      Call.exec_ofExcept, Call.exec_self, Call.exec_update, Call.exec_pure, applyCommands_eq]

/-- The keys of all sites are in step. -/
def ControlFile.InStep (F : RawStaticFalseKey κ) (control : ControlFile κ) : Prop :=
  ∀ site ∈ control.sites, Ddebug.InStep F site

/-- What is claimed of a write with its result and the sites it leaves behind. -/
structure AllOrNothing (F : RawStaticFalseKey κ) (query : Str) (control : ControlFile κ)
    (result : Except Error Nat) (control' : ControlFile κ) : Prop where
  refused : ∀ e, result = .error e → control' = control
  applied : ∀ n, result = .ok n → ∃ commands, (parseCommands query).run = some (.ok commands) ∧
    List.Forall₂ (Changed commands) control.sites control'.sites ∧
    n = (commands.map fun command => control.sites.countP command.matches).sum
  inStep : control'.InStep F

theorem write_allOrNothing {F : RawStaticFalseKey κ} {control : ControlFile κ}
    (h : control.InStep F) (query : Str) :
    ∃ result control', (write F query).exec control = some (result, control') ∧
      AllOrNothing F query control result control' := by
  rcases exec_write F query control with ⟨e, hexec⟩ | ⟨commands, hparse, hexec⟩
  · refine ⟨_, _, hexec, fun _ _ => rfl, ?_, h⟩
    intro n hn
    cases hn
  · refine ⟨_, _, hexec, ?_, ?_, ?_⟩
    · intro e he
      cases he
    · intro n hn
      refine ⟨commands, hparse, ?_, (Except.ok.inj hn).symm⟩
      rw [List.forall₂_map_right_iff]
      exact List.forall₂_same.mpr fun site _ => changed_foldl F commands site
    · intro site hsite
      obtain ⟨old, hold, rfl⟩ := List.mem_map.mp hsite
      exact inStep_foldl (h old hold) commands

/-- The state machine of serialized writes. -/
def serve (F : RawStaticFalseKey κ) (control : ControlFile κ) (query : Str) :
    Option (Except Error Nat × ControlFile κ) :=
  (write F query).exec control

theorem run_inStep {F : RawStaticFalseKey κ} (queries : List Str) {control : ControlFile κ}
    (h : control.InStep F) :
    ∃ results control', Machine.run (serve F) control queries = some (results, control') ∧
      control'.InStep F := by
  induction queries generalizing control with
  | nil => exact ⟨[], control, rfl, h⟩
  | cons query queries ih =>
    obtain ⟨result, control₁, hexec, hwrite⟩ := write_allOrNothing h query
    obtain ⟨results, control', hrun, hstep⟩ := ih hwrite.inStep
    refine ⟨result :: results, control', ?_, hstep⟩
    have hserve : serve F control query = some (result, control₁) := hexec
    simp [Machine.run, hserve, hrun]

/-- From sites whose flags are clear and whose keys are disabled, after any number of writes, the
next one comes back and is all or nothing. -/
theorem control_writes (F : RawStaticFalseKey κ) (sites : List (DebugSite κ))
    (hflags : ∀ site ∈ sites, site.flags = 0)
    (hkeys : ∀ site ∈ sites, F.isEnabled site.key = false) (queries : List Str) :
    ∃ results control, Machine.run (serve F) ⟨sites⟩ queries = some (results, control) ∧
      control.InStep F ∧ ∀ query, ∃ result control', serve F control query = some (result, control') ∧
        AllOrNothing F query control result control' := by
  have hstart : (ControlFile.mk sites).InStep F := by
    intro site hsite
    unfold InStep
    rw [hkeys site hsite, hflags site hsite]
    rfl
  obtain ⟨results, control, hrun, hstep⟩ := run_inStep queries hstart
  exact ⟨results, control, hrun, hstep, fun query => write_allOrNothing hstep query⟩

/-- A key that is a flag. -/
def flagKey : RawStaticFalseKey Bool where
  enable _ := true
  disable _ := false
  isEnabled key := key
  isEnabled_enable _ := rfl
  isEnabled_disable _ := rfl

def demoSite : DebugSite Bool :=
  ⟨0, 7, "demo".toList, "src/demo.rs".toList, [], "value".toList, false⟩

theorem control_writes_demo :
    ∃ results control, Machine.run (serve flagKey) ⟨[demoSite]⟩
        ["line 7 +p; line 7 -p +t".toList, "line 7 +pt; line 7-9 -t".toList] = some (results, control) ∧
      control.InStep flagKey ∧ ∀ query, ∃ result control',
        serve flagKey control query = some (result, control') ∧
          AllOrNothing flagKey query control result control' :=
  control_writes flagKey [demoSite] (by simp [demoSite]) (by simp [demoSite, flagKey]) _

/-- A late error, then a flag set and another one set and cleared. -/
example : (Machine.run (serve flagKey) ⟨[demoSite]⟩
    ["line 7 +p; line 7 -p +t".toList, "line 7 +pt; line 7-9 -t".toList]).map
      (fun r => (r.1.map Except.toOption, r.2.sites.map fun site => (site.flags, site.key))) =
    some ([none, some 2], [(1, true)]) := by
  decide +kernel

end ExtKtrace.Ddebug
