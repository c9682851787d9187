import ExtKtrace.Bpf.LruMapRecency
import ExtKtrace.Ktracepoint.TracePipe

/-!
# What the command line cache remembers

A log is the list of calls, newest first. What is in the cache is read off the log alone, and the
cache agrees with it as long as the names can be cut and stored.
-/

namespace ExtKtrace.Ktracepoint.CmdLineRecency
set_option autoImplicit false

open Utf8 (Str byteLen fit)
open RecencyList (keys used Newest)

inductive Op where
  | insert (id : UInt32) (cmdline : Str)
  | setMaxRecord (maxLen : NonZeroUsize)

variable {crate : ResizableCrate UInt32 Str} {cap : NonZeroUsize}

def step : Op → TraceCmdLineCache crate → Option (TraceCmdLineCache crate)
  | .insert id cmdline, cache => cache.insert id cmdline
  | .setMaxRecord maxLen, cache => some (cache.setMaxRecord maxLen)

/-- The cache after the calls; `none` where one of them has panicked. -/
def replay (crate : ResizableCrate UInt32 Str) (cap : NonZeroUsize) :
    List Op → Option (TraceCmdLineCache crate)
  | [] => some (.new crate cap)
  | op :: log => (replay crate cap log).bind (step op)

def capacity (cap : NonZeroUsize) : List Op → NonZeroUsize
  | [] => cap
  | .insert _ _ :: log => capacity cap log
  | .setMaxRecord maxLen :: _ => maxLen

def lastName (id : UInt32) : List Op → Option Str
  | [] => none
  | .insert id' cmdline :: log => if id' = id then some cmdline else lastName id log
  | .setMaxRecord _ :: log => lastName id log

/-- The ids inserted since the last insertion of the id. -/
def since : List Op → UInt32 → List UInt32
  | [], _ => []
  | .insert id' _ :: log, id => if id = id' then [] else id' :: since log id
  | .setMaxRecord _ :: log, id => since log id

/-- The id has been inserted, and at every moment from then on the distinct ids inserted since,
and it itself, were no more than the capacity. -/
def Held (cap : NonZeroUsize) (id : UInt32) : List Op → Prop
  | [] => False
  | .insert id' cmdline :: log =>
    id = id' ∨ Held cap id log ∧
      (since (.insert id' cmdline :: log) id).dedup.length < (capacity cap log).val
  | .setMaxRecord maxLen :: log => Held cap id log ∧ (since log id).dedup.length < maxLen.val

/-- The cache is what the log says. -/
structure Agrees (cap : NonZeroUsize) (log : List Op) (cache : TraceCmdLineCache crate) : Prop where
  max_record : cache.maxRecord = capacity cap log
  size : cache.snapshot.length ≤ cache.maxRecord
  held : ∀ id, Held cap id log → ∃ name, lastName id log = some name ∧
    cache.get id = some (some (fit 16 name))
  forgotten : ∀ id, ¬ Held cap id log → cache.get id = some none

/-- The cut at sixteen bytes falls between two characters, and what is in front of it does not end
in a newline. -/
structure Storable (cmdline : Str) : Prop where
  boundary : byteLen (fit 16 cmdline) = min 16 (byteLen cmdline)
  no_newline : ∀ h : fit 16 cmdline ≠ [], (fit 16 cmdline).getLast h ≠ '\n'

theorem fit_min (limit : Nat) (s : Str) : fit (min limit (byteLen s)) s = fit limit s := by
  rcases Nat.le_total (byteLen s) limit with h | h
  · rw [Nat.min_eq_right h, Utf8.fit_of_le h, Utf8.fit_of_le (Nat.le_refl _)]
  · rw [Nat.min_eq_left h]

theorem insert_eq (id : UInt32) (cmdline : Str) (cache : TraceCmdLineCache crate) :
    cache.insert id cmdline =
      if byteLen (fit 16 cmdline) = min 16 (byteLen cmdline) then
        some ⟨crate.put id (formatLine id (fit 16 cmdline)) cache.cmdline⟩
      else none := by
  unfold TraceCmdLineCache.insert
  rw [Utf8.splitAt_eq, fit_min]
  split <;> rfl

/-- The number in front of a line has no blank in it. -/
theorem splitnSecond_formatLine (id : UInt32) (cmdline : Str) :
    splitnSecond ' ' (formatLine id cmdline) = some (cmdline ++ ['\n']) := by
  have hdigits : ∀ c ∈ Nat.toDigits 10 id.toNat, decide (c ≠ ' ') = true := by
    intro c hc
    have hdigit := Nat.isDigit_of_mem_toDigits (by decide) (by decide) hc
    apply decide_eq_true
    rintro rfl
    cases hdigit
  unfold splitnSecond formatLine
  rw [List.dropWhile_append_of_pos hdigits]
  rfl

theorem trimEndMatches_line (cmdline : Str) :
    trimEndMatches '\n' (cmdline ++ ['\n']) = cmdline.rdropWhile (· = '\n') :=
  List.rdropWhile_concat_pos _ _ _ (by decide)

/-- The list of the cache, against the log. -/
structure Inv (cap : NonZeroUsize) (log : List Op) (cache : TraceCmdLineCache crate) : Prop where
  bound : crate.cap cache.cmdline = (capacity cap log).val
  size : (crate.iter cache.cmdline).length ≤ (capacity cap log).val
  newest : Newest (since log) (crate.iter cache.cmdline)
  held : ∀ id, id ∈ keys (crate.iter cache.cmdline) ↔ Held cap id log
  lines : ∀ e ∈ crate.iter cache.cmdline, ∃ name, lastName e.1 log = some name ∧
    e.2 = formatLine e.1 (fit 16 name)

section
variable (contract : crate.KeepsContract)
include contract

theorem Inv.new : Inv cap [] (TraceCmdLineCache.new crate cap) := by
  have hiter : crate.iter (TraceCmdLineCache.new crate cap).cmdline = [] := contract.iter_new _
  constructor
  · exact contract.cap_new _
  · rw [hiter]
    exact Nat.zero_le _
  · rw [hiter]
    exact .nil _
  · intro id
    rw [hiter]
    exact iff_of_false List.not_mem_nil fun hheld => hheld
  · rw [hiter]
    simp

theorem Inv.insert {log : List Op} {cache : TraceCmdLineCache crate} (h : Inv cap log cache)
    (id : UInt32) (cmdline : Str) :
    Inv cap (.insert id cmdline :: log)
      ⟨crate.put id (formatLine id (fit 16 cmdline)) cache.cmdline⟩ := by
  have hiter := contract.iter_put id (formatLine id (fit 16 cmdline)) cache.cmdline
  rw [h.bound] at hiter
  constructor
  · rw [contract.cap_put]
    exact h.bound
  · rw [hiter]
    exact RecencyList.length_put_le h.size
  · rw [hiter]
    exact h.newest.put h.size id _
  · intro id'
    rw [hiter, h.newest.mem_put h.size (capacity cap log).2, h.held, Held]
    exact Iff.rfl
  · rw [hiter, RecencyList.put_eq_take h.size]
    intro e he
    rcases List.mem_cons.mp (List.mem_of_mem_take he) with rfl | he
    · exact ⟨cmdline, if_pos rfl, rfl⟩
    · have hne : e.1 ≠ id := by simpa [RecencyList.remove] using List.of_mem_filter he
      obtain ⟨name, hname, hline⟩ := h.lines e (List.mem_of_mem_filter he)
      exact ⟨name, by rw [lastName, if_neg (Ne.symm hne), hname], hline⟩

theorem Inv.setMaxRecord {log : List Op} {cache : TraceCmdLineCache crate} (h : Inv cap log cache)
    (maxLen : NonZeroUsize) :
    Inv cap (.setMaxRecord maxLen :: log) (cache.setMaxRecord maxLen) := by
  have hiter : crate.iter (cache.setMaxRecord maxLen).cmdline =
      (crate.iter cache.cmdline).take maxLen.val := contract.iter_resize _ _
  constructor
  · exact contract.cap_resize _ _
  · rw [hiter]
    exact List.length_take_le _ _
  · rw [hiter]
    exact h.newest.take _
  · intro id
    rw [hiter, h.newest.mem_take, h.held]
    exact Iff.rfl
  · rw [hiter]
    exact fun e he => h.lines e (List.mem_of_mem_take he)

theorem inv_of_replay {log : List Op} {cache : TraceCmdLineCache crate}
    (h : replay crate cap log = some cache) : Inv cap log cache := by
  induction log generalizing cache with
  | nil =>
    cases h
    exact Inv.new contract
  | cons op log ih =>
    obtain ⟨cache', hlog, hstep⟩ := Option.bind_eq_some_iff.mp h
    have hinv := ih hlog
    cases op with
    | insert id cmdline =>
      rw [step, insert_eq] at hstep
      split at hstep
      · cases hstep
        exact hinv.insert contract id cmdline
      · cases hstep
    | setMaxRecord maxLen =>
      cases hstep
      exact hinv.setMaxRecord contract maxLen

end

/-- A name comes back without the newlines at its end. -/
theorem Inv.get_held {log : List Op} {cache : TraceCmdLineCache crate} (h : Inv cap log cache)
    {id : UInt32} (hid : Held cap id log) : ∃ name, lastName id log = some name ∧
      cache.get id = some (some ((fit 16 name).rdropWhile (· = '\n'))) := by
  obtain ⟨e, he, rfl⟩ := List.mem_map.mp ((h.held id).mpr hid)
  rcases hfind : (crate.iter cache.cmdline).find? fun e' => e'.1 = e.1 with _ | ⟨id', line⟩
  · have hnone := List.find?_eq_none.mp hfind e he
    simp at hnone
  · have hid' : id' = e.1 := by simpa using List.find?_some hfind
    obtain ⟨name, hname, hline⟩ := h.lines _ (List.mem_of_find?_eq_some hfind)
    dsimp only at hname hline
    rw [hid'] at hname hline
    refine ⟨name, hname, ?_⟩
    rw [TraceCmdLineCache.get, hfind]
    dsimp only
    rw [hline, splitnSecond_formatLine, Option.map_some, trimEndMatches_line]

theorem Inv.get_forgotten {log : List Op} {cache : TraceCmdLineCache crate}
    (h : Inv cap log cache) {id : UInt32} (hid : ¬ Held cap id log) :
    cache.get id = some none := by
  have hfind : (crate.iter cache.cmdline).find? (fun e => e.1 = id) = none := by
    apply List.find?_eq_none.mpr
    intro e he heq
    exact hid ((h.held id).mp (List.mem_map.mpr ⟨e, he, of_decide_eq_true heq⟩))
  rw [TraceCmdLineCache.get, hfind]

theorem lastName_mem {id : UInt32} {name : Str} {log : List Op} (h : lastName id log = some name) :
    .insert id name ∈ log := by
  induction log with
  | nil => cases h
  | cons op log ih =>
    cases op with
    | insert id' cmdline =>
      rw [lastName] at h
      split at h
      · rename_i heq
        cases h
        rw [heq]
        exact List.mem_cons_self
      · exact List.mem_cons_of_mem _ (ih h)
    | setMaxRecord maxLen => exact List.mem_cons_of_mem _ (ih h)

theorem replay_of_storable {log : List Op}
    (h : ∀ id name, .insert id name ∈ log → Storable name) :
    ∃ cache, replay crate cap log = some cache := by
  induction log with
  | nil => exact ⟨_, rfl⟩
  | cons op log ih =>
    obtain ⟨cache, hlog⟩ := ih fun id name hmem => h id name (List.mem_cons_of_mem _ hmem)
    rw [replay, hlog, Option.bind_some]
    cases op with
    | insert id cmdline =>
      have hstorable := h id cmdline List.mem_cons_self
      rw [step, insert_eq, if_pos hstorable.boundary]
      exact ⟨_, rfl⟩
    | setMaxRecord maxLen => exact ⟨_, rfl⟩

theorem agrees_of_storable (contract : crate.KeepsContract) {log : List Op}
    (h : ∀ id name, .insert id name ∈ log → Storable name) :
    ∃ cache, replay crate cap log = some cache ∧ Agrees cap log cache := by
  obtain ⟨cache, hlog⟩ := @replay_of_storable crate cap log h
  have hinv := inv_of_replay contract hlog
  refine ⟨cache, hlog, hinv.bound, ?_, ?_, fun id => hinv.get_forgotten⟩
  · rw [TraceCmdLineCache.snapshot, List.length_map, List.length_reverse,
      TraceCmdLineCache.maxRecord, hinv.bound]
    exact hinv.size
  · intro id hid
    obtain ⟨name, hname, hget⟩ := hinv.get_held hid
    refine ⟨name, hname, ?_⟩
    have hstorable := h id name (lastName_mem hname)
    rw [hget, List.rdropWhile_eq_self_iff.mpr fun hne => by simpa using hstorable.no_newline hne]

/-- The insertion of a name that cannot be stored shows at once. -/
theorem storable_of_agrees (contract : crate.KeepsContract) {id : UInt32} {name : Str}
    {log : List Op} {cache : TraceCmdLineCache crate}
    (hreplay : replay crate cap (.insert id name :: log) = some cache)
    (h : Agrees cap (.insert id name :: log) cache) : Storable name := by
  have hheld : Held cap id (.insert id name :: log) := .inl rfl
  have hlast : lastName id (.insert id name :: log) = some name := if_pos rfl
  obtain ⟨_, hname, hget⟩ := (inv_of_replay contract hreplay).get_held hheld
  obtain ⟨_, hname', hget'⟩ := h.held id hheld
  rw [hlast] at hname hname'
  cases hname
  cases hname'
  constructor
  · obtain ⟨cache', -, hstep⟩ := Option.bind_eq_some_iff.mp hreplay
    rw [step, insert_eq] at hstep
    by_contra hne
    rw [if_neg hne] at hstep
    cases hstep
  · have hsame := hget.symm.trans hget'
    rw [Option.some_inj, Option.some_inj, List.rdropWhile_eq_self_iff] at hsame
    intro hne
    simpa using hsame hne

/-- For every crate that keeps its contract, every capacity and every sequence of calls: no call
panics and at every moment the cache is what the calls up to it say, if and only if every name that
is inserted can be cut behind its sixteenth byte and does not end in a newline there. -/
theorem agrees_throughout_iff (crate : ResizableCrate UInt32 Str) (contract : crate.KeepsContract)
    (cap : NonZeroUsize) (log : List Op) :
    (∀ moment, moment <:+ log →
      ∃ cache, replay crate cap moment = some cache ∧ Agrees cap moment cache) ↔
        ∀ id name, .insert id name ∈ log → Storable name := by
  constructor
  · intro h id name hmem
    obtain ⟨later, earlier, rfl⟩ := List.append_of_mem hmem
    obtain ⟨cache, hreplay, hagrees⟩ := h (.insert id name :: earlier) (List.suffix_append _ _)
    exact storable_of_agrees contract hreplay hagrees
  · intro h moment hmoment
    exact agrees_of_storable contract fun id name hmem => h id name (hmoment.subset hmem)

def listCrate (κ ν : Type) [DecidableEq κ] : ResizableCrate κ ν where
  toLruCrate := Bpf.LruMapRecency.listCrate κ ν
  resize n c := (n, c.2.take n)

theorem listCrate_keepsContract (κ ν : Type) [DecidableEq κ] :
    (listCrate κ ν).KeepsContract where
  toKeepsRecency := Bpf.LruMapRecency.listCrate_keepsRecency κ ν
  cap_resize _ _ := rfl
  iter_resize _ _ := rfl

/-- The calls on a cache for two, newest first: `cat` is evicted by `sh`, `init` by the resizing. -/
def evicting : List Op :=
  [.setMaxRecord ⟨1, Nat.one_pos⟩, .insert 3 "sh".toList, .insert 1 "init".toList,
    .insert 2 "cat".toList, .insert 1 "swapper".toList]

theorem agrees_throughout_evicting : (listCrate UInt32 Str).KeepsContract ∧
    ∃ cache, replay (listCrate UInt32 Str) ⟨2, Nat.two_pos⟩ evicting = some cache ∧
      Agrees ⟨2, Nat.two_pos⟩ evicting cache ∧ cache.snapshot = ["3 sh\n".toList] := by
  have hnames : ∀ id name, .insert id name ∈ evicting → Storable name := by
    intro id name h
    simp only [evicting, List.mem_cons, Op.insert.injEq, reduceCtorEq, List.not_mem_nil, or_false,
      false_or] at h
    rcases h with ⟨rfl, rfl⟩ | ⟨rfl, rfl⟩ | ⟨rfl, rfl⟩ | ⟨rfl, rfl⟩
    all_goals exact ⟨by decide, by decide⟩
  have hiff := agrees_throughout_iff (listCrate UInt32 Str) (listCrate_keepsContract _ _)
    ⟨2, Nat.two_pos⟩ evicting
  obtain ⟨cache, hcache, hagrees⟩ := hiff.mpr hnames evicting (List.suffix_refl _)
  have hsnapshot : (replay (listCrate UInt32 Str) ⟨2, Nat.two_pos⟩ evicting).map
      TraceCmdLineCache.snapshot = some ["3 sh\n".toList] := rfl
  rw [hcache] at hsnapshot
  exact ⟨listCrate_keepsContract _ _, cache, hcache, hagrees, Option.some.inj hsnapshot⟩

/-- The sixteenth byte of the name is the first of the two bytes of `é`. -/
theorem agrees_throughout_accent :
    ¬ ∀ (crate : ResizableCrate UInt32 Str), crate.KeepsContract → ∀ (cap : NonZeroUsize)
      (log : List Op), ∃ cache, replay crate cap log = some cache ∧ Agrees cap log cache := by
  intro h
  obtain ⟨cache, hreplay, -⟩ := h (listCrate UInt32 Str) (listCrate_keepsContract _ _)
    ⟨1, Nat.one_pos⟩ [.insert 1 "abcdefghijklmnoé".toList]
  cases hreplay

end ExtKtrace.Ktracepoint.CmdLineRecency
