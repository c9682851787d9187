import Std.Data.TreeMap
import ExtKtrace.Lib.Call
import ExtKtrace.Lib.Word

/-!
# What the BPF maps share

Error numbers, the metadata a map is created from, the flags of an update and the length
checks. Byte strings (`&[u8]`, `Vec<u8>`) are lists; a call that would panic is `none`.
-/

namespace ExtKtrace.Bpf
set_option autoImplicit false

/-- The members of `ax_errno::LinuxError` that the crate returns. -/
inductive BpfError where
  | EPERM | ENOENT | EAGAIN | ENOMEM | EEXIST | EINVAL
  deriving Repr, DecidableEq

abbrev Bytes := List UInt8

/-- Comparison of `Vec<u8>` keys is lexicographic, which is what orders a `BTreeMap`. -/
abbrev BTreeMap (κ ν : Type) [Ord κ] := Std.TreeMap κ ν

structure BpfMapMeta where
  keySize : UInt32
  valueSize : UInt32
  maxEntries : UInt32
  mapFlags : UInt32
  deriving Repr, DecidableEq

/-- `BpfMapUpdateElemFlags`: only known bits can be set. -/
structure BpfMapUpdateElemFlags where
  bits : UInt64
  known : bits &&& ~~~7 = 0
  deriving DecidableEq

namespace BpfMapUpdateElemFlags

def BPF_NOEXIST : UInt64 := 1
def BPF_EXISTS : UInt64 := 2
def BPF_F_LOCK : UInt64 := 4

def fromBits (bits : UInt64) : Option BpfMapUpdateElemFlags :=
  if h : bits &&& ~~~7 = 0 then some ⟨bits, h⟩ else none

def contains (flags : BpfMapUpdateElemFlags) (flag : UInt64) : Bool :=
  flags.bits &&& flag == flag

end BpfMapUpdateElemFlags

/-- `validate_key` and `validate_value` of every map: the exact length or `EINVAL`. -/
def validateLen {σ : Type} (size : σ → UInt32) (bytes : Bytes) : Call BpfError σ Unit := do
  if bytes.length ≠ (size (← Call.self)).toNat then throw .EINVAL

/-- The flag checks that `update_elem` of the hash and the LRU map make before they look at
the entries. -/
def validateUpdateFlags (flags : UInt64) : Except BpfError BpfMapUpdateElemFlags :=
  match BpfMapUpdateElemFlags.fromBits flags with
  | none => .error .EINVAL
  | some flags =>
    if flags.contains BpfMapUpdateElemFlags.BPF_F_LOCK then .error .EINVAL
    else if flags.contains BpfMapUpdateElemFlags.BPF_NOEXIST &&
        flags.contains BpfMapUpdateElemFlags.BPF_EXISTS then .error .EINVAL
    else .ok flags

/-- The presence checks that follow. -/
def validatePresence (flags : BpfMapUpdateElemFlags) (present : Bool) : Except BpfError Unit :=
  if flags.contains BpfMapUpdateElemFlags.BPF_NOEXIST && present then .error .EEXIST
  else if flags.contains BpfMapUpdateElemFlags.BPF_EXISTS && !present then .error .ENOENT
  else .ok ()

/-- The checks that open `update_elem` of the hash and the LRU map, up to the answer whether
the key is present. -/
def checkedUpdate {σ : Type} (keySize valueSize : σ → UInt32) (containsKey : σ → Bytes → Bool)
    (key value : Bytes) (flags : UInt64) : Call BpfError σ Bool := do
  validateLen keySize key
  validateLen valueSize value
  let flags ← Call.ofExcept (validateUpdateFlags flags)
  let present := containsKey (← Call.self) key
  Call.ofExcept (validatePresence flags present)
  return present

/-- `dst.copy_from_slice(src)`: panics when the lengths differ. -/
def copyFromSlice (dst src : Bytes) : Option Bytes :=
  if dst.length = src.length then some src else none

/-- The loop of `for_each_elem`: stop at the first answer other than zero. The callback may
change what `ctx` points at. -/
def forEachEntry {γ : Type} (cb : Bytes → Bytes → γ → Int32 × γ) :
    List (Bytes × Bytes) → UInt32 → γ → UInt32 × γ
  | [], totalUsed, ctx => (totalUsed, ctx)
  | (key, value) :: rest, totalUsed, ctx =>
    let res := cb key value ctx
    if res.1 ≠ 0 then (totalUsed, res.2) else forEachEntry cb rest (totalUsed + 1) res.2

/-- `for_each_elem` of the hash and the LRU map. -/
def forEachOf {σ γ : Type} (entries : σ → List (Bytes × Bytes))
    (cb : Bytes → Bytes → γ → Int32 × γ) (ctx : γ) (flags : UInt64) :
    Call BpfError σ (UInt32 × γ) := do
  if flags ≠ 0 then throw .EINVAL
  return forEachEntry cb (entries (← Call.self)) 0 ctx

/-- The search of `get_next_key`: skip up to and including `key`, then take one entry. -/
def entryAfter (key : Bytes) (entries : List (Bytes × Bytes)) : Option (Bytes × Bytes) :=
  ((entries.dropWhile fun e => e.1 ≠ key).drop 1).head?

def nextEntry {σ : Type} (keySize : σ → UInt32) (entries : σ → List (Bytes × Bytes))
    (containsKey : σ → Bytes → Bool) (key : Option Bytes) :
    Call BpfError σ (Option (Bytes × Bytes)) := do
  match key with
  | none => return (entries (← Call.self)).head?
  | some key =>
    validateLen keySize key
    if !containsKey (← Call.self) key then return (entries (← Call.self)).head?
    return entryAfter key (entries (← Call.self))

/-- `get_next_key` of the hash and the LRU map; returns what the caller's `next_key` buffer
holds afterwards. -/
def nextKeyOf {σ : Type} (keySize : σ → UInt32) (entries : σ → List (Bytes × Bytes))
    (containsKey : σ → Bytes → Bool) (key : Option Bytes) (nextKey : Bytes) :
    Call BpfError σ Bytes := do
  validateLen keySize nextKey
  match ← nextEntry keySize entries containsKey key with
  | none => throw .ENOENT
  | some (k, _) => Call.orPanic (copyFromSlice nextKey k)

/-- A length check in front of a method body: passed, the body runs; failed, nothing does. -/
theorem exec_validateLen_bind {σ α : Type} (size : σ → UInt32) (bytes : Bytes) (s : σ)
    (f : Unit → Call BpfError σ α) :
    Call.exec (validateLen size bytes >>= f) s =
      if bytes.length ≠ (size s).toNat then some (.error .EINVAL, s) else Call.exec (f ()) s := by
  have hcheck : Call.exec (validateLen size bytes) s =
      some (if bytes.length ≠ (size s).toNat then .error .EINVAL else .ok (), s) := by
    unfold validateLen
    rw [Call.exec_bind_ok (Call.exec_self s)]
    split <;> rfl
  rw [Call.exec_bind, hcheck]
  split <;> rfl

theorem copyFromSlice_eq_some {dst src out : Bytes} :
    copyFromSlice dst src = some out ↔ dst.length = src.length ∧ out = src := by
  unfold copyFromSlice
  split <;> simp_all [eq_comm]

/-- The flag words that `update_elem` refuses: an unknown bit, the lock bit, or both
existence bits. -/
def BadUpdateFlags (flags : UInt64) : Prop :=
  8 ≤ flags.toNat ∨ flags.toNat.testBit 2 ∨ (flags.toNat.testBit 0 ∧ flags.toNat.testBit 1)

instance (flags : UInt64) : Decidable (BadUpdateFlags flags) :=
  inferInstanceAs (Decidable (_ ∨ _ ∨ (_ ∧ _)))

theorem uint64_eq_ofNat_of_lt {x : UInt64} (h : x.toNat < 8) : ∃ n < 8, x = UInt64.ofNat n :=
  ⟨x.toNat, h, by simp⟩

namespace BpfMapUpdateElemFlags

theorem fromBits_eq_none {bits : UInt64} : fromBits bits = none ↔ 8 ≤ bits.toNat := by
  have hknown := Word.uint64_and_not_seven_eq_zero (x := bits)
  unfold fromBits
  split <;> simp_all

theorem fromBits_eq_some {bits : UInt64} {flags : BpfMapUpdateElemFlags}
    (h : fromBits bits = some flags) : flags.bits = bits := by
  unfold fromBits at h
  split at h
  · cases h
    rfl
  · cases h

/-- Below eight, testing a flag word is reading one bit of it. -/
theorem contains_eq_testBit (flags : BpfMapUpdateElemFlags) :
    flags.contains BPF_NOEXIST = flags.bits.toNat.testBit 0 ∧
      flags.contains BPF_EXISTS = flags.bits.toNat.testBit 1 ∧
      flags.contains BPF_F_LOCK = flags.bits.toNat.testBit 2 := by
  obtain ⟨n, hn, hbits⟩ :=
    uint64_eq_ofNat_of_lt (Word.uint64_and_not_seven_eq_zero.mp flags.known)
  simp only [contains, hbits]
  clear hbits
  revert n
  decide

end BpfMapUpdateElemFlags

theorem validateUpdateFlags_of_bad {flags : UInt64} (h : BadUpdateFlags flags) :
    validateUpdateFlags flags = .error .EINVAL := by
  unfold validateUpdateFlags
  cases hf : BpfMapUpdateElemFlags.fromBits flags with
  | none => rfl
  | some f =>
    obtain ⟨hno, hex, hlock⟩ := f.contains_eq_testBit
    have hlt : ¬ 8 ≤ flags.toNat := by
      rw [← BpfMapUpdateElemFlags.fromBits_eq_none, hf]
      simp
    rw [BpfMapUpdateElemFlags.fromBits_eq_some hf] at hno hex hlock
    rcases h with h | h | ⟨h₀, h₁⟩
    · exact absurd h hlt
    · simp [hlock, h]
    · simp [hno, hex, h₀, h₁]

theorem validateUpdateFlags_of_good {flags : UInt64} (h : ¬ BadUpdateFlags flags) :
    ∃ f, validateUpdateFlags flags = .ok f ∧ f.bits = flags := by
  unfold validateUpdateFlags
  cases hf : BpfMapUpdateElemFlags.fromBits flags with
  | none => exact absurd (Or.inl (BpfMapUpdateElemFlags.fromBits_eq_none.mp hf)) h
  | some f =>
    obtain ⟨hno, hex, hlock⟩ := f.contains_eq_testBit
    have hbits := BpfMapUpdateElemFlags.fromBits_eq_some hf
    rw [hbits] at hno hex hlock
    simp only [BadUpdateFlags, not_or, not_and, Bool.not_eq_true] at h
    refine ⟨f, ?_, hbits⟩
    simp only [hno, hex, hlock, h.2.1, Bool.and_eq_true, Bool.false_eq_true, if_false]
    exact if_neg fun hboth => by simp [h.2.2 hboth.1] at hboth

theorem validatePresence_eq {flags : UInt64} {f : BpfMapUpdateElemFlags} (hf : f.bits = flags)
    (present : Bool) :
    validatePresence f present =
      if flags.toNat.testBit 0 ∧ present then .error .EEXIST
      else if flags.toNat.testBit 1 ∧ ¬ present then .error .ENOENT
      else .ok () := by
  obtain ⟨hno, hex, -⟩ := f.contains_eq_testBit
  rw [hf] at hno hex
  simp [validatePresence, hno, hex]

/-- The order of the refusals: lengths, flags, presence. -/
theorem exec_checkedUpdate {σ : Type} (keySize valueSize : σ → UInt32)
    (containsKey : σ → Bytes → Bool) (key value : Bytes) (flags : UInt64) (s : σ) :
    (checkedUpdate keySize valueSize containsKey key value flags).exec s = some (
      if key.length ≠ (keySize s).toNat ∨ value.length ≠ (valueSize s).toNat then .error .EINVAL
      else if BadUpdateFlags flags then .error .EINVAL
      else if flags.toNat.testBit 0 ∧ containsKey s key then .error .EEXIST
      else if flags.toNat.testBit 1 ∧ ¬ containsKey s key then .error .ENOENT
      else .ok (containsKey s key), s) := by
  unfold checkedUpdate
  rw [exec_validateLen_bind]
  by_cases hkey : key.length = (keySize s).toNat
  swap
  · rw [if_pos hkey, if_pos (Or.inl hkey)]
  rw [if_neg (not_not_intro hkey), exec_validateLen_bind]
  by_cases hvalue : value.length = (valueSize s).toNat
  swap
  · rw [if_pos hvalue, if_pos (Or.inr hvalue)]
  rw [if_neg (not_not_intro hvalue), if_neg (by simp [hkey, hvalue])]
  by_cases hbad : BadUpdateFlags flags
  · rw [Call.exec_bind_error (by rw [Call.exec_ofExcept, validateUpdateFlags_of_bad hbad]),
      if_pos hbad]
  obtain ⟨f, hf, hbits⟩ := validateUpdateFlags_of_good hbad
  rw [Call.exec_bind_ok (a := f) (by rw [Call.exec_ofExcept, hf]), if_neg hbad]
  simp only [Call.exec_bind, Call.exec_self, Call.exec_ofExcept, validatePresence_eq hbits,
    Option.bind_some]
  by_cases hno : flags.toNat.testBit 0 ∧ containsKey s key
  · rw [if_pos hno, if_pos hno]
  rw [if_neg hno, if_neg hno]
  by_cases hex : flags.toNat.testBit 1 ∧ ¬ containsKey s key
  · rw [if_pos hex, if_pos hex]
  · rw [if_neg hex, if_neg hex]
    rfl

theorem exec_forEachOf {σ γ : Type} (entries : σ → List (Bytes × Bytes))
    (cb : Bytes → Bytes → γ → Int32 × γ) (ctx : γ) (flags : UInt64) (s : σ) :
    (forEachOf entries cb ctx flags).exec s = some (
      if flags ≠ 0 then .error .EINVAL else .ok (forEachEntry cb (entries s) 0 ctx), s) := by
  unfold forEachOf
  split <;> rfl

theorem entryAfter_mem {key : Bytes} {entries : List (Bytes × Bytes)} {e : Bytes × Bytes}
    (h : entryAfter key entries = some e) : e ∈ entries :=
  (List.dropWhile_sublist _).subset ((List.drop_sublist 1 _).subset (List.mem_of_head? h))

theorem exec_nextEntry {σ : Type} (keySize : σ → UInt32) (entries : σ → List (Bytes × Bytes))
    (containsKey : σ → Bytes → Bool) (key : Option Bytes) (s : σ) :
    ∃ r, (nextEntry keySize entries containsKey key).exec s = some (r, s) ∧
      ∀ e, r = .ok (some e) → e ∈ entries s := by
  unfold nextEntry
  cases key with
  | none =>
    refine ⟨_, rfl, fun e he => ?_⟩
    exact List.mem_of_head? (Except.ok.inj he)
  | some key =>
    simp only
    rw [exec_validateLen_bind]
    split
    · exact ⟨_, rfl, fun e he => by cases he⟩
    rw [Call.exec_bind_ok (Call.exec_self s)]
    split
    · refine ⟨_, rfl, fun e he => ?_⟩
      exact List.mem_of_head? (Except.ok.inj he)
    · refine ⟨_, rfl, fun e he => ?_⟩
      exact entryAfter_mem (Except.ok.inj he)

/-- The walk changes nothing, and it cannot panic while every stored key has the key size. -/
theorem exec_nextKeyOf {σ : Type} (keySize : σ → UInt32) (entries : σ → List (Bytes × Bytes))
    (containsKey : σ → Bytes → Bool) (key : Option Bytes) (nextKey : Bytes) (s : σ)
    (hkeys : ∀ e ∈ entries s, e.1.length = (keySize s).toNat) :
    ∃ r, (nextKeyOf keySize entries containsKey key nextKey).exec s = some (r, s) := by
  unfold nextKeyOf
  rw [exec_validateLen_bind]
  split
  · exact ⟨_, rfl⟩
  rename_i hlen
  obtain ⟨r, hexec, hmem⟩ := exec_nextEntry keySize entries containsKey key s
  cases r with
  | error e => exact ⟨_, Call.exec_bind_error hexec⟩
  | ok next =>
    rw [Call.exec_bind_ok hexec]
    cases next with
    | none => exact ⟨_, rfl⟩
    | some e =>
      have hcopy : copyFromSlice nextKey e.1 = some e.1 :=
        copyFromSlice_eq_some.mpr ⟨(not_not.mp hlen).trans (hkeys e (hmem e rfl)).symm, rfl⟩
      exact ⟨.ok e.1, by simp only [Call.exec_orPanic, hcopy, Option.map_some]⟩

/-- The entry that a walk comes to behind `key`. -/
def nextOf {σ : Type} (entries : σ → List (Bytes × Bytes)) (containsKey : σ → Bytes → Bool)
    (key : Option Bytes) (s : σ) : Option (Bytes × Bytes) :=
  match key with
  | none => (entries s).head?
  | some key => if containsKey s key then entryAfter key (entries s) else (entries s).head?

/-- A key and a buffer of the right length are never refused. -/
theorem exec_nextKeyOf_sized {σ : Type} {keySize : σ → UInt32}
    {entries : σ → List (Bytes × Bytes)} {containsKey : σ → Bytes → Bool} {key : Option Bytes}
    {nextKey : Bytes} {s : σ} (hbuf : nextKey.length = (keySize s).toNat)
    (hkey : ∀ k, key = some k → k.length = (keySize s).toNat)
    (hkeys : ∀ e ∈ entries s, e.1.length = (keySize s).toNat) :
    (nextKeyOf keySize entries containsKey key nextKey).exec s =
      some (((nextOf entries containsKey key s).map Prod.fst).elim (.error .ENOENT) .ok, s) := by
  have hnext : (nextEntry keySize entries containsKey key).exec s =
      some (.ok (nextOf entries containsKey key s), s) := by
    unfold nextEntry nextOf
    cases key with
    | none => rfl
    | some key =>
      simp only
      rw [exec_validateLen_bind, if_neg (not_not_intro (hkey key rfl)),
        Call.exec_bind_ok (Call.exec_self s)]
      cases containsKey s key <;> rfl
  have hmem : ∀ e, nextOf entries containsKey key s = some e → e ∈ entries s := by
    intro e he
    unfold nextOf at he
    split at he
    · exact List.mem_of_head? he
    · split at he
      · exact entryAfter_mem he
      · exact List.mem_of_head? he
  unfold nextKeyOf
  rw [exec_validateLen_bind, if_neg (not_not_intro hbuf), Call.exec_bind_ok hnext]
  cases he : nextOf entries containsKey key s with
  | none => rfl
  | some e =>
    have hcopy : copyFromSlice nextKey e.1 = some e.1 :=
      copyFromSlice_eq_some.mpr ⟨hbuf.trans (hkeys e (hmem e he)).symm, rfl⟩
    simp only [Call.exec_orPanic, hcopy, Option.map_some, Option.elim_some]

end ExtKtrace.Bpf
