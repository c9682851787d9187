import ExtKtrace.Bpf.Map

/-!
# Loops over the keys of a map

A process lists a map by asking for the key behind the last one it was told and doing something
with the key it is told now.
-/

namespace ExtKtrace.Bpf.KeyLoop
set_option autoImplicit false

/-- How a loop stands after some turns. -/
inductive LoopEnd where
  | running
  | ended (e : BpfError)
  | panicked
  deriving DecidableEq

section
variable {σ α : Type} (keySize : σ → UInt32)
  (nextKey : Option Bytes → Bytes → Call BpfError σ Bytes) (visit : Bytes → Call BpfError σ α)

/-- `turns` turns behind `cursor`: the keys that are told, and how the loop stands then. -/
def loop (s : σ) (cursor : Option Bytes) : Nat → List Bytes × LoopEnd
  | 0 => ([], .running)
  | turns + 1 =>
    match (nextKey cursor (List.replicate (keySize s).toNat 0)).exec s with
    | none => ([], .panicked)
    | some (.error e, _) => ([], .ended e)
    | some (.ok key, s) =>
      match (visit key).exec s with
      | none => ([key], .panicked)
      | some (_, s) =>
        let rest := loop s (some key) turns
        (key :: rest.1, rest.2)

variable {keySize nextKey visit} {s : σ} {cursor : Option Bytes}

theorem loop_end {s' : σ} {e : BpfError}
    (h : (nextKey cursor (List.replicate (keySize s).toNat 0)).exec s = some (.error e, s'))
    (turns : Nat) : loop keySize nextKey visit s cursor (turns + 1) = ([], .ended e) := by
  simp only [loop, h]

theorem loop_turn {s₁ s' : σ} {key : Bytes} {r : Except BpfError α}
    (h : (nextKey cursor (List.replicate (keySize s).toNat 0)).exec s = some (.ok key, s₁))
    (hvisit : (visit key).exec s₁ = some (r, s')) (turns : Nat) :
    loop keySize nextKey visit s cursor (turns + 1) =
      (key :: (loop keySize nextKey visit s' (some key) turns).1,
        (loop keySize nextKey visit s' (some key) turns).2) := by
  simp only [loop, h, hvisit]

end

end ExtKtrace.Bpf.KeyLoop
