import ExtKtrace.TpLexer.Syntax

/-! # Glob matching -/

namespace ExtKtrace.TpLexer
set_option autoImplicit false

/-- The body of a class from a byte on: whether `ch` is in it, and what follows its `]`.
`none` when the pattern ends first. -/
def scanClass (ch : UInt8) : Str → Bool → Option UInt8 → Option (Bool × Str)
  | [], _, _ => none
  | c :: p, matched, prev =>
    if c = byte ']' then some (matched, p)
    else
      match (if c = byte '-' then prev else none) with
      | some startC =>
        match p with
        | [] => none
        | endC :: p => scanClass ch p (matched || (startC ≤ ch && ch ≤ endC)) none
      | none => scanClass ch p (matched || ch = c) (some c)

def matchClass (p : Str) (ch : UInt8) : Bool × Str :=
  let (negated, p) :=
    match p with
    | c :: p' => if c = byte '^' ∨ c = byte '!' then (true, p') else (false, p)
    | [] => (false, p)
  match scanClass ch p false none with
  | none => (false, [])
  | some (matched, p) => (if negated then !matched else matched, p)

theorem scanClass_length {ch : UInt8} {p q : Str} {matched res : Bool} {prev : Option UInt8}
    (h : scanClass ch p matched prev = some (res, q)) : q.length < p.length := by
  fun_induction scanClass ch p matched prev with
  | case1 => cases h
  | case2 =>
    cases h
    simp
  | case3 => cases h
  | case4 c matched prev hc startC hstart endC p ih =>
    have := ih h
    simp only [List.length_cons]
    omega
  | case5 c p matched prev hc hprev ih =>
    have := ih h
    simp only [List.length_cons]
    omega

theorem matchClass_length (p : Str) (ch : UInt8) : (matchClass p ch).2.length ≤ p.length := by
  unfold matchClass
  split
  rename_i negated q hq
  have hlen : q.length ≤ p.length := by
    split at hq
    · split at hq <;> cases hq <;> simp
    · cases hq
      simp
  split
  · simp
  · rename_i res rest hscan
    have := scanClass_length hscan
    simp only
    omega

/-- The loop over the positions of the text where the rest of the pattern may start. -/
def anySuffix (f : Str → Bool) : Str → Bool
  | [] => f []
  | c :: t => f (c :: t) || anySuffix f t

def globMatch : Str → Str → Bool
  | [], t => t = []
  | c :: p, t =>
    if c = byte '?' then
      match t with
      | [] => false
      | _ :: t => globMatch p t
    else if c = byte '*' then
      let rest := p.dropWhile (· = byte '*')
      if rest = [] then true else anySuffix (fun t => globMatch rest t) t
    else if c = byte '[' then
      match t with
      | [] => false
      | ch :: t =>
        if (matchClass p ch).1 then globMatch (matchClass p ch).2 t else false
    else
      match t with
      | [] => false
      | ch :: t => if ch = c then globMatch p t else false
termination_by p => p.length
decreasing_by
  · simp
  · have := (List.dropWhile_sublist (l := p) fun x => decide (x = byte '*')).length_le
    simp only [List.length_cons]
    omega
  · exact Nat.lt_succ_of_le (matchClass_length p _)
  · simp

def globMatchBytes (p t : Str) : Bool := globMatch p t

end ExtKtrace.TpLexer
