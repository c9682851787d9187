import ExtKtrace.TpLexer.BufSound
import ExtKtrace.TpLexer.Printer

/-!
# Filters over a map of texts

The same filter over an event buffer and over a `BTreeMap<String, String>` with the text of
every field.
-/

namespace ExtKtrace.TpLexer.MapContext
set_option autoImplicit false

open TriState BufSound

/-- `Context for BTreeMap<String, String>`, the map given by what `get` finds. -/
def mapContext (map : Str → Option Str) : Context where
  getInteger name :=
    match map name with
    | none => return none
    | some value =>
      match parseI64LiteralText value with
      | .ok v => return some v
      | .error message =>
        throw { field := name, message := .text (
          if message = "integer literal overflow" then "integer literal overflow"
          else "invalid integer literal") }
  getStrBytes name := return map name

/-- The number that bytes of a type stand for; `as i64` comes after it. -/
def number (t : Target) (ty : IntegerType) (slice : Str) : Int :=
  match ty with
  | .prim p | .nonZero p => p.fromNeBytes t slice
  | .bool => if slice.head? = some 0 then 0 else 1
  | .char => Prim.u32.fromNeBytes t slice

def decimalInt (v : Int) : Str :=
  if v < 0 then byte '-' :: decimalNat v.natAbs else decimalNat v.natAbs

/-- The entry of a map is the text of a field that lies in the buffer: the number of an accepted
integer above `i64::MIN` and up to `i64::MAX`, or a string without NUL that zeros follow. -/
def Entry (t : Target) (buf : Str) (f : BuiltinField) (entry : Option Str) : Prop :=
  let slice := (buf.drop f.offset).take f.len
  match f.type with
  | .integer ty => f.offset + f.len ≤ buf.length ∧ (∃ v, ty.decode t slice = .ok v) ∧
      -2 ^ 63 < number t ty slice ∧ number t ty slice < 2 ^ 63 ∧
      entry = some (decimalInt (number t ty slice))
  | .bytes => f.offset + f.len ≤ buf.length ∧ ∃ s n, slice = s ++ List.replicate n 0 ∧
      (∀ b ∈ s, b ≠ 0) ∧ entry = some s
  | .unsupported => True

theorem evalExpr_congr {schema : Schema} {ctx ctx' : Context} {e : Expr}
    (h : ∀ leaf ∈ leaves e, evalExpr schema ctx leaf = evalExpr schema ctx' leaf) :
    evalExpr schema ctx e = evalExpr schema ctx' e := by
  induction e with
  | or l r ihl ihr =>
    simp only [evalExpr]
    rw [ihl fun leaf hleaf => h leaf (List.mem_append_left _ hleaf),
      ihr fun leaf hleaf => h leaf (List.mem_append_right _ hleaf)]
  | and l r ihl ihr =>
    simp only [evalExpr]
    rw [ihl fun leaf hleaf => h leaf (List.mem_append_left _ hleaf),
      ihr fun leaf hleaf => h leaf (List.mem_append_right _ hleaf)]
  | group inner ih =>
    simp only [evalExpr]
    exact ih h
  | numCmp field span mask op rhs => exact h _ (List.mem_singleton.mpr rfl)
  | strCmp field span op pat => exact h _ (List.mem_singleton.mpr rfl)

theorem parse_decimalInt {v : Int} (hmin : -2 ^ 63 < v) (hmax : v < 2 ^ 63) :
    parseI64LiteralText (decimalInt v) = .ok (Int64.ofInt v) := by
  have hv : (Int64.ofInt v).toInt = v := Int64.toInt_ofInt_of_le (by omega) (by omega)
  have htext : decimalInt v = decimal (Int64.ofInt v) := by
    unfold decimal decimalInt
    rw [hv]
  have hne : Int64.ofInt v ≠ Int64.minValue := by
    intro heq
    rw [heq, Int64.toInt_minValue] at hv
    omega
  rw [htext]
  exact parseI64LiteralText_decimal hne

theorem decode_eq {t : Target} {ty : IntegerType} {slice : Str} {v : Int64}
    (h : ty.decode t slice = .ok v) : v = Int64.ofInt (number t ty slice) := by
  unfold IntegerType.decode at h
  unfold number
  cases ty with
  | prim p => exact (Except.ok.inj h).symm
  | bool =>
    simp only at h
    rw [← Except.ok.inj h]
    split <;> rfl
  | char =>
    simp only at h
    split at h
    · exact (Except.ok.inj h).symm
    · cases h
  | nonZero p =>
    simp only at h
    split at h
    · cases h
    · exact (Except.ok.inj h).symm

theorem takeWhile_padded {s : Str} {n : Nat} (hs : ∀ b ∈ s, b ≠ 0) :
    (s ++ List.replicate n 0).takeWhile (· ≠ 0) = s := by
  rw [List.takeWhile_append_of_pos (by simpa using hs)]
  cases n <;> simp [List.replicate_succ]

section
variable {t : Target} {fs : List BuiltinField} {buf : Str} {map : Str → Option Str}

theorem getInteger_agree {name fname : Str} {ty : IntegerType} {offset : Nat}
    (hbuf : buf.length < 256 ^ t.usizeBytes)
    (hfind : findField fs name = some ⟨fname, .integer ty, offset, ty.size t⟩)
    (hentry : Entry t buf ⟨fname, .integer ty, offset, ty.size t⟩ (map name)) :
    ∃ v, fieldInt t fs buf name = some v ∧
      ((bufContext t buf (builtinSchema t fs)).getInteger name).result = .ok (.ok (some v)) ∧
      ((mapContext map).getInteger name).result = .ok (.ok (some v)) := by
  obtain ⟨hin, ⟨v, hdecode⟩, hmin, hmax, hmap⟩ := hentry
  simp only at hin hdecode hmin hmax hmap
  refine ⟨v, ?_, ?_, ?_⟩
  · simp only [fieldInt, hfind, if_pos hin, hdecode]
    rfl
  · rw [getInteger_find hfind, toI64_inside hbuf hin, hdecode]
    rfl
  · simp only [mapContext, hmap, parse_decimalInt hmin hmax]
    rw [decode_eq hdecode]
    rfl

theorem getStrBytes_agree {name fname : Str} {offset len : Nat}
    (hbuf : buf.length < 256 ^ t.usizeBytes)
    (hfind : findField fs name = some ⟨fname, .bytes, offset, len⟩)
    (hentry : Entry t buf ⟨fname, .bytes, offset, len⟩ (map name)) :
    ∃ s, fieldBytes fs buf name = some s ∧
      ((bufContext t buf (builtinSchema t fs)).getStrBytes name).result = .ok (.ok (some s)) ∧
      ((mapContext map).getStrBytes name).result = .ok (.ok (some s)) := by
  obtain ⟨hin, s, n, hslice, hs, hmap⟩ := hentry
  simp only at hin hslice hmap
  refine ⟨s, ?_, ?_, ?_⟩
  · simp only [fieldBytes, hfind, if_pos hin, hslice, takeWhile_padded hs]
  · rw [getStrBytes_find hfind, toStrBytes_inside hbuf hin, hslice, takeWhile_padded hs]
    rfl
  · simp only [mapContext, hmap]
    rfl

/-- A comparison that passed validation reads the same value from both. -/
theorem leaf_agree (hbuf : buf.length < 256 ^ t.usizeBytes)
    (hmap : ∀ name f, findField fs name = some f → Entry t buf f (map name)) {e : Expr}
    (hv : validate (builtinSchema t fs) e = .ok ()) :
    ∀ leaf ∈ leaves e, Decodes t fs buf leaf ∧
      evalExpr (builtinSchema t fs) (bufContext t buf (builtinSchema t fs)) leaf =
        evalExpr (builtinSchema t fs) (mapContext map) leaf := by
  refine forall_leaf ?_ ?_ hv
  · intro field span mask op rhs hv
    obtain ⟨fname, ty, offset, hfind⟩ := find_numCmp hv
    obtain ⟨v, hint, hbufget, hmapget⟩ := getInteger_agree hbuf hfind (hmap _ _ hfind)
    have hget : (bufContext t buf (builtinSchema t fs)).getInteger field =
        (mapContext map).getInteger field := hbufget.trans hmapget.symm
    refine ⟨⟨v, hint⟩, ?_⟩
    simp only [evalExpr]
    rw [hget]
  · intro field span op pat hv
    obtain ⟨fname, offset, len, hfind⟩ := find_strCmp hv
    obtain ⟨s, hbytes, hbufget, hmapget⟩ := getStrBytes_agree hbuf hfind (hmap _ _ hfind)
    have hget : (bufContext t buf (builtinSchema t fs)).getStrBytes field =
        (mapContext map).getStrBytes field := hbufget.trans hmapget.symm
    refine ⟨⟨s, hbytes⟩, ?_⟩
    simp only [evalExpr]
    rw [hget]

end

/-- A compiled filter gives the same answer on an event buffer and on the map of its texts. -/
theorem contexts_agree (t : Target) (fs : List BuiltinField) (input buf : Str)
    (map : Str → Option Str) (c : Compiled)
    (hc : compileWithSchema input (builtinSchema t fs) = some (.ok c))
    (hbuf : buf.length < 256 ^ t.usizeBytes)
    (hmap : ∀ name f, findField fs name = some f → Entry t buf f (map name)) :
    ∃ b, (c.tryEvaluate (bufContext t buf (builtinSchema t fs))).result = .ok (.ok b) ∧
      (c.tryEvaluate (mapContext map)).result = .ok (.ok b) := by
  obtain ⟨expr, schema⟩ := c
  obtain ⟨rfl, hv⟩ := validate_of_compile hc
  have hleaf := leaf_agree hbuf hmap hv
  obtain ⟨hread, b, -, hvalue⟩ :=
    readable_of_decodes hbuf hv fun leaf hmem => (hleaf leaf hmem).1
  have htry := tryEvaluate_result (evalExpr_eq_value hv hread)
  rw [hvalue] at htry
  have hcongr : evalExpr (builtinSchema t fs) (mapContext map) expr =
      evalExpr (builtinSchema t fs) (bufContext t buf (builtinSchema t fs)) expr :=
    (evalExpr_congr fun leaf hmem => (hleaf leaf hmem).2).symm
  refine ⟨b, htry, ?_⟩
  unfold Compiled.tryEvaluate at htry ⊢
  rw [hcongr]
  exact htry

def sigCommTexts (name : Str) : Option Str :=
  if name = ascii "sig" then some (ascii "-12")
  else if name = ascii "comm" then some (ascii "sh")
  else none

def signedSigCommFields : List BuiltinField := [
  { name := ascii "sig", type := .integer (.prim .i16), offset := 0, len := 2 },
  { name := ascii "comm", type := .bytes, offset := 2, len := 4 }]

def sigCommFilter : Compiled where
  expr := .and (.numCmp (ascii "sig") ⟨0, 3⟩ none .lt 10)
    (.strCmp (ascii "comm") ⟨12, 16⟩ .ne (ascii "bash"))
  schema := builtinSchema ⟨false, false, true⟩ signedSigCommFields

theorem contexts_agree_sig :
    ∃ b, (sigCommFilter.tryEvaluate (bufContext ⟨false, false, true⟩ [0xF4, 0xFF, 115, 104, 0, 0]
        (builtinSchema ⟨false, false, true⟩ signedSigCommFields))).result = .ok (.ok b) ∧
      (sigCommFilter.tryEvaluate (mapContext sigCommTexts)).result = .ok (.ok b) := by
  have hparse : parseFilter (ascii "sig < 10 && comm != bash") = some (.ok sigCommFilter.expr) := by
    apply eq_of_toOption
    decide +kernel
  have hc : compileWithSchema (ascii "sig < 10 && comm != bash")
      (builtinSchema ⟨false, false, true⟩ signedSigCommFields) = some (.ok sigCommFilter) := by
    rw [compileWithSchema, hparse]
    rfl
  have hmap : ∀ name f, findField signedSigCommFields name = some f →
      Entry ⟨false, false, true⟩ [0xF4, 0xFF, 115, 104, 0, 0] f (sigCommTexts name) := by
    intro name f hfind
    have hname := List.find?_some hfind
    rcases List.mem_cons.mp (List.mem_of_find?_eq_some hfind) with rfl | hmem
    · have hsig : ascii "sig" = name := of_decide_eq_true hname
      subst hsig
      exact ⟨by decide +kernel, ⟨-12, rfl⟩, by decide +kernel, by decide +kernel, by decide +kernel⟩
    · obtain rfl := List.mem_singleton.mp hmem
      have hcomm : ascii "comm" = name := of_decide_eq_true hname
      subst hcomm
      exact ⟨by decide, [115, 104], 2, rfl, by decide +kernel, by decide +kernel⟩
  exact contexts_agree _ _ (ascii "sig < 10 && comm != bash") _ _ _ hc (by decide) hmap

end ExtKtrace.TpLexer.MapContext
