import ExtKtrace.TpLexer.TriState

/-!
# Compiled filters on event buffers

`validate`, `eval_expr` and the accessors of `BufContext` each look a field up on their own. On
a schema over the built-in types the three agree.
-/

namespace ExtKtrace.TpLexer.BufSound
set_option autoImplicit false

open TriState

inductive BuiltinType where
  | integer (ty : IntegerType)
  | bytes
  | unsupported

structure BuiltinField where
  name : Str
  type : BuiltinType
  offset : Nat
  len : Nat

def BuiltinType.fieldType (t : Target) : BuiltinType → FieldType
  | integer ty => .integer (integerToI64 t ty)
  | bytes => .bytes
  | unsupported => .unsupported

def BuiltinField.toField (t : Target) (f : BuiltinField) : Field where
  name := f.name
  fieldType := f.type.fieldType t
  offset := f.offset
  len := f.len

/-- The schema that `schema!` builds from fields of built-in types. -/
def builtinSchema (t : Target) (fs : List BuiltinField) : Schema where
  fields := fs.map (BuiltinField.toField t)

def findField (fs : List BuiltinField) (name : Str) : Option BuiltinField :=
  fs.find? fun f => f.name = name

/-- The value of an integer field that lies in the buffer and holds bytes of its type. -/
def fieldInt (t : Target) (fs : List BuiltinField) (buf name : Str) : Option Int64 :=
  match findField fs name with
  | some ⟨_, .integer ty, offset, len⟩ =>
    if offset + len ≤ buf.length then
      (ty.decode t ((buf.drop offset).take len)).toOption
    else none
  | _ => none

/-- The value of a bytes field that lies in the buffer, cut at the first NUL. -/
def fieldBytes (fs : List BuiltinField) (buf name : Str) : Option Str :=
  match findField fs name with
  | some ⟨_, .bytes, offset, len⟩ =>
    if offset + len ≤ buf.length then
      some (((buf.drop offset).take len).takeWhile (· ≠ 0))
    else none
  | _ => none

/-- The field of a comparison lies in the buffer and holds bytes that are accepted. -/
def Decodes (t : Target) (fs : List BuiltinField) (buf : Str) : Expr → Prop
  | .numCmp field _ _ _ _ => ∃ v, fieldInt t fs buf field = some v
  | .strCmp field _ _ _ => ∃ v, fieldBytes fs buf field = some v
  | _ => False

/-- The two-valued meaning of a tree over the values of its fields. -/
def meaning (t : Target) (fs : List BuiltinField) (buf : Str) : Expr → Option Bool
  | .or l r => do return (← meaning t fs buf l) || (← meaning t fs buf r)
  | .and l r => do return (← meaning t fs buf l) && (← meaning t fs buf r)
  | .group inner => meaning t fs buf inner
  | .numCmp field _ mask op rhs =>
    (fieldInt t fs buf field).map fun v => op.holds (applyMask mask v) rhs
  | .strCmp field _ op pat => (fieldBytes fs buf field).map fun v => op.holds v pat

/-- The arm `eval_expr` takes at a comparison. -/
def leafArm (schema : Schema) : Expr → Arm
  | .numCmp field _ _ _ _ => numArm (schema.getType field)
  | .strCmp field _ _ _ => strArm (schema.getType field)
  | _ => .compare

theorem builtinSchema_get (t : Target) (fs : List BuiltinField) (name : Str) :
    (builtinSchema t fs).get name =
      (findField fs name).map fun f => (f.type.fieldType t, f.offset, f.len) := by
  unfold builtinSchema Schema.get findField
  rw [List.find?_map, Option.map_map]
  rfl

/-- What holds of every validated comparison holds of the comparisons of a validated tree. -/
theorem forall_leaf {schema : Schema} {P : Expr → Prop}
    (hnum : ∀ field span mask op rhs,
      validate schema (.numCmp field span mask op rhs) = .ok () → P (.numCmp field span mask op rhs))
    (hstr : ∀ field span op pat,
      validate schema (.strCmp field span op pat) = .ok () → P (.strCmp field span op pat))
    {e : Expr} (hv : validate schema e = .ok ()) : ∀ leaf ∈ leaves e, P leaf := by
  induction e with
  | or l r ihl ihr =>
    have h := validate_or.mp hv
    intro leaf hleaf
    rcases List.mem_append.mp hleaf with hl | hr
    · exact ihl h.1 leaf hl
    · exact ihr h.2 leaf hr
  | and l r ihl ihr =>
    have h := validate_and.mp hv
    intro leaf hleaf
    rcases List.mem_append.mp hleaf with hl | hr
    · exact ihl h.1 leaf hl
    · exact ihr h.2 leaf hr
  | numCmp field span mask op rhs =>
    intro leaf hleaf
    rw [List.mem_singleton.mp hleaf]
    exact hnum _ _ _ _ _ hv
  | strCmp field span op pat =>
    intro leaf hleaf
    rw [List.mem_singleton.mp hleaf]
    exact hstr _ _ _ _ hv
  | group inner ih => exact ih hv

/-- What an operator that may skip its right operand ends in, when that is no value. -/
theorem shortCircuit_abrupt {cl cr : Access Tri} {skip : Tri} {f : Tri → Tri → Tri}
    {x : Except Fault (Except EvalError Tri)}
    (h : Outcome.result (do
      let lv ← cl
      if lv = skip then return skip
      else
        let rv ← cr
        return f lv rv) = x)
    (hx : ∀ v, x ≠ .ok (.ok v)) : cl.result = x ∨ cr.result = x := by
  rw [Outcome.result_bind] at h
  rcases hl : cl.result with e | e | lv
  · rw [hl] at h
    exact Or.inl h
  · rw [hl] at h
    exact Or.inl h
  · rw [hl] at h
    simp only at h
    split at h
    · exact absurd h.symm (hx skip)
    · rw [Outcome.result_bind] at h
      rcases hr : cr.result with e | e | rv
      · rw [hr] at h
        exact Or.inr h
      · rw [hr] at h
        exact Or.inr h
      · rw [hr] at h
        exact absurd h.symm (hx (f lv rv))

/-- A fault or an error of the evaluation is one of a comparison of the tree. -/
theorem evalExpr_abrupt {schema : Schema} {ctx : Context} {e : Expr}
    {x : Except Fault (Except EvalError Tri)} (h : (evalExpr schema ctx e).result = x)
    (hx : ∀ v, x ≠ .ok (.ok v)) :
    ∃ leaf ∈ leaves e, (evalExpr schema ctx leaf).result = x := by
  induction e with
  | or l r ihl ihr =>
    rcases shortCircuit_abrupt h hx with hl | hr
    · obtain ⟨leaf, hleaf, hres⟩ := ihl hl
      exact ⟨leaf, List.mem_append_left _ hleaf, hres⟩
    · obtain ⟨leaf, hleaf, hres⟩ := ihr hr
      exact ⟨leaf, List.mem_append_right _ hleaf, hres⟩
  | and l r ihl ihr =>
    rcases shortCircuit_abrupt h hx with hl | hr
    · obtain ⟨leaf, hleaf, hres⟩ := ihl hl
      exact ⟨leaf, List.mem_append_left _ hleaf, hres⟩
    · obtain ⟨leaf, hleaf, hres⟩ := ihr hr
      exact ⟨leaf, List.mem_append_right _ hleaf, hres⟩
  | numCmp field span mask op rhs => exact ⟨_, List.mem_singleton.mpr rfl, h⟩
  | strCmp field span op pat => exact ⟨_, List.mem_singleton.mpr rfl, h⟩
  | group inner ih => exact ih h

/-- What a comparison on a buffer may end in: a value that is known, a fault of the buffer
arithmetic, or an error with a plain text. -/
def Sound : Except Fault (Except EvalError Tri) → Prop
  | .error f => f ≠ .unreachable
  | .ok (.error e) => e.message.args = []
  | .ok (.ok v) => v ≠ .unknown

theorem addUsize_fault {t : Target} {a b : Nat} {f : Fault} (h : t.addUsize a b = .error f) :
    f ≠ .unreachable := by
  unfold Target.addUsize at h
  split at h
  · cases h
  · split at h
    · cases h
      decide
    · cases h

theorem sliceBytes_fault {bytes : Str} {start stop : Nat} {f : Fault}
    (h : sliceBytes bytes start stop = .error f) : f ≠ .unreachable := by
  unfold sliceBytes at h
  split at h
  · cases h
  · cases h
    decide

theorem bind_fault {α β : Type} {c : Except Fault α} {k : α → Except Fault β} {f : Fault}
    (h : c >>= k = .error f) : c = .error f ∨ ∃ a, c = .ok a ∧ k a = .error f := by
  rcases c with e | a
  · cases (show (Except.error e : Except Fault β) = .error f from h)
    exact Or.inl rfl
  · exact Or.inr ⟨a, rfl, h⟩

theorem bind_ok {ε α β : Type} {c : Except ε α} {k : α → Except ε β} {b : β}
    (h : c >>= k = .ok b) : ∃ a, c = .ok a ∧ k a = .ok b := by
  rcases c with e | a
  · cases (show (Except.error e : Except ε β) = .ok b from h)
  · exact ⟨a, rfl, h⟩

theorem toI64_fault {t : Target} {ty : IntegerType} {buf : Str} {offset : Nat} {f : Fault}
    (h : (integerToI64 t ty).toI64 buf offset = .error f) : f ≠ .unreachable := by
  rcases bind_fault h with hadd | ⟨stop, _, h⟩
  · exact addUsize_fault hadd
  · split at h
    · cases h
    · rcases bind_fault h with hslice | ⟨slice, _, h⟩
      · exact sliceBytes_fault hslice
      · cases h

theorem toStrBytes_fault {t : Target} {buf : Str} {offset len : Nat} {f : Fault}
    (h : toStrBytes t buf offset len = .error f) : f ≠ .unreachable := by
  rcases bind_fault h with hadd | ⟨stop, _, h⟩
  · exact addUsize_fault hadd
  · split at h
    · rcases bind_fault h with hslice | ⟨slice, _, h⟩
      · exact sliceBytes_fault hslice
      · rcases bind_fault h with hslice | ⟨cut, _, h⟩
        · exact sliceBytes_fault hslice
        · cases h
    · cases h

/-- An accessor that names the field in its errors and always has a value. -/
theorem evalLeaf_sound {α : Type} {name : Str} {r : Except Fault (Except String α)}
    (hr : ∀ f, r = .error f → f ≠ .unreachable) (holds : α → Bool) :
    Sound (evalLeaf .compare
      (do
        let v ← Outcome.ofResult (r.map (nameError name))
        return some v) holds).result := by
  rcases r with f | m | v
  · exact hr f rfl
  · rfl
  · show Tri.ofBool (holds v) ≠ .unknown
    cases holds v <;> decide

variable {t : Target} {fs : List BuiltinField} {buf : Str}

/-- A numeric comparison that is validated is on an integer field of its type's own length. -/
theorem find_numCmp {field : Str} {span : Span} {mask : Option Int64} {op : NumOp} {rhs : Int64}
    (hv : validate (builtinSchema t fs) (.numCmp field span mask op rhs) = .ok ()) :
    ∃ name ty offset, findField fs field = some ⟨name, .integer ty, offset, ty.size t⟩ := by
  unfold validate at hv
  rw [builtinSchema_get] at hv
  rcases hfind : findField fs field with _ | ⟨name, ty | _ | _, offset, len⟩
  · rw [hfind] at hv
    cases hv
  · rw [hfind] at hv
    by_cases hlen : ty.size t = len
    · subst hlen
      exact ⟨name, ty, offset, rfl⟩
    · simp [BuiltinType.fieldType, integerToI64, Option.filter, hlen, fieldError] at hv
  · rw [hfind] at hv
    cases hv
  · rw [hfind] at hv
    cases hv

theorem find_strCmp {field : Str} {span : Span} {op : StrOp} {pat : Str}
    (hv : validate (builtinSchema t fs) (.strCmp field span op pat) = .ok ()) :
    ∃ name offset len, findField fs field = some ⟨name, .bytes, offset, len⟩ := by
  unfold validate at hv
  rw [builtinSchema_get] at hv
  rcases hfind : findField fs field with _ | ⟨name, ty | _ | _, offset, len⟩
  · rw [hfind] at hv
    cases hv
  · rw [hfind] at hv
    cases hv
  · exact ⟨name, offset, len, rfl⟩
  · rw [hfind] at hv
    cases hv

theorem getInteger_find {field name : Str} {ty : IntegerType} {offset : Nat}
    (h : findField fs field = some ⟨name, .integer ty, offset, ty.size t⟩) :
    (bufContext t buf (builtinSchema t fs)).getInteger field = (do
      let v ← Outcome.ofResult (((integerToI64 t ty).toI64 buf offset).map (nameError field))
      return some v) := by
  simp [bufContext, builtinSchema_get, h, BuiltinType.fieldType, integerToI64, Option.filter]

theorem getStrBytes_find {field name : Str} {offset len : Nat}
    (h : findField fs field = some ⟨name, .bytes, offset, len⟩) :
    (bufContext t buf (builtinSchema t fs)).getStrBytes field = (do
      let bytes ← Outcome.ofResult ((toStrBytes t buf offset len).map (nameError field))
      return some bytes) := by
  simp [bufContext, builtinSchema_get, h, BuiltinType.fieldType]

/-- Every comparison of a validated tree takes its own arm, and its value is known. -/
theorem leaf_sound {e : Expr} (hv : validate (builtinSchema t fs) e = .ok ()) :
    ∀ leaf ∈ leaves e, leafArm (builtinSchema t fs) leaf = .compare ∧
      Sound (evalExpr (builtinSchema t fs) (bufContext t buf (builtinSchema t fs)) leaf).result := by
  refine forall_leaf ?_ ?_ hv
  · intro field span mask op rhs hv
    obtain ⟨name, ty, offset, hfind⟩ := find_numCmp hv
    refine ⟨numArm_of_validate hv, ?_⟩
    rw [evalExpr, numArm_of_validate hv, getInteger_find hfind]
    exact evalLeaf_sound (fun f => toI64_fault) _
  · intro field span op pat hv
    obtain ⟨name, offset, len, hfind⟩ := find_strCmp hv
    refine ⟨strArm_of_validate hv, ?_⟩
    rw [evalExpr, strArm_of_validate hv, getStrBytes_find hfind]
    exact evalLeaf_sound (fun f => toStrBytes_fault) _

theorem addUsize_eq (t : Target) {a b : Nat} (h : a + b < 256 ^ t.usizeBytes) :
    t.addUsize a b = .ok (a + b) := if_pos h

theorem sliceBytes_eq {bytes : Str} {start stop : Nat} (h : start ≤ stop)
    (hstop : stop ≤ bytes.length) :
    sliceBytes bytes start stop = .ok ((bytes.drop start).take (stop - start)) := by
  unfold sliceBytes
  rw [if_pos ⟨h, hstop⟩, List.drop_take]

/-- An integer field inside the buffer is decoded from exactly its bytes. -/
theorem toI64_inside {ty : IntegerType} {offset : Nat} (hbuf : buf.length < 256 ^ t.usizeBytes)
    (h : offset + ty.size t ≤ buf.length) : (integerToI64 t ty).toI64 buf offset =
      .ok (ty.decode t ((buf.drop offset).take (ty.size t))) := by
  have hadd := addUsize_eq t (a := offset) (b := ty.size t) (by omega)
  have hslice := sliceBytes_eq (Nat.le_add_right offset (ty.size t)) h
  have hnot : ¬ buf.length < offset + ty.size t := by omega
  rw [Nat.add_sub_cancel_left] at hslice
  simp [integerToI64, hadd, hslice, hnot, bind, Except.bind, pure, Except.pure]

theorem takeWhile_eq_take_findIdx {α : Type} (p : α → Bool) (xs : List α) :
    xs.takeWhile (fun x => !p x) = xs.take ((xs.findIdx? p).getD xs.length) := by
  induction xs with
  | nil => rfl
  | cons x xs ih =>
    rw [List.takeWhile_cons, List.findIdx?_cons]
    cases p x with
    | true => rfl
    | false =>
      simp only [Bool.not_false, if_true, ih]
      cases xs.findIdx? p <;> rfl

theorem toStrBytes_inside {offset len : Nat} (hbuf : buf.length < 256 ^ t.usizeBytes)
    (h : offset + len ≤ buf.length) : toStrBytes t buf offset len =
      .ok (.ok (((buf.drop offset).take len).takeWhile (· ≠ 0))) := by
  have hadd := addUsize_eq t (a := offset) (b := len) (by omega)
  have hslice := sliceBytes_eq (Nat.le_add_right offset len) h
  rw [Nat.add_sub_cancel_left] at hslice
  have hlen : ((buf.drop offset).take len).length = len := by
    rw [List.length_take, List.length_drop]
    omega
  have hcut := takeWhile_eq_take_findIdx (fun b : UInt8 => decide (b = 0)) ((buf.drop offset).take len)
  simp only [← decide_not] at hcut
  rw [hcut]
  unfold toStrBytes
  rw [hadd]
  show (if offset + len ≤ buf.length then _ else _) = _
  rw [if_pos h, hslice]
  show (sliceBytes buf offset _ >>= fun s => Except.ok (Except.ok s)) = _
  rcases hfind : ((buf.drop offset).take len).findIdx? (fun b => decide (b = 0)) with _ | p
  · simp only
    rw [hslice]
    simp [hlen, bind, Except.bind, List.take_take]
  · have hp : p < len := by
      have := (List.findIdx?_eq_some_iff_findIdx_eq.mp hfind).1
      omega
    simp only
    rw [sliceBytes_eq (by omega) (by omega)]
    simp only [Nat.add_sub_cancel, Option.getD_some, List.take_take, bind, Except.bind]
    rw [Nat.min_eq_left (by omega)]

/-- Fields that decode are read, and the meaning is the Boolean value on what is read. -/
theorem readable_of_decodes (hbuf : buf.length < 256 ^ t.usizeBytes) {e : Expr}
    (hv : validate (builtinSchema t fs) e = .ok ()) (hd : ∀ leaf ∈ leaves e, Decodes t fs buf leaf) :
    Readable (bufContext t buf (builtinSchema t fs)) e ∧
      ∃ b, meaning t fs buf e = some b ∧
        value (bufContext t buf (builtinSchema t fs)) e = some b := by
  induction e with
  | or l r ihl ihr =>
    have h := validate_or.mp hv
    obtain ⟨hl, bl, hml, hvl⟩ := ihl h.1 fun leaf hleaf => hd leaf (List.mem_append_left _ hleaf)
    obtain ⟨hr, br, hmr, hvr⟩ := ihr h.2 fun leaf hleaf => hd leaf (List.mem_append_right _ hleaf)
    exact ⟨⟨hl, hr⟩, bl || br, by simp [meaning, hml, hmr], by rw [value, hvl, hvr]; rfl⟩
  | and l r ihl ihr =>
    have h := validate_and.mp hv
    obtain ⟨hl, bl, hml, hvl⟩ := ihl h.1 fun leaf hleaf => hd leaf (List.mem_append_left _ hleaf)
    obtain ⟨hr, br, hmr, hvr⟩ := ihr h.2 fun leaf hleaf => hd leaf (List.mem_append_right _ hleaf)
    exact ⟨⟨hl, hr⟩, bl && br, by simp [meaning, hml, hmr], by rw [value, hvl, hvr]; rfl⟩
  | numCmp field span mask op rhs =>
    obtain ⟨name, ty, offset, hfind⟩ := find_numCmp hv
    obtain ⟨v, hint⟩ := hd _ (List.mem_singleton.mpr rfl)
    have hget : ((bufContext t buf (builtinSchema t fs)).getInteger field).result =
        .ok (.ok (some v)) := by
      rw [getInteger_find hfind]
      simp only [fieldInt, hfind] at hint
      split at hint
      · rename_i hin
        rw [toI64_inside hbuf hin]
        rcases hdec : ty.decode t ((buf.drop offset).take (ty.size t)) with m | w
        · rw [hdec] at hint
          cases hint
        · rw [hdec] at hint
          cases hint
          rfl
      · cases hint
    exact ⟨⟨_, hget⟩, _, by rw [meaning, hint]; rfl, by rw [value_numCmp hget]; rfl⟩
  | strCmp field span op pat =>
    obtain ⟨name, offset, len, hfind⟩ := find_strCmp hv
    obtain ⟨v, hstr⟩ := hd _ (List.mem_singleton.mpr rfl)
    have hget : ((bufContext t buf (builtinSchema t fs)).getStrBytes field).result =
        .ok (.ok (some v)) := by
      rw [getStrBytes_find hfind]
      simp only [fieldBytes, hfind] at hstr
      split at hstr
      · rename_i hin
        rw [toStrBytes_inside hbuf hin]
        cases hstr
        rfl
      · cases hstr
    exact ⟨⟨_, hget⟩, _, by rw [meaning, hstr]; rfl, by rw [value_strCmp hget]; rfl⟩
  | group inner ih => exact ih hv hd

theorem validate_of_compile {input : Str} {schema : Schema} {c : Compiled}
    (h : compileWithSchema input schema = some (.ok c)) :
    c.schema = schema ∧ validate schema c.expr = .ok () := by
  unfold compileWithSchema at h
  obtain ⟨r, _, hr⟩ := Option.map_eq_some_iff.mp h
  rcases r with e | expr
  · cases hr
  · rcases bind_ok hr with ⟨expr', hexpr, hr⟩
    cases hexpr
    rcases bind_ok hr with ⟨u, hval, hr⟩
    cases hr
    exact ⟨rfl, hval⟩

/-- A filter that compiles does not go wrong on any buffer, and on a buffer that holds its fields
it evaluates to its meaning. -/
theorem compiled_filter_sound (t : Target) (fs : List BuiltinField) (input buf : Str)
    (c : Compiled) (hc : compileWithSchema input (builtinSchema t fs) = some (.ok c)) :
    (∀ leaf ∈ leaves c.expr, leafArm c.schema leaf = .compare ∧
      (evalExpr c.schema (bufContext t buf (builtinSchema t fs)) leaf).result ≠
        .ok (.ok .unknown)) ∧
    (evalExpr c.schema (bufContext t buf (builtinSchema t fs)) c.expr).result ≠
      .error .unreachable ∧
    (∀ name len expectedLen,
      (evalExpr c.schema (bufContext t buf (builtinSchema t fs)) c.expr).result ≠
        .ok (.error (schemaLengthError name len expectedLen))) ∧
    (buf.length < 256 ^ t.usizeBytes → (∀ leaf ∈ leaves c.expr, Decodes t fs buf leaf) →
      ∃ b, meaning t fs buf c.expr = some b ∧
        (c.tryEvaluate (bufContext t buf (builtinSchema t fs))).result = .ok (.ok b)) := by
  obtain ⟨expr, schema⟩ := c
  obtain ⟨rfl, hv⟩ := validate_of_compile hc
  have hsound := @leaf_sound t fs buf expr hv
  refine ⟨fun leaf hleaf => ⟨(hsound leaf hleaf).1, ?_⟩, ?_, ?_, ?_⟩
  · intro hunknown
    have h := (hsound leaf hleaf).2
    rw [hunknown] at h
    exact h rfl
  · intro hfault
    obtain ⟨leaf, hleaf, hres⟩ := evalExpr_abrupt hfault fun v hx => by cases hx
    have h := (hsound leaf hleaf).2
    rw [hres] at h
    exact h rfl
  · intro name len expectedLen herr
    obtain ⟨leaf, hleaf, hres⟩ := evalExpr_abrupt herr fun v hx => by cases hx
    have h := (hsound leaf hleaf).2
    rw [hres] at h
    cases h
  · intro hbuf hd
    obtain ⟨hread, b, hmeaning, hvalue⟩ := readable_of_decodes hbuf hv hd
    have heval := evalExpr_eq_value hv hread
    have htry := tryEvaluate_result heval
    rw [hvalue] at htry
    exact ⟨b, hmeaning, htry⟩

def sigCommFields : List BuiltinField := [
  { name := ascii "sig", type := .integer (.prim .u8), offset := 0, len := 1 },
  { name := ascii "comm", type := .bytes, offset := 1, len := 4 }]

theorem compiled_filter_sound_sig :
    ((Compiled.mk
      (.and (.numCmp (ascii "sig") ⟨0, 3⟩ none .ge 10)
        (.strCmp (ascii "comm") ⟨13, 17⟩ .ne (ascii "bash")))
      (builtinSchema ⟨false, false, true⟩ sigCommFields)).tryEvaluate
        (bufContext ⟨false, false, true⟩ [12, 115, 104, 0, 0]
          (builtinSchema ⟨false, false, true⟩ sigCommFields))).result = .ok (.ok true) := by
  have hparse : parseFilter (ascii "sig >= 10 && comm != bash") = some (.ok
      (.and (.numCmp (ascii "sig") ⟨0, 3⟩ none .ge 10)
        (.strCmp (ascii "comm") ⟨13, 17⟩ .ne (ascii "bash")))) := by
    apply eq_of_toOption
    decide +kernel
  have h := compiled_filter_sound ⟨false, false, true⟩ sigCommFields
    (ascii "sig >= 10 && comm != bash") [12, 115, 104, 0, 0] _ (by rw [compileWithSchema, hparse]; rfl)
  obtain ⟨b, hmeaning, htry⟩ := h.2.2.2 (by decide) (by
    intro leaf hleaf
    rcases List.mem_cons.mp hleaf with rfl | hleaf
    · exact ⟨12, rfl⟩
    · rw [List.mem_singleton.mp hleaf]
      exact ⟨[115, 104], rfl⟩)
  rw [htry]
  cases hmeaning
  rfl

end ExtKtrace.TpLexer.BufSound
