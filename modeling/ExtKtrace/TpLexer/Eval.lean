import ExtKtrace.TpLexer.Glob
import ExtKtrace.TpLexer.Parser
import ExtKtrace.TpLexer.Schema

/-! # Compilation and evaluation -/

namespace ExtKtrace.TpLexer
set_option autoImplicit false

inductive Tri where
  | true
  | false
  | unknown
deriving DecidableEq

namespace Tri

def and : Tri → Tri → Tri
  | .false, _ => .false
  | _, .false => .false
  | .unknown, x => x
  | x, .unknown => x
  | .true, .true => .true

def or : Tri → Tri → Tri
  | .true, _ => .true
  | _, .true => .true
  | .unknown, x => x
  | x, .unknown => x
  | .false, .false => .false

/-- `if res { Tri::True } else { Tri::False }`. -/
def ofBool (res : Bool) : Tri := bif res then .true else .false

end Tri

def NumOp.holds (op : NumOp) (v rhs : Int64) : Bool :=
  match op with
  | .eq => v = rhs
  | .ne => v ≠ rhs
  | .lt => v < rhs
  | .le => v ≤ rhs
  | .gt => v > rhs
  | .ge => v ≥ rhs

/-- The comparisons are those of the signed numbers. -/
theorem NumOp.holds_iff (op : NumOp) (v rhs : Int64) : op.holds v rhs = true ↔
    match op with
    | .eq => v.toInt = rhs.toInt
    | .ne => v.toInt ≠ rhs.toInt
    | .lt => v.toInt < rhs.toInt
    | .le => v.toInt ≤ rhs.toInt
    | .gt => rhs.toInt < v.toInt
    | .ge => rhs.toInt ≤ v.toInt := by
  cases op with
  | eq => exact decide_eq_true_iff.trans Int64.toInt_inj.symm
  | ne => exact decide_eq_true_iff.trans (not_congr Int64.toInt_inj.symm)
  | lt => exact decide_eq_true_iff.trans Int64.lt_iff_toInt_lt
  | le => exact decide_eq_true_iff.trans Int64.le_iff_toInt_le
  | gt => exact decide_eq_true_iff.trans Int64.lt_iff_toInt_lt
  | ge => exact decide_eq_true_iff.trans Int64.le_iff_toInt_le
def StrOp.holds (op : StrOp) (v pat : Str) : Bool :=
  match op with
  | .eq => v = pat
  | .ne => v ≠ pat
  | .glob => globMatchBytes pat v

/-- `if let Some(m) = mask { v &= *m; }`. -/
def applyMask (mask : Option Int64) (v : Int64) : Int64 :=
  match mask with
  | some m => v &&& m
  | none => v

/-- The arms a comparison is evaluated in, by the type its field has in the schema. -/
inductive Arm where
  | compare
  | typeMismatch
  | unreachable
deriving DecidableEq

def numArm : Option FieldType → Arm
  | some (.integer _) => .compare
  | some .bytes | some .unsupported => .typeMismatch
  | none => .unreachable

def strArm : Option FieldType → Arm
  | some .bytes => .compare
  | some (.integer _) | some .unsupported => .typeMismatch
  | none => .unreachable

/-- A comparison: `access` reads its field and `holds` is the test on the value read. -/
def evalLeaf {α : Type} (arm : Arm) (access : Access (Option α)) (holds : α → Bool) : Access Tri :=
  match arm with
  | .compare => do
    match ← access with
    | none => return .unknown
    | some v => return Tri.ofBool (holds v)
  | .typeMismatch => return .false
  | .unreachable => Outcome.fault .unreachable

def evalExpr (schema : Schema) (ctx : Context) : Expr → Access Tri
  | .group inner => evalExpr schema ctx inner
  | .or l r => do
    let lv ← evalExpr schema ctx l
    if lv = .true then return .true
    else
      let rv ← evalExpr schema ctx r
      return lv.or rv
  | .and l r => do
    let lv ← evalExpr schema ctx l
    if lv = .false then return .false
    else
      let rv ← evalExpr schema ctx r
      return lv.and rv
  | .numCmp field _ mask op rhs =>
    evalLeaf (numArm (schema.getType field)) (ctx.getInteger field) fun v =>
      op.holds (applyMask mask v) rhs
  | .strCmp field _ op pat =>
    evalLeaf (strArm (schema.getType field)) (ctx.getStrBytes field) fun v => op.holds v pat

structure Compiled where
  expr : Expr
  schema : Schema

namespace Compiled

def tryEvaluate (c : Compiled) (ctx : Context) : Access Bool := do
  match ← evalExpr c.schema ctx c.expr with
  | .true => return true
  | .false => return false
  | .unknown => return true

def evaluate (c : Compiled) (ctx : Context) : Except Fault Bool :=
  (c.tryEvaluate ctx).result.map fun r => r.toOption.getD false

end Compiled

def fieldError (span : Span) (format : String) (args : List FormatArg) : Except ParseError Unit :=
  .error (ParseError.new span.start span.stop { format := format, args := args })

def validate (schema : Schema) : Expr → Except ParseError Unit
  | .or l r | .and l r => do
    validate schema l
    validate schema r
  | .group inner => validate schema inner
  | .numCmp field span _ _ _ =>
    match schema.get field with
    | none => fieldError span "unknown field: \x7b\x7d" [.str field]
    | some (.bytes, _, _) => fieldError span "field '\x7b\x7d' is not numeric" [.str field]
    | some (.integer toI64Fn, _, len) =>
      match toI64Fn.byteLen.filter (· ≠ len) with
      | some expectedLen =>
        fieldError span "field '\x7b\x7d' length \x7b\x7d does not match integer width \x7b\x7d"
          [.str field, .nat len, .nat expectedLen]
      | none => .ok ()
    | some (.unsupported, _, _) =>
      fieldError span "field '\x7b\x7d' has unsupported type" [.str field]
  | .strCmp field span _ _ =>
    match schema.get field with
    | none => fieldError span "unknown field: \x7b\x7d" [.str field]
    | some (.integer _, _, _) => fieldError span "field '\x7b\x7d' is not string" [.str field]
    | some (.bytes, _, _) => .ok ()
    | some (.unsupported, _, _) =>
      fieldError span "field '\x7b\x7d' has unsupported type" [.str field]

def compileWithSchema (input : Str) (schema : Schema) : Option (Except ParseError Compiled) :=
  (parseFilter input).map fun r => do
    let expr ← r
    validate schema expr
    return { expr := expr, schema := schema }

end ExtKtrace.TpLexer
