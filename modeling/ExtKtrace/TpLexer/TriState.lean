import ExtKtrace.TpLexer.Eval

/-!
# Tri-state evaluation

A missing field makes its comparison neutral. The abstract view is `Option Bool`, where `none`
is neutral for `Option.merge`, and the evaluator computes it whatever it skips.
-/

namespace ExtKtrace.TpLexer.TriState
set_option autoImplicit false

def leaves : Expr → List Expr
  | .or l r | .and l r => leaves l ++ leaves r
  | .group inner => leaves inner
  | leaf => [leaf]

/-- What an access returned, when it is neither a fault nor an error. -/
def readable {α : Type} (access : Access α) : Option α :=
  match access.result with
  | .ok (.ok v) => some v
  | _ => none

/-- No access to a field of the tree returns an error. -/
def Readable (ctx : Context) : Expr → Prop
  | .or l r | .and l r => Readable ctx l ∧ Readable ctx r
  | .group inner => Readable ctx inner
  | .numCmp field _ _ _ _ => ∃ v, (ctx.getInteger field).result = .ok (.ok v)
  | .strCmp field _ _ _ => ∃ v, (ctx.getStrBytes field).result = .ok (.ok v)

/-- The truth of a comparison, `none` on a missing field. -/
def leafValue (ctx : Context) : Expr → Option Bool
  | .numCmp field _ mask op rhs =>
    (readable (ctx.getInteger field)).join.map fun v => op.holds (applyMask mask v) rhs
  | .strCmp field _ op pat => (readable (ctx.getStrBytes field)).join.map fun v => op.holds v pat
  | _ => none

/-- The comparison is on a field that the context does not have. -/
def Missing (ctx : Context) : Expr → Prop
  | .numCmp field _ _ _ _ => (ctx.getInteger field).result = .ok (.ok none)
  | .strCmp field _ _ _ => (ctx.getStrBytes field).result = .ok (.ok none)
  | _ => False

/-- The ordinary Boolean value of a tree; there is one when no field is missing. -/
def boolValue (ctx : Context) : Expr → Option Bool
  | .or l r => do return (← boolValue ctx l) || (← boolValue ctx r)
  | .and l r => do return (← boolValue ctx l) && (← boolValue ctx r)
  | .group inner => boolValue ctx inner
  | leaf => leafValue ctx leaf

/-- Delete the comparisons on missing fields; an operator left with one operand becomes it. -/
def prune (ctx : Context) : Expr → Option Expr
  | .or l r => Option.merge Expr.or (prune ctx l) (prune ctx r)
  | .and l r => Option.merge Expr.and (prune ctx l) (prune ctx r)
  | .group inner => (prune ctx inner).map Expr.group
  | leaf => if (leafValue ctx leaf).isSome then some leaf else none

/-- Evaluation without short circuits. -/
def evalFull (schema : Schema) (ctx : Context) : Expr → Access Tri
  | .or l r => do
    let lv ← evalFull schema ctx l
    let rv ← evalFull schema ctx r
    return lv.or rv
  | .and l r => do
    let lv ← evalFull schema ctx l
    let rv ← evalFull schema ctx r
    return lv.and rv
  | .group inner => evalFull schema ctx inner
  | leaf => evalExpr schema ctx leaf

/-- Swapping the operands of an operator and re-associating a chain of one operator, anywhere in
the tree and through parentheses. -/
inductive Rearranged : Expr → Expr → Prop
  | refl (e : Expr) : Rearranged e e
  | symm {e f : Expr} : Rearranged e f → Rearranged f e
  | trans {e f g : Expr} : Rearranged e f → Rearranged f g → Rearranged e g
  | or {l l' r r' : Expr} : Rearranged l l' → Rearranged r r' → Rearranged (.or l r) (.or l' r')
  | and {l l' r r' : Expr} :
      Rearranged l l' → Rearranged r r' → Rearranged (.and l r) (.and l' r')
  | group {e f : Expr} : Rearranged e f → Rearranged (.group e) (.group f)
  | parens (e : Expr) : Rearranged e (.group e)
  | or_swap (l r : Expr) : Rearranged (.or l r) (.or r l)
  | and_swap (l r : Expr) : Rearranged (.and l r) (.and r l)
  | or_assoc (a b c : Expr) : Rearranged (.or (.or a b) c) (.or a (.or b c))
  | and_assoc (a b c : Expr) : Rearranged (.and (.and a b) c) (.and a (.and b c))

/-- Merging the values of the comparisons, `none` being neutral. -/
def value (ctx : Context) : Expr → Option Bool
  | .or l r => Option.merge or (value ctx l) (value ctx r)
  | .and l r => Option.merge and (value ctx l) (value ctx r)
  | .group inner => value ctx inner
  | leaf => leafValue ctx leaf

def triOf : Option Bool → Tri
  | none => .unknown
  | some b => Tri.ofBool b

theorem triOf_or (a b : Option Bool) : (triOf a).or (triOf b) = triOf (Option.merge or a b) := by
  rcases a with _ | (_ | _) <;> rcases b with _ | (_ | _) <;> rfl

theorem triOf_and (a b : Option Bool) : (triOf a).and (triOf b) = triOf (Option.merge and a b) := by
  rcases a with _ | (_ | _) <;> rcases b with _ | (_ | _) <;> rfl

theorem triOf_or_true {a : Option Bool} (h : triOf a = .true) (b : Option Bool) :
    triOf (Option.merge or a b) = .true := by
  rw [← triOf_or, h]
  rfl

theorem triOf_and_false {a : Option Bool} (h : triOf a = .false) (b : Option Bool) :
    triOf (Option.merge and a b) = .false := by
  rw [← triOf_and, h]
  rfl

theorem triOf_eq_unknown {a : Option Bool} : triOf a = .unknown ↔ a = none := by
  rcases a with _ | (_ | _) <;> decide

theorem numArm_of_validate {schema : Schema} {field : Str} {span : Span} {mask : Option Int64}
    {op : NumOp} {rhs : Int64} (h : validate schema (.numCmp field span mask op rhs) = .ok ()) :
    numArm (schema.getType field) = .compare := by
  unfold validate at h
  unfold Schema.getType
  rcases hget : schema.get field with _ | ⟨_ | _ | _, offset, len⟩
  · rw [hget] at h
    cases h
  · rfl
  · rw [hget] at h
    cases h
  · rw [hget] at h
    cases h

theorem strArm_of_validate {schema : Schema} {field : Str} {span : Span} {op : StrOp} {pat : Str}
    (h : validate schema (.strCmp field span op pat) = .ok ()) :
    strArm (schema.getType field) = .compare := by
  unfold validate at h
  unfold Schema.getType
  rcases hget : schema.get field with _ | ⟨_ | _ | _, offset, len⟩
  · rw [hget] at h
    cases h
  · rw [hget] at h
    cases h
  · rfl
  · rw [hget] at h
    cases h

theorem validate_both {schema : Schema} {l r : Expr} :
    (do validate schema l; validate schema r : Except ParseError Unit) = .ok () ↔
      validate schema l = .ok () ∧ validate schema r = .ok () := by
  rcases hl : validate schema l with e | u
  · constructor
    · intro h
      cases h
    · rintro ⟨h, _⟩
      cases h
  · exact ⟨fun h => ⟨rfl, h⟩, fun h => h.2⟩

theorem validate_or {schema : Schema} {l r : Expr} : validate schema (.or l r) = .ok () ↔
    validate schema l = .ok () ∧ validate schema r = .ok () := validate_both

theorem validate_and {schema : Schema} {l r : Expr} : validate schema (.and l r) = .ok () ↔
    validate schema l = .ok () ∧ validate schema r = .ok () := validate_both

/-- A comparison that takes its own arm: `unknown` on a missing field, else the test. -/
theorem evalLeaf_compare {α : Type} {access : Access (Option α)} {v : Option α} (holds : α → Bool)
    (h : access.result = .ok (.ok v)) :
    (evalLeaf .compare access holds).result = .ok (.ok (triOf (v.map holds))) := by
  unfold evalLeaf
  rw [Outcome.result_bind_ok h]
  cases v <;> rfl

theorem value_numCmp {ctx : Context} {field : Str} {v : Option Int64}
    (h : (ctx.getInteger field).result = .ok (.ok v)) (span : Span) (mask : Option Int64)
    (op : NumOp) (rhs : Int64) : value ctx (.numCmp field span mask op rhs) =
      v.map fun v => op.holds (applyMask mask v) rhs := by
  simp [value, leafValue, readable, h]

theorem value_strCmp {ctx : Context} {field : Str} {v : Option Str}
    (h : (ctx.getStrBytes field).result = .ok (.ok v)) (span : Span) (op : StrOp) (pat : Str) :
    value ctx (.strCmp field span op pat) = v.map fun v => op.holds v pat := by
  simp [value, leafValue, readable, h]

variable {schema : Schema} {ctx : Context}

/-- The evaluator computes the merged value: what it skips could not change it. -/
theorem evalExpr_eq_value {e : Expr} (hv : validate schema e = .ok ()) (hr : Readable ctx e) :
    (evalExpr schema ctx e).result = .ok (.ok (triOf (value ctx e))) := by
  induction e with
  | or l r ihl ihr =>
    have hlr := validate_both.mp hv
    have hl := ihl hlr.1 hr.1
    have hrr := ihr hlr.2 hr.2
    unfold evalExpr
    rw [Outcome.result_bind_ok hl]
    split
    · rename_i ht
      rw [value, triOf_or_true ht]
      rfl
    · rw [Outcome.result_bind_ok hrr, value, ← triOf_or]
      rfl
  | and l r ihl ihr =>
    have hlr := validate_both.mp hv
    have hl := ihl hlr.1 hr.1
    have hrr := ihr hlr.2 hr.2
    unfold evalExpr
    rw [Outcome.result_bind_ok hl]
    split
    · rename_i ht
      rw [value, triOf_and_false ht]
      rfl
    · rw [Outcome.result_bind_ok hrr, value, ← triOf_and]
      rfl
  | numCmp field span mask op rhs =>
    obtain ⟨v, hget⟩ := hr
    unfold evalExpr
    rw [numArm_of_validate hv, evalLeaf_compare _ hget, value_numCmp hget]
  | strCmp field span op pat =>
    obtain ⟨v, hget⟩ := hr
    unfold evalExpr
    rw [strArm_of_validate hv, evalLeaf_compare _ hget, value_strCmp hget]
  | group inner ih => exact ih hv hr

theorem evalFull_eq_value {e : Expr} (hv : validate schema e = .ok ()) (hr : Readable ctx e) :
    (evalFull schema ctx e).result = .ok (.ok (triOf (value ctx e))) := by
  induction e with
  | or l r ihl ihr =>
    have hlr := validate_both.mp hv
    unfold evalFull
    rw [Outcome.result_bind_ok (ihl hlr.1 hr.1), Outcome.result_bind_ok (ihr hlr.2 hr.2), value,
      ← triOf_or]
    rfl
  | and l r ihl ihr =>
    have hlr := validate_both.mp hv
    unfold evalFull
    rw [Outcome.result_bind_ok (ihl hlr.1 hr.1), Outcome.result_bind_ok (ihr hlr.2 hr.2), value,
      ← triOf_and]
    rfl
  | numCmp field span mask op rhs => exact evalExpr_eq_value hv hr
  | strCmp field span op pat => exact evalExpr_eq_value hv hr
  | group inner ih => exact ih hv hr

theorem value_eq_none {e : Expr} (hr : Readable ctx e) :
    value ctx e = none ↔ ∀ leaf ∈ leaves e, Missing ctx leaf := by
  induction e with
  | or l r ihl ihr =>
    have h := ihl hr.1
    have h' := ihr hr.2
    rw [value, leaves]
    simp only [Option.merge_eq_none_iff, List.mem_append]
    grind
  | and l r ihl ihr =>
    have h := ihl hr.1
    have h' := ihr hr.2
    rw [value, leaves]
    simp only [Option.merge_eq_none_iff, List.mem_append]
    grind
  | numCmp field span mask op rhs =>
    obtain ⟨v, hget⟩ := hr
    rw [value_numCmp hget]
    simp [leaves, Missing, hget]
  | strCmp field span op pat =>
    obtain ⟨v, hget⟩ := hr
    rw [value_strCmp hget]
    simp [leaves, Missing, hget]
  | group inner ih => exact ih hr

/-- Pruning deletes the whole tree, or leaves a tree whose Boolean value is the merged value. -/
theorem value_prune (ctx : Context) (e : Expr) :
    (value ctx e = none ∧ prune ctx e = none) ∨
      ∃ e' b, value ctx e = some b ∧ prune ctx e = some e' ∧ boolValue ctx e' = some b := by
  induction e with
  | or l r ihl ihr =>
    rw [value, prune]
    rcases ihl with ⟨hl, hpl⟩ | ⟨l', bl, hl, hpl, hbl⟩ <;>
      rcases ihr with ⟨hr, hpr⟩ | ⟨r', br, hr, hpr, hbr⟩
    · exact Or.inl ⟨by rw [hl, hr]; rfl, by rw [hpl, hpr]; rfl⟩
    · exact Or.inr ⟨r', br, by rw [hl, hr]; rfl, by rw [hpl, hpr]; rfl, hbr⟩
    · exact Or.inr ⟨l', bl, by rw [hl, hr]; rfl, by rw [hpl, hpr]; rfl, hbl⟩
    · refine Or.inr ⟨.or l' r', bl || br, by rw [hl, hr]; rfl, by rw [hpl, hpr]; rfl, ?_⟩
      simp [boolValue, hbl, hbr]
  | and l r ihl ihr =>
    rw [value, prune]
    rcases ihl with ⟨hl, hpl⟩ | ⟨l', bl, hl, hpl, hbl⟩ <;>
      rcases ihr with ⟨hr, hpr⟩ | ⟨r', br, hr, hpr, hbr⟩
    · exact Or.inl ⟨by rw [hl, hr]; rfl, by rw [hpl, hpr]; rfl⟩
    · exact Or.inr ⟨r', br, by rw [hl, hr]; rfl, by rw [hpl, hpr]; rfl, hbr⟩
    · exact Or.inr ⟨l', bl, by rw [hl, hr]; rfl, by rw [hpl, hpr]; rfl, hbl⟩
    · refine Or.inr ⟨.and l' r', bl && br, by rw [hl, hr]; rfl, by rw [hpl, hpr]; rfl, ?_⟩
      simp [boolValue, hbl, hbr]
  | numCmp field span mask op rhs =>
    simp only [value, prune]
    rcases h : leafValue ctx (.numCmp field span mask op rhs) with _ | b
    · exact Or.inl ⟨rfl, rfl⟩
    · exact Or.inr ⟨_, b, rfl, rfl, h⟩
  | strCmp field span op pat =>
    simp only [value, prune]
    rcases h : leafValue ctx (.strCmp field span op pat) with _ | b
    · exact Or.inl ⟨rfl, rfl⟩
    · exact Or.inr ⟨_, b, rfl, rfl, h⟩
  | group inner ih =>
    rw [value, prune]
    rcases ih with ⟨h, hp⟩ | ⟨e', b, h, hp, hb⟩
    · exact Or.inl ⟨h, by rw [hp]; rfl⟩
    · exact Or.inr ⟨.group e', b, h, by rw [hp]; rfl, hb⟩

theorem value_rearranged {e f : Expr} (h : Rearranged e f) (ctx : Context) :
    value ctx e = value ctx f := by
  induction h with
  | refl => rfl
  | symm _ ih => exact ih.symm
  | trans _ _ ih ih' => exact ih.trans ih'
  | or _ _ ih ih' => rw [value, value, ih, ih']
  | and _ _ ih ih' => rw [value, value, ih, ih']
  | group _ ih => exact ih
  | parens => rfl
  | or_swap l r => exact (Option.commutative_merge or).comm _ _
  | and_swap l r => exact (Option.commutative_merge and).comm _ _
  | or_assoc a b c => exact (Option.associative_merge or).assoc _ _ _
  | and_assoc a b c => exact (Option.associative_merge and).assoc _ _ _

/-- Rearranging keeps the fields of a tree. -/
theorem validate_rearranged {e f : Expr} (h : Rearranged e f) :
    validate schema e = .ok () ↔ validate schema f = .ok () := by
  induction h with
  | refl => rfl
  | symm _ ih => exact ih.symm
  | trans _ _ ih ih' => exact ih.trans ih'
  | or _ _ ih ih' => simp only [validate_or, ih, ih']
  | and _ _ ih ih' => simp only [validate_and, ih, ih']
  | group _ ih => exact ih
  | parens => rfl
  | or_swap l r => simp only [validate_or, and_comm]
  | and_swap l r => simp only [validate_and, and_comm]
  | or_assoc a b c => simp only [validate_or, and_assoc]
  | and_assoc a b c => simp only [validate_and, and_assoc]

theorem readable_rearranged {e f : Expr} (h : Rearranged e f) :
    Readable ctx e ↔ Readable ctx f := by
  induction h with
  | refl => rfl
  | symm _ ih => exact ih.symm
  | trans _ _ ih ih' => exact ih.trans ih'
  | or _ _ ih ih' => exact and_congr ih ih'
  | and _ _ ih ih' => exact and_congr ih ih'
  | group _ ih => exact ih
  | parens => rfl
  | or_swap l r => exact and_comm
  | and_swap l r => exact and_comm
  | or_assoc a b c => exact and_assoc
  | and_assoc a b c => exact and_assoc

theorem tryEvaluate_result {e : Expr} {v : Option Bool}
    (h : (evalExpr schema ctx e).result = .ok (.ok (triOf v))) :
    ((Compiled.mk e schema).tryEvaluate ctx).result = .ok (.ok (v.getD true)) := by
  unfold Compiled.tryEvaluate
  rw [Outcome.result_bind_ok h]
  rcases v with _ | (_ | _) <;> rfl

/-- Evaluation is Boolean evaluation of the pruned tree, and neither skipping an operand nor
rearranging the tree changes its answer. -/
theorem eval_is_pruned_boolean (schema : Schema) (ctx : Context) (e : Expr)
    (hv : validate schema e = .ok ()) (hr : Readable ctx e) :
    ∃ t, (evalExpr schema ctx e).result = .ok (.ok t) ∧
      (t = .unknown ↔ ∀ leaf ∈ leaves e, Missing ctx leaf) ∧
      (t ≠ .unknown →
        ∃ e' b, prune ctx e = some e' ∧ boolValue ctx e' = some b ∧ t = Tri.ofBool b) ∧
      ((∀ leaf ∈ leaves e, Missing ctx leaf) →
        ((Compiled.mk e schema).tryEvaluate ctx).result = .ok (.ok true)) ∧
      (evalFull schema ctx e).result = .ok (.ok t) ∧
      ∀ e', Rearranged e e' → (evalExpr schema ctx e').result = .ok (.ok t) := by
  have heval := evalExpr_eq_value hv hr
  refine ⟨triOf (value ctx e), heval, ?_, ?_, ?_, evalFull_eq_value hv hr, ?_⟩
  · rw [triOf_eq_unknown]
    exact value_eq_none hr
  · intro hknown
    rcases value_prune ctx e with ⟨hnone, _⟩ | ⟨e', b, hsome, hprune, hbool⟩
    · exact absurd (triOf_eq_unknown.mpr hnone) hknown
    · exact ⟨e', b, hprune, hbool, by rw [hsome]; rfl⟩
  · intro hall
    have hnone := (value_eq_none hr).mpr hall
    have htry := tryEvaluate_result heval
    rwa [hnone] at htry
  · intro e' hre
    rw [value_rearranged hre ctx]
    exact evalExpr_eq_value ((validate_rearranged hre).mp hv) ((readable_rearranged hre).mp hr)

/-- `sig` is a `u32`, `comm` is bytes. -/
def sigCommSchema (t : Target) : Schema where
  fields := [
    { name := ascii "sig", fieldType := .integer (integerToI64 t (.prim .u32)), offset := 0,
      len := 4 },
    { name := ascii "comm", fieldType := .bytes, offset := 4, len := 16 }]

def sigOnlyContext (sig : Int64) : Context where
  getInteger name := return if name = ascii "sig" then some sig else none
  getStrBytes _ := return none

def sigIsOne : Expr := .numCmp (ascii "sig") ⟨0, 3⟩ none .eq 1

def commIsSh : Expr := .strCmp (ascii "comm") ⟨12, 16⟩ .eq (ascii "sh")

theorem eval_is_pruned_boolean_sig :
    (evalExpr (sigCommSchema ⟨false, false, true⟩) (sigOnlyContext 1)
      (.or commIsSh (.group sigIsOne))).result = .ok (.ok .true) := by
  obtain ⟨t, heval, _, _, _, _, hre⟩ := eval_is_pruned_boolean
    (sigCommSchema ⟨false, false, true⟩) (sigOnlyContext 1) (.or sigIsOne commIsSh) rfl
    ⟨⟨some 1, rfl⟩, ⟨none, rfl⟩⟩
  have htrue : (evalExpr (sigCommSchema ⟨false, false, true⟩) (sigOnlyContext 1)
    (.or sigIsOne commIsSh)).result = .ok (.ok .true) := rfl
  rw [htrue] at heval
  cases heval
  exact hre _ (.trans (.or_swap sigIsOne commIsSh) (.or (.refl commIsSh) (.parens sigIsOne)))

end ExtKtrace.TpLexer.TriState
