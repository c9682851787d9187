import ExtKtrace.Ktracepoint.Point
import ExtKtrace.Lib.ReprC
import ExtKtrace.TpLexer.IntegerFields

/-!
# The layout of an event

`define_event_trace!` builds the bytes of an event and, beside it, the schema by which filters find
the fields in them.
-/

namespace ExtKtrace.Ktracepoint
set_option autoImplicit false

open ReprC (Shape structShape structImage offsets slice readFields roundUp)
open TpLexer (Target Prim IntegerType Schema Expr ascii)
open TpLexer.IntegerFields (littleEndian64)
open TpLexer.BufSound

structure EntryField where
  name : Utf8.Str
  typeName : Utf8.Str
  type : BuiltinType
  shape : Shape

/-- Bytes that a value of the field's type can have. -/
def EntryField.Holds (t : Target) (f : EntryField) (bytes : List UInt8) : Prop :=
  bytes.length = f.shape.size ∧
    ∀ ty, f.type = .integer ty → ty.size t = f.shape.size → ∃ v, ty.decode t bytes = .ok v

structure TraceEntry where
  commonType : UInt16
  commonFlags : UInt8
  commonPreemptCount : UInt8
  commonPid : Int32

namespace TraceEntry

def entry : List EntryField := [
  { name := "common_type".toList, typeName := "u16".toList, type := .integer (.prim .u16),
    shape := ⟨2, 2, Nat.two_pos⟩ },
  { name := "common_flags".toList, typeName := "u8".toList, type := .integer (.prim .u8),
    shape := ⟨1, 1, Nat.one_pos⟩ },
  { name := "common_preempt_count".toList, typeName := "u8".toList, type := .integer (.prim .u8),
    shape := ⟨1, 1, Nat.one_pos⟩ },
  { name := "common_pid".toList, typeName := "i32".toList, type := .integer (.prim .i32),
    shape := ⟨4, 4, ReprC.four_pos⟩ }]

def values (t : Target) (e : TraceEntry) : List (List UInt8) := [
  Prim.u16.toNeBytes t e.commonType.toNat, Prim.u8.toNeBytes t e.commonFlags.toNat,
  Prim.u8.toNeBytes t e.commonPreemptCount.toNat, Prim.i32.toNeBytes t e.commonPid.toInt]

abbrev shapes : List Shape := entry.map EntryField.shape

def shape : Shape := structShape shapes

/-- The bytes of a `TraceEntry`, which has no padding. -/
def toBytes (t : Target) (e : TraceEntry) : List UInt8 :=
  structImage (fun _ => 0) (shapes.zip (e.values t))

/-- What a pointer to the bytes of a buffer, taken for one to a `TraceEntry`, reads. -/
def ofBytes (t : Target) (buf : List UInt8) : TraceEntry where
  commonType := .ofNat (Prim.u16.fromNeBytes t (slice buf 0 2)).toNat
  commonFlags := .ofNat (Prim.u8.fromNeBytes t (slice buf 2 1)).toNat
  commonPreemptCount := .ofNat (Prim.u8.fromNeBytes t (slice buf 3 1)).toNat
  commonPid := .ofInt (Prim.i32.fromNeBytes t (slice buf 4 4))

end TraceEntry

inductive Arg where
  | int (value : Int)
  | bool (b : Bool)
  | char (c : Char)
  | ptr (address : UInt64)

/-- `AsU64::as_u64`. -/
def Arg.asU64 : Arg → UInt64
  | int value => .ofInt value
  | bool b => if b then 1 else 0
  | char c => .ofNat c.toNat
  | ptr address => address

/-- What a use of `define_event_trace!` gives. The assignments read the arguments and the memory
that these point to. -/
structure EventDecl (t : Target) where
  name : Utf8.Str
  system : Utf8.Str
  entry : List EntryField
  fastAssign : (UInt64 → UInt8) → List Arg → List (List UInt8)
  printk : List (List UInt8) → Utf8.Str
  fmtExpr : Utf8.Str
  traceDefault : FnPtr
  assigned : ∀ memory args, List.Forall₂ (EntryField.Holds t) entry (fastAssign memory args)
  fits : (structShape [TraceEntry.shape, structShape (entry.map EntryField.shape)]).size <
    256 ^ t.usizeBytes

def commonFields : List BuiltinField := [
  { name := ascii "common_type", type := .integer (.prim .u16), offset := 0, len := 2 },
  { name := ascii "common_flags", type := .integer (.prim .u8), offset := 2, len := 1 },
  { name := ascii "common_preempt_count", type := .integer (.prim .u8), offset := 3, len := 1 },
  { name := ascii "common_pid", type := .integer (.prim .i32), offset := 4, len := 4 }]

/-- The entries of a schema for the fields of a structure that lies at `base`. -/
def schemaFields (base : Nat) (entry : List EntryField) (offs : List Nat) : List BuiltinField :=
  List.zipWith
    (fun f off =>
      { name := Utf8.encode f.name, type := f.type, offset := base + off, len := f.shape.size })
    entry offs

namespace EventDecl
variable {t : Target} (d : EventDecl t)

abbrev shapes : List Shape := d.entry.map EntryField.shape

def entryShape : Shape := structShape d.shapes

/-- `offset_of!(FullEntry, entry)`. -/
def entryOffset : Nat := roundUp TraceEntry.shape.size d.entryShape.align

def fields : List BuiltinField :=
  commonFields ++ schemaFields d.entryOffset d.entry (offsets 0 d.shapes)

/-- The `schema` in the static of the tracepoint. -/
def schema : Schema := builtinSchema t d.fields

/-- The bytes of a `FullEntry`; what is in the padding is not said. -/
def fullEntry (pad : Nat → UInt8) (common : TraceEntry) (values : List (List UInt8)) :
    List UInt8 :=
  structImage pad [(TraceEntry.shape, common.toBytes t),
    (d.entryShape, structImage (fun i => pad (d.entryOffset + i)) (d.shapes.zip values))]

def traceFmt (buf : List UInt8) : Utf8.Str := d.printk (readFields 0 buf d.shapes)

/-- `is_signed`: the names in its list are those of the signed primitive types. -/
def isSigned (f : EntryField) : Bool :=
  match f.type with
  | .integer (.prim p) => p.signed
  | _ => false

def formatLine (f : EntryField) (offset : Nat) : Utf8.Str :=
  "\tfield: ".toList ++ f.typeName ++ ' ' :: f.name ++ " offset: ".toList ++
    Nat.toDigits 10 offset ++ "; size: ".toList ++ Nat.toDigits 10 f.shape.size ++
    "; signed: ".toList ++ (if isSigned f then ['1'] else ['0']) ++ ";\n".toList

def traceFmtShow : Utf8.Str :=
  "format:\n".toList ++
    "\tfield: u16 common_type; offset: 0; size: 2; signed: 0;\n".toList ++
    "\tfield: u8 common_flags; offset: 2; size: 1; signed: 0;\n".toList ++
    "\tfield: u8 common_preempt_count; offset: 3; size: 1; signed: 0;\n".toList ++
    "\tfield: i32 common_pid; offset: 4; size: 4; signed: 1;\n\n".toList ++
    (List.zipWith (fun f off => formatLine f (d.entryOffset + off)) d.entry
      (offsets 0 d.shapes)).flatten ++
    "\nprint fmt: \"".toList ++ d.fmtExpr ++ "\"".toList

def static {κ : Type} (key : κ) : StaticTracePoint κ :=
  .new key d.name d.system d.traceFmt d.traceFmtShow d.schema

end EventDecl

/-- A field of an event apart from where it lies. -/
structure Value where
  name : TpLexer.Str
  type : BuiltinType
  bytes : List UInt8

def namedValues (entry : List EntryField) (values : List (List UInt8)) : List Value :=
  List.zipWith (fun f bytes => { name := Utf8.encode f.name, type := f.type, bytes := bytes })
    entry values

/-- The common fields and what the assignments gave the others. -/
def EventDecl.values {t : Target} (d : EventDecl t) (common : TraceEntry)
    (values : List (List UInt8)) : List Value :=
  namedValues TraceEntry.entry (common.values t) ++ namedValues d.entry values

def intOf (t : Target) (vs : List Value) (name : TpLexer.Str) : Option Int64 :=
  match vs.find? fun v => v.name = name with
  | some ⟨_, .integer ty, bytes⟩ => (ty.decode t bytes).toOption
  | _ => none

def textOf (vs : List Value) (name : TpLexer.Str) : Option TpLexer.Str :=
  match vs.find? fun v => v.name = name with
  | some ⟨_, .bytes, bytes⟩ => some (bytes.takeWhile (· ≠ 0))
  | _ => none

/-- The buffer holds the value where the field is said to be. -/
structure Placed (buf : List UInt8) (f : BuiltinField) (v : Value) : Prop where
  name : f.name = v.name
  type : f.type = v.type
  len : f.len = v.bytes.length
  inside : f.offset + f.len ≤ buf.length
  bytes : slice buf f.offset f.len = v.bytes

theorem find_placed {buf : List UInt8} {fs : List BuiltinField} {vs : List Value}
    (h : List.Forall₂ (Placed buf) fs vs) (name : TpLexer.Str) :
    (findField fs name = none ∧ vs.find? (fun v => v.name = name) = none) ∨
      ∃ f v, findField fs name = some f ∧ vs.find? (fun v => v.name = name) = some v ∧
        Placed buf f v := by
  induction h with
  | nil => exact .inl ⟨rfl, rfl⟩
  | @cons f v fs vs hplaced _ ih =>
    unfold findField at *
    rw [List.find?_cons, List.find?_cons]
    by_cases hname : v.name = name
    · have hf : f.name = name := hplaced.name.trans hname
      rw [decide_eq_true hf, decide_eq_true hname]
      exact .inr ⟨f, v, rfl, rfl, hplaced⟩
    · have hf : ¬ f.name = name := fun heq => hname (hplaced.name.symm.trans heq)
      rw [decide_eq_false hf, decide_eq_false hname]
      exact ih

theorem fieldInt_eq {t : Target} {buf : List UInt8} {fs : List BuiltinField} {vs : List Value}
    (h : List.Forall₂ (Placed buf) fs vs) (name : TpLexer.Str) :
    fieldInt t fs buf name = intOf t vs name := by
  unfold fieldInt intOf
  rcases find_placed h name with ⟨hf, hv⟩ | ⟨⟨fname, ftype, off, len⟩, ⟨vname, vtype, bytes⟩, hf, hv, hp⟩
  · rw [hf, hv]
  · obtain ⟨-, htype, -, hinside, hbytes⟩ := hp
    dsimp only at htype hinside hbytes
    rw [hf, hv, htype]
    cases vtype with
    | integer ty =>
      dsimp only
      rw [if_pos hinside, ← hbytes]
      rfl
    | bytes => rfl
    | unsupported => rfl

theorem fieldBytes_eq {buf : List UInt8} {fs : List BuiltinField} {vs : List Value}
    (h : List.Forall₂ (Placed buf) fs vs) (name : TpLexer.Str) :
    fieldBytes fs buf name = textOf vs name := by
  unfold fieldBytes textOf
  rcases find_placed h name with ⟨hf, hv⟩ | ⟨⟨fname, ftype, off, len⟩, ⟨vname, vtype, bytes⟩, hf, hv, hp⟩
  · rw [hf, hv]
  · obtain ⟨-, htype, -, hinside, hbytes⟩ := hp
    dsimp only at htype hinside hbytes
    rw [hf, hv, htype]
    cases vtype with
    | integer ty => rfl
    | bytes =>
      dsimp only
      rw [if_pos hinside, ← hbytes]
      rfl
    | unsupported => rfl

/-- Fields that are read back one by one are where the schema says. -/
theorem placed_of_read {base off : Nat} {buf : List UInt8} {entry : List EntryField}
    {values : List (List UInt8)}
    (hread : List.zipWith (fun o s => slice buf (base + o) s.size)
      (offsets off (entry.map EntryField.shape)) (entry.map EntryField.shape) = values)
    (hinside : base + ReprC.stop off (entry.map EntryField.shape) ≤ buf.length) :
    List.Forall₂ (Placed buf) (schemaFields base entry (offsets off (entry.map EntryField.shape)))
      (namedValues entry values) := by
  induction entry generalizing off values with
  | nil => exact .nil
  | cons f entry ih =>
    have hstop := ReprC.le_stop (roundUp off f.shape.align + f.shape.size)
      (entry.map EntryField.shape)
    simp only [List.map_cons, offsets, ReprC.stop, List.zipWith_cons_cons] at hread hinside
    subst hread
    refine .cons ⟨rfl, rfl, ?_, ?_, rfl⟩ (ih rfl hinside)
    · dsimp only
      rw [slice, List.length_take, List.length_drop]
      omega
    · dsimp only
      omega

theorem commonFields_eq : commonFields = schemaFields 0 TraceEntry.entry (offsets 0 TraceEntry.shapes) :=
  rfl

/-- Values of the right lengths, beside the shapes of their fields. -/
theorem fits_zip {entry : List EntryField} {values : List (List UInt8)}
    (h : List.Forall₂ (fun f bytes => bytes.length = f.shape.size) entry values) :
    ReprC.Fits ((entry.map EntryField.shape).zip values) ∧
      ((entry.map EntryField.shape).zip values).map Prod.fst = entry.map EntryField.shape ∧
      ((entry.map EntryField.shape).zip values).map Prod.snd = values := by
  induction h with
  | nil => exact ⟨fun f hf => absurd hf List.not_mem_nil, rfl, rfl⟩
  | @cons f bytes entry values hlen _ ih =>
    obtain ⟨hfits, hfst, hsnd⟩ := ih
    simp only [List.map_cons, List.zip_cons_cons]
    refine ⟨?_, by rw [hfst], by rw [hsnd]⟩
    intro g hg
    rcases List.mem_cons.mp hg with rfl | hg
    · exact hlen
    · exact hfits g hg

theorem sized_common (t : Target) (e : TraceEntry) :
    List.Forall₂ (fun (f : EntryField) bytes => bytes.length = f.shape.size) TraceEntry.entry
      (e.values t) := by
  refine .cons ?_ (.cons ?_ (.cons ?_ (.cons ?_ .nil))) <;> exact Prim.length_toNeBytes t _ _

theorem length_toBytes (t : Target) (e : TraceEntry) : (e.toBytes t).length = 8 := by
  obtain ⟨hfits, hfst, -⟩ := fits_zip (sized_common t e)
  rw [TraceEntry.toBytes, ReprC.length_structImage hfits, hfst]
  rfl

namespace EventDecl
variable {t : Target} {d : EventDecl t}

theorem sized (d : EventDecl t) (memory : UInt64 → UInt8) (args : List Arg) :
    List.Forall₂ (fun f bytes => bytes.length = f.shape.size) d.entry (d.fastAssign memory args) :=
  (d.assigned memory args).imp fun _ _ h => h.1

section Bytes
variable {values : List (List UInt8)} (pad : Nat → UInt8) (common : TraceEntry)
  (h : List.Forall₂ (fun f bytes => bytes.length = f.shape.size) d.entry values)
/-- The common fields, padding, the entry and padding again. -/
theorem fullEntry_split : ∃ between behind : List UInt8,
    (common.toBytes t ++ between).length = d.entryOffset ∧
    d.fullEntry pad common values = common.toBytes t ++ between ++
      structImage (fun i => pad (d.entryOffset + i)) (d.shapes.zip values) ++ behind := by
  have hshape : TraceEntry.shape.size = 8 := rfl
  have hround := ReprC.le_roundUp d.entryShape.align_pos 8
  let size := (structShape [TraceEntry.shape, d.entryShape]).size
  refine ⟨ReprC.fill pad 8 (roundUp 8 d.entryShape.align),
    ReprC.fill pad (d.entryOffset + d.entryShape.size) size, ?_, ?_⟩
  · rw [List.length_append, length_toBytes, ReprC.length_fill, entryOffset, hshape]
    omega
  · exact ReprC.structImage_pair pad _ _ _ _

include h

theorem length_entryImage : (structImage (fun i => pad (d.entryOffset + i))
    (d.shapes.zip values)).length = d.entryShape.size := by
  obtain ⟨hfits, hfst, -⟩ := fits_zip h
  rw [ReprC.length_structImage hfits, hfst]
  rfl

theorem length_fullEntry : (d.fullEntry pad common values).length =
    (structShape [TraceEntry.shape, d.entryShape]).size := by
  have hfits : ReprC.Fits [(TraceEntry.shape, common.toBytes t),
      (d.entryShape, structImage (fun i => pad (d.entryOffset + i)) (d.shapes.zip values))] := by
    intro f hf
    rcases List.mem_cons.mp hf with rfl | hf
    · exact length_toBytes t common
    · rw [List.mem_singleton.mp hf]
      exact length_entryImage pad h
  exact ReprC.length_structImage hfits

theorem readFields_fullEntry :
    readFields d.entryOffset (d.fullEntry pad common values) d.shapes = values := by
  obtain ⟨between, behind, hstart, hsplit⟩ := @fullEntry_split t d values pad common
  obtain ⟨hfits, hfst, hsnd⟩ := fits_zip h
  have hread := @ReprC.readFields_image (fun i => pad (d.entryOffset + i)) _ hfits
    (common.toBytes t ++ between) behind
  rw [hstart, hfst, hsnd] at hread
  rw [hsplit]
  exact hread

theorem placed : List.Forall₂ (Placed (d.fullEntry pad common values)) d.fields
    (d.values common values) := by
  refine List.rel_append ?_ (placed_of_read (readFields_fullEntry pad common h) ?_)
  · obtain ⟨between, behind, hstart, hsplit⟩ := @fullEntry_split t d values pad common
    obtain ⟨hcommon, hcommonFst, hcommonSnd⟩ := fits_zip (sized_common t common)
    have hread := @ReprC.readFields_image (fun _ => 0) _ hcommon []
      (between ++ structImage (fun i => pad (d.entryOffset + i)) (d.shapes.zip values) ++ behind)
    rw [hcommonFst, hcommonSnd, List.nil_append] at hread
    rw [commonFields_eq, hsplit]
    refine placed_of_read ?_ ?_
    · simp only [List.append_assoc] at *
      exact hread
    · have hstop : 0 + ReprC.stop 0 (TraceEntry.entry.map EntryField.shape) = 8 := rfl
      rw [hstop]
      simp only [List.length_append, length_toBytes]
      omega
  · have hentry := ReprC.le_roundUp (ReprC.structAlign_pos d.shapes) (ReprC.stop 0 d.shapes)
    have hstop : ReprC.stop 0 [TraceEntry.shape, d.entryShape] =
        d.entryOffset + d.entryShape.size := by
      have hzero : roundUp 0 TraceEntry.shape.align = 0 :=
        ReprC.roundUp_eq_self TraceEntry.shape.align_pos (Nat.dvd_zero _)
      simp only [ReprC.stop, hzero, Nat.zero_add]
      rfl
    have hwhole := ReprC.le_roundUp (ReprC.structAlign_pos [TraceEntry.shape, d.entryShape])
      (ReprC.stop 0 [TraceEntry.shape, d.entryShape])
    rw [length_fullEntry pad common h]
    rw [hstop] at hwhole
    have hsize : d.entryShape.size = roundUp (ReprC.stop 0 d.shapes) (ReprC.structAlign d.shapes) :=
      rfl
    show d.entryOffset + ReprC.stop 0 d.shapes ≤
      roundUp (ReprC.stop 0 [TraceEntry.shape, d.entryShape]) _
    rw [hstop]
    omega

end Bytes

end EventDecl

/-- The value of a filter on values that are found by name. -/
def truth (t : Target) (vs : List Value) : Expr → Option Bool
  | .or l r => do return (← truth t vs l) || (← truth t vs r)
  | .and l r => do return (← truth t vs l) && (← truth t vs r)
  | .group inner => truth t vs inner
  | .numCmp field _ mask op rhs =>
    (intOf t vs field).map fun v => op.holds (TpLexer.applyMask mask v) rhs
  | .strCmp field _ op pat => (textOf vs field).map fun v => op.holds v pat

theorem meaning_eq_truth {t : Target} {buf : List UInt8} {fs : List BuiltinField} {vs : List Value}
    (h : List.Forall₂ (Placed buf) fs vs) (e : Expr) : meaning t fs buf e = truth t vs e := by
  induction e with
  | or l r ihl ihr => rw [meaning, truth, ihl, ihr]
  | and l r ihl ihr => rw [meaning, truth, ihl, ihr]
  | numCmp field span mask op rhs => rw [meaning, truth, fieldInt_eq h]
  | strCmp field span op pat => rw [meaning, truth, fieldBytes_eq h]
  | group inner ih => exact ih

/-- Bytes that are accepted where they are read as an integer. -/
def Value.Sound (t : Target) (v : Value) : Prop :=
  ∀ ty, v.type = .integer ty → ty.size t = v.bytes.length → ∃ w, ty.decode t v.bytes = .ok w

theorem decodes_of_sound {t : Target} {buf : List UInt8} {fs : List BuiltinField}
    {vs : List Value} (h : List.Forall₂ (Placed buf) fs vs) (hsound : ∀ v ∈ vs, v.Sound t)
    {e : Expr} (hv : TpLexer.validate (builtinSchema t fs) e = .ok ()) :
    ∀ leaf ∈ TpLexer.TriState.leaves e, Decodes t fs buf leaf := by
  refine forall_leaf ?_ ?_ hv
  · intro field span mask op rhs hv
    obtain ⟨name, ty, off, hfind⟩ := find_numCmp hv
    show ∃ w, fieldInt t fs buf field = some w
    rw [fieldInt_eq h]
    rcases find_placed h field with ⟨hnone, -⟩ | ⟨f, ⟨vname, vtype, bytes⟩, hf, hvalue, hp⟩
    · cases hnone.symm.trans hfind
    · cases hf.symm.trans hfind
      have htype : BuiltinType.integer ty = vtype := hp.type
      subst htype
      obtain ⟨w, hw⟩ := hsound _ (List.mem_of_find?_eq_some hvalue) ty rfl hp.len
      refine ⟨w, ?_⟩
      rw [intOf, hvalue]
      dsimp only
      rw [hw]
      rfl
  · intro field span op pat hv
    obtain ⟨name, off, len, hfind⟩ := find_strCmp hv
    show ∃ w, fieldBytes fs buf field = some w
    rw [fieldBytes_eq h]
    rcases find_placed h field with ⟨hnone, -⟩ | ⟨f, ⟨vname, vtype, bytes⟩, hf, hvalue, hp⟩
    · cases hnone.symm.trans hfind
    · cases hf.symm.trans hfind
      have htype : BuiltinType.bytes = vtype := hp.type
      subst htype
      exact ⟨_, by rw [textOf, hvalue]⟩

theorem evaluate_of_tryEvaluate {c : TpLexer.Compiled} {ctx : TpLexer.Context} {b : Bool}
    (h : (c.tryEvaluate ctx).result = .ok (.ok b)) : c.evaluate ctx = .ok b := by
  unfold TpLexer.Compiled.evaluate
  rw [h]
  rfl

theorem sound_namedValues {t : Target} {entry : List EntryField} {values : List (List UInt8)}
    (h : List.Forall₂ (EntryField.Holds t) entry values) :
    ∀ v ∈ namedValues entry values, v.Sound t := by
  induction h with
  | nil => exact fun v hv => absurd hv List.not_mem_nil
  | @cons f bytes entry values hf _ ih =>
    intro v hv
    rcases List.mem_cons.mp hv with rfl | hv
    · exact fun ty htype hsize => hf.2 ty htype (hsize.trans hf.1)
    · exact ih v hv

theorem holds_common (t : Target) (e : TraceEntry) :
    List.Forall₂ (EntryField.Holds t) TraceEntry.entry (e.values t) := by
  refine .cons ?_ (.cons ?_ (.cons ?_ (.cons ?_ .nil)))
  all_goals
    refine ⟨Prim.length_toNeBytes t _ _, ?_⟩
    rintro ty ⟨⟩ -
    exact ⟨_, rfl⟩

/-- `{}` of an integer. -/
def decimal (n : Int) : Utf8.Str :=
  if n < 0 then '-' :: Nat.toDigits 10 n.natAbs else Nat.toDigits 10 n.natAbs

namespace EventDecl
variable {t : Target} (d : EventDecl t)

def assignedValues (common : TraceEntry) (memory : UInt64 → UInt8) (args : List Arg) :
    List Value := d.values common (d.fastAssign memory args)

theorem sound_assigned (common : TraceEntry) (memory : UInt64 → UInt8) (args : List Arg) :
    ∀ v ∈ d.assignedValues common memory args, v.Sound t := by
  intro v hv
  rcases List.mem_append.mp hv with hv | hv
  · exact sound_namedValues (holds_common t common) v hv
  · exact sound_namedValues (d.assigned memory args) v hv

theorem evaluate_fullEntry (common : TraceEntry) (memory : UInt64 → UInt8) (args : List Arg)
    (pad : Nat → UInt8) {input : TpLexer.Str} {c : TpLexer.Compiled}
    (hc : TpLexer.compileWithSchema input d.schema = some (.ok c)) :
    ∃ b, truth t (d.assignedValues common memory args) c.expr = some b ∧
      c.evaluate (TpLexer.bufContext t
        (d.fullEntry pad common (d.fastAssign memory args)) d.schema) = .ok b := by
  have hplaced := d.placed pad common (d.sized memory args)
  obtain ⟨expr, schema⟩ := c
  obtain ⟨hschema, hv⟩ := validate_of_compile hc
  cases hschema
  have hbuf : (d.fullEntry pad common (d.fastAssign memory args)).length < 256 ^ t.usizeBytes := by
    rw [length_fullEntry pad common (d.sized memory args)]
    exact d.fits
  have hdecodes := decodes_of_sound hplaced (d.sound_assigned common memory args) hv
  obtain ⟨hread, b, hmeaning, hvalue⟩ := readable_of_decodes hbuf hv hdecodes
  have htry := TpLexer.TriState.tryEvaluate_result (TpLexer.TriState.evalExpr_eq_value hv hread)
  rw [meaning_eq_truth hplaced] at hmeaning
  rw [hvalue] at htry
  exact ⟨b, hmeaning, evaluate_of_tryEvaluate htry⟩

/-- For every declaration of an event and every call of its tracepoint: each value that was assigned
is in the bytes of the event where the schema says, and a filter that compiles with the schema comes
to the Boolean value that it has on the values assigned. -/
theorem event_reads_back (common : TraceEntry) (memory : UInt64 → UInt8) (args : List Arg)
    (pad : Nat → UInt8) (input : TpLexer.Str) :
    List.Forall₂ (Placed (d.fullEntry pad common (d.fastAssign memory args))) d.fields
      (d.assignedValues common memory args) ∧
    ∀ c, TpLexer.compileWithSchema input d.schema = some (.ok c) →
      ∃ b, truth t (d.assignedValues common memory args) c.expr = some b ∧
        c.evaluate (TpLexer.bufContext t
          (d.fullEntry pad common (d.fastAssign memory args)) d.schema) = .ok b :=
  ⟨d.placed pad common (d.sized memory args),
    fun _ hc => d.evaluate_fullEntry common memory args pad hc⟩

def u32Field (name : String) : EntryField where
  name := name.toList
  typeName := "u32".toList
  type := .integer (.prim .u32)
  shape := ⟨4, 4, ReprC.four_pos⟩

theorem holds_u32 (t : Target) (name : String) (v : Int) :
    (u32Field name).Holds t (Prim.u32.toNeBytes t v) := by
  refine ⟨Prim.length_toNeBytes t _ _, ?_⟩
  rintro ty ⟨⟩ -
  exact ⟨_, rfl⟩

/-- `TEST2` of the usage example. -/
def test2 (t : Target) : EventDecl t where
  name := "TEST2".toList
  system := "tracepoint_test".toList
  entry := [u32Field "a", u32Field "b"]
  fastAssign _ args :=
    match args with
    | [.int a, .int b] => [Prim.u32.toNeBytes t a, Prim.u32.toNeBytes t b]
    | _ => [Prim.u32.toNeBytes t 0, Prim.u32.toNeBytes t 0]
  printk entry :=
    "Hello from tracepoint! a=".toList ++ decimal (Prim.u32.fromNeBytes t (entry.getD 0 [])) ++
      ", b=".toList ++ decimal (Prim.u32.fromNeBytes t (entry.getD 1 []))
  fmtExpr := ("format_args!(\"Hello from tracepoint! a=\x7b\x7d, b=\x7b\x7d\", " ++
    "__entry.a, __entry.b)").toList
  traceDefault := 2
  assigned memory args := by
    split
    · exact .cons (holds_u32 t _ _) (.cons (holds_u32 t _ _) .nil)
    · exact .cons (holds_u32 t _ _) (.cons (holds_u32 t _ _) .nil)
  fits := by
    unfold Target.usizeBytes
    split <;> decide

/-- `a > 3 && b == 9`. -/
def aAndB : Expr :=
  .and (.numCmp (ascii "a") ⟨0, 1⟩ none .gt 3) (.numCmp (ascii "b") ⟨9, 10⟩ none .eq 9)

theorem event_reads_back_test2 :
    TpLexer.compileWithSchema (ascii "a > 3 && b == 9") (test2 littleEndian64).schema =
      some (.ok ⟨aAndB, (test2 littleEndian64).schema⟩) ∧
    TpLexer.Compiled.evaluate ⟨aAndB, (test2 littleEndian64).schema⟩
      (TpLexer.bufContext littleEndian64
        ((test2 littleEndian64).fullEntry (fun _ => 0) ⟨1, 0, 0, 7⟩
          ((test2 littleEndian64).fastAssign (fun _ => 0) [.int 4, .int 9]))
        (test2 littleEndian64).schema) = .ok true := by
  have hparse : TpLexer.parseFilter (ascii "a > 3 && b == 9") = some (.ok aAndB) := by
    apply TpLexer.eq_of_toOption
    decide +kernel
  have hcompile : TpLexer.compileWithSchema (ascii "a > 3 && b == 9")
      (test2 littleEndian64).schema = some (.ok ⟨aAndB, (test2 littleEndian64).schema⟩) := by
    rw [TpLexer.compileWithSchema, hparse]
    rfl
  have htrue : truth littleEndian64 ((test2 littleEndian64).assignedValues ⟨1, 0, 0, 7⟩
      (fun _ => 0) [.int 4, .int 9]) aAndB = some true := by decide +kernel
  obtain ⟨-, hfilter⟩ := event_reads_back (test2 littleEndian64) ⟨1, 0, 0, 7⟩ (fun _ => 0)
    [.int 4, .int 9] (fun _ => 0) (ascii "a > 3 && b == 9")
  obtain ⟨b, htruth, heval⟩ := hfilter _ hcompile
  cases htrue.symm.trans htruth
  exact ⟨hcompile, heval⟩

end EventDecl

end ExtKtrace.Ktracepoint
