import ExtKtrace.Ddebug.Control
import ExtKtrace.Ktracepoint.TraceFilter
import ExtKtrace.Lib.Past

/-!
# Tracepoints and their callbacks

A tracepoint is switched by a static key. The callbacks are in a list that is kept beside it, and
the key is on while there is one.
-/

namespace ExtKtrace.Ktracepoint
set_option autoImplicit false

open Ddebug (RawStaticFalseKey)
open Past (Since)
open TpLexer (Compiled)
open Utf8 (Str)

abbrev FnPtr := Nat

/-- The allocation behind an `Arc`. -/
abbrev ArcPtr := Nat

structure TraceDefaultFunc where
  func : FnPtr
  data : Nat

/-- Two callbacks are equal when they are of one kind and `Arc::ptr_eq`. -/
inductive TraceCallbackType where
  | default (func : ArcPtr)
  | event (func : ArcPtr)
  | rawEvent (func : ArcPtr)
deriving DecidableEq

/-- The whole `TracePoint`; the filter file knows its schema only. -/
structure StaticTracePoint (κ : Type) extends TracePoint where
  name : Str
  system : Str
  key : κ
  id : UInt32
  traceEntryFmtFunc : List UInt8 → Str
  tracePrintFunc : Str
  flags : UInt8

/-- The whole `ExtTracePoint`, with the tracepoint that it points to. -/
structure ExtTracePointState (κ : Type) where
  tracepoint : StaticTracePoint κ
  callbacks : List TraceCallbackType
  compiledExpr : Option Compiled
  defaultCallback : ArcPtr

variable {κ : Type}

namespace StaticTracePoint

def new (key : κ) (name system : Str) (fmtFunc : List UInt8 → Str) (tracePrintFunc : Str)
    (schema : TpLexer.Schema) : StaticTracePoint κ where
  schema := schema
  name := name
  system := system
  key := key
  id := 0
  traceEntryFmtFunc := fmtFunc
  tracePrintFunc := tracePrintFunc
  flags := 0

def setId (id : UInt32) (tp : StaticTracePoint κ) : StaticTracePoint κ := { tp with id := id }

def keyIsEnabled (F : RawStaticFalseKey κ) (tp : StaticTracePoint κ) : Bool := F.isEnabled tp.key

end StaticTracePoint

namespace ExtTracePointState

def new (tracepoint : StaticTracePoint κ) (defaultCallback : ArcPtr) : ExtTracePointState κ where
  tracepoint := tracepoint
  callbacks := []
  compiledExpr := none
  defaultCallback := defaultCallback

/-- What a filter file is given. -/
def toExt (ext : ExtTracePointState κ) : ExtTracePoint where
  tracepoint := ext.tracepoint.toTracePoint
  compiledExpr := ext.compiledExpr

def enableKey (F : RawStaticFalseKey κ) (ext : ExtTracePointState κ) : ExtTracePointState κ :=
  { ext with tracepoint := { ext.tracepoint with key := F.enable ext.tracepoint.key } }

def disableKey (F : RawStaticFalseKey κ) (ext : ExtTracePointState κ) : ExtTracePointState κ :=
  { ext with tracepoint := { ext.tracepoint with key := F.disable ext.tracepoint.key } }

def register (F : RawStaticFalseKey κ) (callback : TraceCallbackType)
    (ext : ExtTracePointState κ) : ExtTracePointState κ :=
  let ext :=
    if ext.callbacks.any (· = callback) then ext
    else { ext with callbacks := ext.callbacks ++ [callback] }
  if ext.callbacks.isEmpty then ext else ext.enableKey F

def unregister (F : RawStaticFalseKey κ) (callback : TraceCallbackType)
    (ext : ExtTracePointState κ) : ExtTracePointState κ :=
  let ext := { ext with callbacks := ext.callbacks.filter (· ≠ callback) }
  if ext.callbacks.isEmpty then ext.disableKey F else ext

end ExtTracePointState

namespace TracePointEnableFile

def read (F : RawStaticFalseKey κ) (tracepoint : StaticTracePoint κ) : Str :=
  if tracepoint.keyIsEnabled F then "1\n".toList else "0\n".toList

def write (F : RawStaticFalseKey κ) (enable : Char) (ext : ExtTracePointState κ) :
    ExtTracePointState κ :=
  if enable = '1' then ext.register F (.default ext.defaultCallback)
  else if enable = '0' then ext.unregister F (.default ext.defaultCallback)
  else ext

end TracePointEnableFile

namespace Callbacks

inductive Op where
  | register (callback : TraceCallbackType)
  | unregister (callback : TraceCallbackType)
  | enableFile (enable : Char)

variable {F : RawStaticFalseKey κ}

def step (F : RawStaticFalseKey κ) (ext : ExtTracePointState κ) : Op → ExtTracePointState κ
  | .register callback => ext.register F callback
  | .unregister callback => ext.unregister F callback
  | .enableFile enable => TracePointEnableFile.write F enable ext

/-- The callback that a call on a tracepoint adds. -/
def Op.adds (defaultCallback : ArcPtr) : Op → Option TraceCallbackType
  | .register callback => some callback
  | .unregister _ => none
  | .enableFile enable => if enable = '1' then some (.default defaultCallback) else none

/-- The callback that a call on a tracepoint takes away. -/
def Op.removes (defaultCallback : ArcPtr) : Op → Option TraceCallbackType
  | .register _ => none
  | .unregister callback => some callback
  | .enableFile enable => if enable = '0' then some (.default defaultCallback) else none

/-- A callback goes to the end of the list unless it is in it. -/
def subscribe (callback : TraceCallbackType) (l : List TraceCallbackType) :
    List TraceCallbackType := if callback ∈ l then l else l ++ [callback]

def unsubscribe (callback : TraceCallbackType) (l : List TraceCallbackType) :
    List TraceCallbackType := l.filter (· ≠ callback)

theorem mem_subscribe {c callback : TraceCallbackType} {l : List TraceCallbackType} :
    c ∈ subscribe callback l ↔ c = callback ∨ c ∈ l := by
  unfold subscribe
  split
  · rename_i h
    exact ⟨.inr, fun hc => hc.elim (fun heq => heq ▸ h) id⟩
  · rw [List.mem_append, List.mem_singleton, or_comm]

theorem mem_unsubscribe {c callback : TraceCallbackType} {l : List TraceCallbackType} :
    c ∈ unsubscribe callback l ↔ c ∈ l ∧ c ≠ callback := by
  simp [unsubscribe]

theorem subscribe_ne_nil (callback : TraceCallbackType) (l : List TraceCallbackType) :
    subscribe callback l ≠ [] :=
  List.ne_nil_of_mem (mem_subscribe.mpr (.inl rfl))

theorem nodup_subscribe {callback : TraceCallbackType} {l : List TraceCallbackType}
    (h : l.Nodup) : (subscribe callback l).Nodup := by
  unfold subscribe
  split
  · exact h
  · rename_i hnot
    refine List.nodup_append.mpr ⟨h, List.pairwise_singleton _ _, ?_⟩
    intro c hc d hd heq
    rw [heq, List.mem_singleton.mp hd] at hc
    exact hnot hc

theorem nodup_unsubscribe {callback : TraceCallbackType} {l : List TraceCallbackType}
    (h : l.Nodup) : (unsubscribe callback l).Nodup := h.filter _

/-- The key is on just when there is a callback. -/
def InStep (F : RawStaticFalseKey κ) (ext : ExtTracePointState κ) : Prop :=
  ext.tracepoint.keyIsEnabled F = true ↔ ext.callbacks ≠ []

/-- What a call leaves alone. -/
structure Same (ext ext' : ExtTracePointState κ) : Prop where
  toTracePoint : ext'.tracepoint.toTracePoint = ext.tracepoint.toTracePoint
  name : ext'.tracepoint.name = ext.tracepoint.name
  system : ext'.tracepoint.system = ext.tracepoint.system
  id : ext'.tracepoint.id = ext.tracepoint.id
  flags : ext'.tracepoint.flags = ext.tracepoint.flags
  traceEntryFmtFunc : ext'.tracepoint.traceEntryFmtFunc = ext.tracepoint.traceEntryFmtFunc
  tracePrintFunc : ext'.tracepoint.tracePrintFunc = ext.tracepoint.tracePrintFunc
  compiledExpr : ext'.compiledExpr = ext.compiledExpr
  defaultCallback : ext'.defaultCallback = ext.defaultCallback

theorem Same.refl (ext : ExtTracePointState κ) : Same ext ext :=
  ⟨rfl, rfl, rfl, rfl, rfl, rfl, rfl, rfl, rfl⟩

theorem Same.trans {a b c : ExtTracePointState κ} (h : Same a b) (h' : Same b c) : Same a c where
  toTracePoint := h'.toTracePoint.trans h.toTracePoint
  name := h'.name.trans h.name
  system := h'.system.trans h.system
  id := h'.id.trans h.id
  flags := h'.flags.trans h.flags
  traceEntryFmtFunc := h'.traceEntryFmtFunc.trans h.traceEntryFmtFunc
  tracePrintFunc := h'.tracePrintFunc.trans h.tracePrintFunc
  compiledExpr := h'.compiledExpr.trans h.compiledExpr
  defaultCallback := h'.defaultCallback.trans h.defaultCallback

/-- A registration: the list, the key and nothing else. -/
theorem register_spec (callback : TraceCallbackType) (ext : ExtTracePointState κ) :
    (ext.register F callback).callbacks = subscribe callback ext.callbacks ∧
      InStep F (ext.register F callback) ∧ Same ext (ext.register F callback) := by
  have hlist : (if ext.callbacks.any (· = callback) then ext
      else { ext with callbacks := ext.callbacks ++ [callback] }) =
        { ext with callbacks := subscribe callback ext.callbacks } := by
    unfold subscribe
    by_cases hmem : callback ∈ ext.callbacks
    · rw [if_pos (by simpa using hmem), if_pos hmem]
    · rw [if_neg (by simpa using hmem), if_neg hmem]
  have hne := subscribe_ne_nil callback ext.callbacks
  have hsome : ¬ (subscribe callback ext.callbacks).isEmpty = true := by simpa using hne
  unfold ExtTracePointState.register
  rw [hlist]
  dsimp only
  rw [if_neg hsome]
  exact ⟨rfl, iff_of_true (F.isEnabled_enable _) hne, ⟨rfl, rfl, rfl, rfl, rfl, rfl, rfl, rfl, rfl⟩⟩

theorem unregister_spec (callback : TraceCallbackType) {ext : ExtTracePointState κ}
    (h : InStep F ext) :
    (ext.unregister F callback).callbacks = unsubscribe callback ext.callbacks ∧
      InStep F (ext.unregister F callback) ∧ Same ext (ext.unregister F callback) := by
  unfold ExtTracePointState.unregister
  dsimp only
  split
  · rename_i hempty
    have hnil : unsubscribe callback ext.callbacks = [] := List.isEmpty_iff.mp hempty
    refine ⟨rfl, iff_of_false ?_ (fun hne => hne hnil), ⟨rfl, rfl, rfl, rfl, rfl, rfl, rfl, rfl, rfl⟩⟩
    exact fun hon => absurd (hon.symm.trans (F.isEnabled_disable _)) (by decide)
  · rename_i hsome
    have hne : unsubscribe callback ext.callbacks ≠ [] := by simpa [unsubscribe] using hsome
    have hold : ext.callbacks ≠ [] := by
      intro hnil
      rw [unsubscribe, hnil] at hne
      exact hne rfl
    exact ⟨rfl, iff_of_true (h.mpr hold) hne, ⟨rfl, rfl, rfl, rfl, rfl, rfl, rfl, rfl, rfl⟩⟩

/-- What a call does to the list of a tracepoint. -/
def Op.listed (defaultCallback : ArcPtr) (l : List TraceCallbackType) (op : Op) :
    List TraceCallbackType :=
  match op.adds defaultCallback, op.removes defaultCallback with
  | some callback, _ => subscribe callback l
  | none, some callback => unsubscribe callback l
  | none, none => l

/-- One call on a tracepoint whose key is in step. -/
theorem step_spec {ext : ExtTracePointState κ} (h : InStep F ext) (op : Op) :
    (step F ext op).callbacks = op.listed ext.defaultCallback ext.callbacks ∧
      InStep F (step F ext op) ∧ Same ext (step F ext op) := by
  cases op with
  | register callback => exact register_spec callback ext
  | unregister callback => exact unregister_spec callback h
  | enableFile enable =>
    unfold step TracePointEnableFile.write Op.listed Op.adds Op.removes
    dsimp only
    by_cases hone : enable = '1'
    · rw [if_pos hone, if_pos hone]
      exact register_spec (.default ext.defaultCallback) ext
    · rw [if_neg hone, if_neg hone]
      by_cases hzero : enable = '0'
      · rw [if_pos hzero, if_pos hzero]
        exact unregister_spec (.default ext.defaultCallback) h
      · rw [if_neg hzero, if_neg hzero]
        exact ⟨rfl, h, .refl ext⟩

/-- What a call adds it does not take away. -/
theorem removes_of_adds {defaultCallback : ArcPtr} {op : Op} {c : TraceCallbackType}
    (h : op.adds defaultCallback = some c) : op.removes defaultCallback = none := by
  cases op with
  | register callback => rfl
  | unregister callback => cases h
  | enableFile enable =>
    unfold Op.adds at h
    dsimp only at h
    split at h
    · rename_i hone
      rw [hone]
      rfl
    · cases h

/-- A callback is listed after a call if the call adds it, or it was listed and is not taken away. -/
theorem mem_listed {defaultCallback : ArcPtr} {l : List TraceCallbackType} {op : Op}
    {c : TraceCallbackType} : c ∈ op.listed defaultCallback l ↔
      op.adds defaultCallback = some c ∨ (c ∈ l ∧ op.removes defaultCallback ≠ some c) := by
  unfold Op.listed
  rcases hadds : op.adds defaultCallback with _ | added
  · rcases hremoves : op.removes defaultCallback with _ | removed
    · simp
    · dsimp only
      rw [mem_unsubscribe]
      simp [eq_comm]
  · dsimp only
    rw [mem_subscribe, removes_of_adds hadds]
    simp [eq_comm]

theorem nodup_listed {defaultCallback : ArcPtr} {l : List TraceCallbackType} (op : Op)
    (h : l.Nodup) : (op.listed defaultCallback l).Nodup := by
  unfold Op.listed
  split
  · exact nodup_subscribe h
  · exact nodup_unsubscribe h
  · exact h

/-- What a tracepoint is like after calls on it, the oldest first. -/
structure Subscribed (F : RawStaticFalseKey κ) (start : ExtTracePointState κ) (log : List Op)
    (ext : ExtTracePointState κ) : Prop where
  listed : ∀ c, c ∈ ext.callbacks ↔ Since (fun op => op.adds start.defaultCallback = some c)
    (fun op => op.removes start.defaultCallback = some c) log
  once : ext.callbacks.Nodup
  shown : TracePointEnableFile.read F ext.tracepoint =
    if ext.callbacks = [] then "0\n".toList else "1\n".toList
  in_step : InStep F ext
  same : Same start ext

theorem read_of_inStep {ext : ExtTracePointState κ} (h : InStep F ext) :
    TracePointEnableFile.read F ext.tracepoint =
      if ext.callbacks = [] then "0\n".toList else "1\n".toList := by
  unfold TracePointEnableFile.read
  by_cases hnil : ext.callbacks = []
  · rw [if_pos hnil, if_neg (fun hon => h.mp hon hnil)]
  · rw [if_neg hnil, if_pos (h.mpr hnil)]

/-- After any registrations, removals and writes to the enable file, in any order: the callbacks of
a new tracepoint are those added and not taken away since, each once, the enable file shows whether
there is one, and nothing else of the tracepoint has changed. -/
theorem subscribed (F : RawStaticFalseKey κ) (tracepoint : StaticTracePoint κ)
    (defaultCallback : ArcPtr) (hoff : tracepoint.keyIsEnabled F = false) (log : List Op) :
    Subscribed F (.new tracepoint defaultCallback) log
      (log.foldl (step F) (.new tracepoint defaultCallback)) := by
  induction log using List.reverseRecOn with
  | nil =>
    have hstep : InStep F (ExtTracePointState.new tracepoint defaultCallback) :=
      iff_of_false (fun hon => by cases hon.symm.trans hoff) (fun hne => hne rfl)
    exact ⟨fun c => iff_of_false List.not_mem_nil Past.not_since_nil, List.nodup_nil,
      read_of_inStep hstep, hstep, .refl _⟩
  | append_singleton log op ih =>
    rw [List.foldl_concat]
    obtain ⟨hlist, hstep, hsame⟩ := step_spec ih.in_step op
    have hdefault := ih.same.defaultCallback
    rw [hdefault] at hlist
    refine ⟨?_, ?_, read_of_inStep hstep, hstep, ih.same.trans hsame⟩
    · intro c
      rw [hlist, mem_listed, Past.since_concat, ih.listed c]
    · rw [hlist]
      exact nodup_listed op ih.once

def offPoint : ExtTracePointState Bool := .new (.new false [] [] (fun _ => []) [] ⟨[]⟩) 0

/-- Switched on twice, subscribed to by two, then switched off and left by one of them. -/
def onAndOff : List Op :=
  [.enableFile '1', .register (.event 7), .enableFile '1', .register (.rawEvent 7), .enableFile '0',
    .unregister (.event 7)]

theorem subscribed_on_and_off :
    (onAndOff.foldl (step Ddebug.flagKey) offPoint).callbacks = [.rawEvent 7] ∧
    Subscribed Ddebug.flagKey offPoint onAndOff (onAndOff.foldl (step Ddebug.flagKey) offPoint) :=
  ⟨rfl, subscribed Ddebug.flagKey (.new false [] [] (fun _ => []) [] ⟨[]⟩) 0 rfl onAndOff⟩

end Callbacks

end ExtKtrace.Ktracepoint
