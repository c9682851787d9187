import ExtKtrace.Ktracepoint.Tracer

/-!
# The code is a tracer

Each tracepoint is found under its id, its key tells whether somebody listens, and the bytes in the
pipe are those of the events. With this kept by every step, a host gets the answers of the tracer.
-/

namespace ExtKtrace.Ktracepoint
set_option autoImplicit false

open Ddebug (RawStaticFalseKey)
open TpLexer (Target Compiled Message Expr compileWithSchema byte)
open Utf8 (Str encode fit)

variable {t : Target} {κ : Type} {crate : ResizableCrate UInt32 Str}

/-- What a callback does, by the memory behind its handle. -/
def actionAt (d : EventDecl t) (heap : List TraceDefaultFunc) : TraceCallbackType → Option Action
  | .default func => heap[func]?.map fun f => Tracer.actionOf d f.func f.data
  | .event func => some (.event func)
  | .rawEvent func => some (.rawEvent func)

/-- The compiled filter is the expression, and it went through the compiler. -/
structure Compiles (d : EventDecl t) (compiled : Option Compiled) (filter : Option Expr) : Prop where
  expr : compiled.map Compiled.expr = filter
  accepted : ∀ c, compiled = some c → ∃ input, compileWithSchema input d.schema = some (.ok c)

/-- A runtime state, against who listens. -/
structure Listens (F : RawStaticFalseKey κ) (d : EventDecl t) (heap : List TraceDefaultFunc)
    (place : Nat) (ext : ExtTracePointState κ) (l : Listeners) : Prop where
  id : ext.tracepoint.id = .ofNat place
  flags : ext.tracepoint.flags = 0
  schema : ext.tracepoint.schema = d.schema
  default_callback : ext.defaultCallback = place
  in_step : Callbacks.InStep F ext
  handles : ext.callbacks = l.subscribers.map Subscriber.handle
  actions : ∀ sub ∈ l.subscribers, actionAt d heap sub.handle = some sub.action
  filter : Compiles d ext.compiledExpr l.filter

/-- The map finds the tracepoint of each declaration under its place. -/
def Mapped (decls : List (EventDecl t)) (tracepointMap : TracePointMap κ) : Prop :=
  ∀ place : Fin decls.length, ∃ tp, tracepointMap.lookup (.ofNat place) = some tp ∧
    tp.name = (decls.get place).name ∧ tp.traceEntryFmtFunc = (decls.get place).traceFmt

/-- What the state of a host is for. -/
structure Shows (c : Tracing.Config t κ) (cap : NonZeroUsize) (s : Tracing κ crate)
    (tr : Tracer c.decls.length) : Prop where
  length : s.points.length = c.decls.length
  points : ∀ place : Fin c.decls.length, ∃ ext, s.points[place.val]? = some ext ∧
    Listens c.key (c.decls.get place) s.heap place ext (tr.listeners place)
  pipes : ∀ place : Fin c.decls.length,
    s.heap[place.val]? = some ⟨(c.decls.get place).traceDefault, 0⟩
  next : s.heap.length = tr.next
  enabled : s.perfEnable = tr.enabled
  pipe : RawPipe.Shows s.pipe
    { maxRecord := tr.maxRecord, window := tr.window.map (Event.record c.decls.get) }
  names : CmdLineRecency.Inv cap tr.names s.cmdline

section Point
variable {F : RawStaticFalseKey κ} {d : EventDecl t} {heap : List TraceDefaultFunc} {place : Nat}
  {ext : ExtTracePointState κ} {l : Listeners}

theorem handles_add (sub : Subscriber) (l : Listeners) :
    Callbacks.subscribe sub.handle (l.subscribers.map Subscriber.handle) =
      (l.add sub).subscribers.map Subscriber.handle := by
  unfold Callbacks.subscribe Listeners.add
  by_cases h : ∃ other ∈ l.subscribers, other.handle = sub.handle
  · rw [if_pos (List.mem_map.mpr h), if_pos h]
  · rw [if_neg (fun hmem => h (List.mem_map.mp hmem)), if_neg h, List.map_append,
      List.map_singleton]

theorem handles_remove (callback : TraceCallbackType) (l : Listeners) :
    Callbacks.unsubscribe callback (l.subscribers.map Subscriber.handle) =
      (l.remove callback).subscribers.map Subscriber.handle := by
  rw [Callbacks.unsubscribe, Listeners.remove, List.filter_map]
  rfl

theorem mem_add {sub other : Subscriber} {l : Listeners} (h : other ∈ (l.add sub).subscribers) :
    other ∈ l.subscribers ∨ other = sub := by
  unfold Listeners.add at h
  split at h
  · exact .inl h
  · rcases List.mem_append.mp h with h | h
    · exact .inl h
    · exact .inr (List.mem_singleton.mp h)

theorem filter_add (sub : Subscriber) (l : Listeners) : (l.add sub).filter = l.filter := by
  unfold Listeners.add
  split <;> rfl

/-- A call that only changes the list and the key. -/
theorem Listens.of_same {ext' : ExtTracePointState κ} {l' : Listeners}
    (h : Listens F d heap place ext l) (hsame : Callbacks.Same ext ext')
    (hstep : Callbacks.InStep F ext') (hfilter : l'.filter = l.filter)
    (hhandles : ext'.callbacks = l'.subscribers.map Subscriber.handle)
    (hactions : ∀ sub ∈ l'.subscribers, actionAt d heap sub.handle = some sub.action) :
    Listens F d heap place ext' l' where
  id := hsame.id.trans h.id
  flags := hsame.flags.trans h.flags
  schema := (congrArg TracePoint.schema hsame.toTracePoint).trans h.schema
  default_callback := hsame.defaultCallback.trans h.default_callback
  in_step := hstep
  handles := hhandles
  actions := hactions
  filter := by rw [hsame.compiledExpr, hfilter]; exact h.filter

theorem Listens.register (h : Listens F d heap place ext l) (sub : Subscriber)
    (hsub : actionAt d heap sub.handle = some sub.action) :
    Listens F d heap place (ext.register F sub.handle) (l.add sub) := by
  obtain ⟨hlist, hstep, hsame⟩ := @Callbacks.register_spec κ F sub.handle ext
  refine h.of_same hsame hstep (filter_add sub l) ?_ ?_
  · rw [hlist, h.handles, handles_add]
  · intro other hother
    rcases mem_add hother with hold | rfl
    · exact h.actions other hold
    · exact hsub

theorem Listens.unregister (h : Listens F d heap place ext l) (callback : TraceCallbackType) :
    Listens F d heap place (ext.unregister F callback) (l.remove callback) := by
  obtain ⟨hlist, hstep, hsame⟩ := Callbacks.unregister_spec callback h.in_step
  refine h.of_same hsame hstep rfl ?_ ?_
  · rw [hlist, h.handles, handles_remove]
  · exact fun other hother => h.actions other (List.mem_of_mem_filter hother)

theorem Listens.switch (h : Listens F d heap place ext l)
    (hpipe : heap[place]? = some ⟨d.traceDefault, 0⟩) (enable : Char) :
    Listens F d heap place (TracePointEnableFile.write F enable ext)
      (l.switch (.default place) enable) := by
  unfold TracePointEnableFile.write Listeners.switch
  rw [h.default_callback]
  split
  · refine h.register ⟨.default place, .pipe⟩ ?_
    rw [actionAt, hpipe, Option.map_some, Tracer.actionOf, if_pos rfl]
  split
  · exact h.unregister (.default place)
  · exact h

theorem Listens.setFilter (h : Listens F d heap place ext l) {compiled : Option Compiled}
    {filter : Option Expr} (hfilter : Compiles d compiled filter) :
    Listens F d heap place { ext with compiledExpr := compiled } { l with filter := filter } where
  id := h.id
  flags := h.flags
  schema := h.schema
  default_callback := h.default_callback
  in_step := h.in_step
  handles := h.handles
  actions := h.actions
  filter := hfilter

/-- Handles keep what is behind them when there are more. -/
theorem actionAt_append (more : List TraceDefaultFunc) {callback : TraceCallbackType}
    {action : Action} (h : actionAt d heap callback = some action) :
    actionAt d (heap ++ more) callback = some action := by
  cases callback with
  | default func =>
    obtain ⟨f, hf, haction⟩ := Option.map_eq_some_iff.mp h
    have hlt : func < heap.length := (List.getElem?_eq_some_iff.mp hf).1
    rw [actionAt, List.getElem?_append_left hlt, hf, Option.map_some, haction]
  | event func => exact h
  | rawEvent func => exact h

theorem Listens.more (h : Listens F d heap place ext l) (more : List TraceDefaultFunc) :
    Listens F d (heap ++ more) place ext l where
  id := h.id
  flags := h.flags
  schema := h.schema
  default_callback := h.default_callback
  in_step := h.in_step
  handles := h.handles
  actions := fun sub hsub => actionAt_append more (h.actions sub hsub)
  filter := h.filter

end Point

section Registry
variable {c : Tracing.Config t κ} {cap : NonZeroUsize} {s : Tracing κ crate}
  {tr : Tracer c.decls.length}

theorem ofNat_inj {i j : Nat} (hi : i < 2 ^ 32) (hj : j < 2 ^ 32)
    (h : UInt32.ofNat i = UInt32.ofNat j) : i = j := by
  have hnat := congrArg UInt32.toNat h
  rwa [UInt32.toNat_ofNat_of_lt' hi, UInt32.toNat_ofNat_of_lt' hj] at hnat

/-- The id of the state at a place is the place. -/
theorem Shows.id_at (h : Shows c cap s tr) {i : Nat} {ext : ExtTracePointState κ}
    (hi : s.points[i]? = some ext) : ext.tracepoint.id = .ofNat i ∧ i < c.decls.length := by
  have hlt : i < c.decls.length := h.length ▸ (List.getElem?_eq_some_iff.mp hi).1
  obtain ⟨ext', hext', hlistens⟩ := h.points ⟨i, hlt⟩
  cases hi.symm.trans hext'
  exact ⟨hlistens.id, hlt⟩

theorem Shows.findIdx (h : Shows c cap s tr) (hroom : c.decls.length ≤ 2 ^ 16)
    (place : Fin c.decls.length) :
    s.points.findIdx? (fun ext => ext.tracepoint.id = .ofNat place) = some place.val := by
  obtain ⟨ext, hext, hlistens⟩ := h.points place
  obtain ⟨hlt, hget⟩ := List.getElem?_eq_some_iff.mp hext
  rw [List.findIdx?_eq_some_iff_getElem]
  refine ⟨hlt, by rw [hget, hlistens.id]; exact decide_eq_true rfl, ?_⟩
  intro j hj
  obtain ⟨hid, hjlt⟩ := h.id_at (List.getElem?_eq_getElem (Nat.lt_trans hj hlt))
  have hplace := place.isLt
  rw [hid, decide_eq_true_eq]
  exact fun heq => absurd (ofNat_inj (by omega) (by omega) heq) (by omega)

/-- The state of a tracepoint is found. -/
theorem Shows.stateOf (h : Shows c cap s tr) (hroom : c.decls.length ≤ 2 ^ 16)
    (place : Fin c.decls.length) : s.stateOf (.ofNat place) = s.points[place.val]? := by
  obtain ⟨hlt, hid, -⟩ := List.findIdx?_eq_some_iff_getElem.mp (h.findIdx hroom place)
  rw [Tracing.stateOf, List.find?_eq_bind_findIdx?_getElem?, h.findIdx hroom place]
  rfl

/-- A call on the state of a tracepoint is a call on what is at its place. -/
theorem Shows.callState {α : Type} (h : Shows c cap s tr) (hroom : c.decls.length ≤ 2 ^ 16)
    (place : Fin c.decls.length) {ext : ExtTracePointState κ}
    (hext : s.points[place.val]? = some ext)
    (f : ExtTracePointState κ → Option (α × ExtTracePointState κ)) :
    s.callState place f =
      (f ext).map fun r => (r.1, { s with points := s.points.set place r.2 }) := by
  unfold Tracing.callState Tracing.writeState
  rw [hext]
  simp only [Option.bind_eq_bind, Option.bind_some]
  rw [(h.id_at hext).1, h.findIdx hroom place, Option.bind_some, hext, Option.bind_some]
  cases f ext <;> rfl

/-- What is at one place changes, and what is listened to there. -/
theorem Shows.modify (h : Shows c cap s tr) (place : Fin c.decls.length)
    {ext' : ExtTracePointState κ} {f : Listeners → Listeners}
    (hlistens : Listens c.key (c.decls.get place) s.heap place ext' (f (tr.listeners place))) :
    Shows c cap { s with points := s.points.set place ext' } (tr.modify place f) where
  length := (List.length_set ..).trans h.length
  points := by
    intro other
    by_cases heq : other = place
    · subst heq
      refine ⟨ext', ?_, ?_⟩
      · have hlt : other.val < s.points.length := by
          rw [h.length]
          exact other.isLt
        exact List.getElem?_set_self hlt
      · rw [Tracer.listeners_modify_self]
        exact hlistens
    · obtain ⟨ext, hext, hother⟩ := h.points other
      refine ⟨ext, ?_, ?_⟩
      · rw [List.getElem?_set_ne fun hval => heq (Fin.ext hval.symm)]
        exact hext
      · rw [Tracer.listeners_modify_of_ne heq]
        exact hother
  pipes := h.pipes
  next := h.next
  enabled := h.enabled
  pipe := h.pipe
  names := h.names

/-- A call that always comes back. -/
theorem Shows.callState_some {α : Type} (h : Shows c cap s tr) (hroom : c.decls.length ≤ 2 ^ 16)
    (place : Fin c.decls.length) {a : α} {g : ExtTracePointState κ → ExtTracePointState κ}
    {f : Listeners → Listeners}
    (hkeep : ∀ ext, Listens c.key (c.decls.get place) s.heap place ext (tr.listeners place) →
      Listens c.key (c.decls.get place) s.heap place (g ext) (f (tr.listeners place))) :
    ∃ s', s.callState place (fun ext => some (a, g ext)) = some (a, s') ∧
      Shows c cap s' (tr.modify place f) := by
  obtain ⟨ext, hext, hlistens⟩ := h.points place
  exact ⟨_, h.callState hroom place hext _, h.modify place (hkeep ext hlistens)⟩

/-- More callbacks are behind handles that were not there. -/
theorem Shows.more (h : Shows c cap s tr) (f : TraceDefaultFunc) :
    Shows c cap { s with heap := s.heap ++ [f] } { tr with next := tr.next + 1 } where
  length := h.length
  points := by
    intro place
    obtain ⟨ext, hext, hlistens⟩ := h.points place
    exact ⟨ext, hext, hlistens.more [f]⟩
  pipes := by
    intro place
    have hlt := (List.getElem?_eq_some_iff.mp (h.pipes place)).1
    exact (List.getElem?_append_left hlt).trans (h.pipes place)
  next := by rw [List.length_append, List.length_singleton, h.next]
  enabled := h.enabled
  pipe := h.pipe
  names := h.names

theorem Shows.registerTrace (h : Shows c cap s tr) (hroom : c.decls.length ≤ 2 ^ 16)
    (place : Fin c.decls.length) (func : FnPtr) (data : Nat) :
    ∃ s', s.registerTrace c.key place func data = some (.default tr.next, s') ∧
      Shows c cap s' { tr.modify place (.add ⟨.default tr.next,
        Tracer.actionOf (c.decls.get place) func data⟩) with next := tr.next + 1 } := by
  have hmore := h.more { func := func, data := data }
  obtain ⟨ext, hext, hlistens⟩ := hmore.points place
  have hcall := hmore.callState hroom place hext
    fun ext => some ((), ext.register c.key (.default s.heap.length))
  have haction : actionAt (c.decls.get place) (s.heap ++ [{ func := func, data := data }])
      (.default tr.next) = some (Tracer.actionOf (c.decls.get place) func data) := by
    rw [actionAt, ← h.next, List.getElem?_concat_length]
    rfl
  refine ⟨_, ?_, hmore.modify place (hlistens.register _ haction)⟩
  unfold Tracing.callState at hcall
  unfold Tracing.registerTrace
  rw [hext] at hcall
  rw [show s.points[place.val]? = some ext from hext]
  simp only [Option.bind_eq_bind, Option.bind_some] at hcall ⊢
  rw [hcall, h.next]
  rfl

end Registry

section Filter
variable {c : Tracing.Config t κ} {cap : NonZeroUsize} {s : Tracing κ crate}
  {tr : Tracer c.decls.length}

/-- The first byte is a zero when the first character is. -/
theorem first_byte {filter : Str} (h : filter ≠ []) : ∃ first, (encode filter)[0]? = some first ∧
    (first = byte '0' ↔ filter.head? = some '0') := by
  obtain ⟨ch, rest, rfl⟩ := List.exists_cons_of_ne_nil h
  obtain ⟨b, bs, hbytes, hb⟩ := Ddebug.utf8EncodeChar_head ch
  refine ⟨b, by rw [Utf8.encode_cons, hbytes]; rfl, ?_⟩
  rw [List.head?_cons, Option.some_inj, ← UInt8.toNat_inj, ← Char.toNat_inj]
  have hbyte : (byte '0').toNat = 48 := rfl
  have hchar : '0'.toNat = 48 := rfl
  omega

theorem Shows.setFilter (h : Shows c cap s tr) {place : Fin c.decls.length}
    {ext : ExtTracePointState κ}
    (hlistens : Listens c.key (c.decls.get place) s.heap place ext (tr.listeners place))
    {compiled : Option Compiled} {filter : Option Expr}
    (hfilter : Compiles (c.decls.get place) compiled filter) :
    Shows c cap { s with points := s.points.set place { ext with compiledExpr := compiled } }
      (tr.modify place fun l => { l with filter := filter }) :=
  @Shows.modify t κ crate c cap s tr h place _ (fun l => { l with filter := filter })
    (hlistens.setFilter hfilter)

theorem compiles_none (d : EventDecl t) : Compiles d none none where
  expr := rfl
  accepted := by simp

theorem Shows.filter (h : Shows c cap s tr) (hroom : c.decls.length ≤ 2 ^ 16)
    (place : Fin c.decls.length) {filter : Str} (hne : filter ≠ []) :
    ∃ s', s.callState place (Tracing.writeFilter c.format filter) =
        some ((tr.setFilter c.decls.get place filter).1, s') ∧
      Shows c cap s' (tr.setFilter c.decls.get place filter).2 := by
  obtain ⟨ext, hext, hlistens⟩ := h.points place
  obtain ⟨first, hget, hfirst⟩ := first_byte hne
  have hschema : ext.toExt.schema = (c.decls.get place).schema := hlistens.schema
  rw [h.callState hroom place hext]
  unfold Tracing.writeFilter TraceFilterFile.step Tracer.setFilter
  by_cases hzero : first = byte '0'
  · rw [if_pos (hfirst.mp hzero), TraceFilterFile.exec_write_zero (hzero ▸ hget)]
    exact ⟨_, rfl, h.setFilter hlistens (compiles_none _)⟩
  · rw [if_neg fun hhead => hzero (hfirst.mpr hhead)]
    obtain ⟨r, hcompile⟩ := TpLexer.Accepted.compileWithSchema_returns ⟨filter, rfl⟩
      (c.decls.get place).schema
    rw [TraceFilterFile.exec_write_filter hget hzero (hschema ▸ hcompile), hcompile]
    cases r with
    | ok compiled =>
      refine ⟨_, rfl, h.setFilter hlistens ⟨rfl, ?_⟩⟩
      rintro _ ⟨⟩
      exact ⟨_, hcompile⟩
    | error e => exact ⟨_, rfl, h.setFilter hlistens (compiles_none _)⟩

end Filter

section Hit
variable {c : Tracing.Config t κ} {cap : NonZeroUsize} {s : Tracing κ crate}
  {tr : Tracer c.decls.length} {e : Event c.decls.length} {heap : List TraceDefaultFunc}
  {ext : ExtTracePointState κ} {l : Listeners}

theorem Listens.eventBuf
    (h : Listens c.key (c.decls.get e.place) heap e.place ext l) :
    (c.decls.get e.place).eventBuf ext.tracepoint e.caller e.args = e.bytes c.decls.get := by
  rw [EventDecl.eventBuf, h.id, h.flags]
  rfl

/-- The compiled filter lets the bytes of an event through when the filter lets the event through. -/
theorem Listens.passes
    (h : Listens c.key (c.decls.get e.place) heap e.place ext l) :
    EventDecl.passesFilter t ext.compiledExpr ext.tracepoint.schema (e.bytes c.decls.get) =
      some (e.passes c.decls.get l.filter) := by
  have hexpr := h.filter.expr
  cases hcompiled : ext.compiledExpr with
  | none =>
    rw [hcompiled] at hexpr
    rw [← hexpr]
    rfl
  | some compiled =>
    rw [hcompiled, Option.map_some] at hexpr
    obtain ⟨input, hinput⟩ := h.filter.accepted compiled hcompiled
    have hvalue := e.evaluate_bytes c.decls.get hinput
    rw [EventDecl.passesFilter, h.schema, ← hexpr, hvalue]
    rfl

variable (contract : crate.KeepsContract)
include contract

/-- An event goes into the pipe and the name of its process into the cache. -/
theorem Shows.put (h : Shows c cap s tr) (hname : e.caller.Cuttable) :
    ∃ cmdline, s.cmdline.insert e.caller.pid e.caller.comm = some cmdline ∧
      Shows c cap { s with
          cmdline := cmdline
          pipe := s.pipe.pushRecord e.caller.timestamp e.caller.cpuId (e.bytes c.decls.get) }
        { tr with
          names := .insert e.caller.pid e.caller.comm :: tr.names
          window := tr.window.put tr.maxRecord e } := by
  have hinsert : s.cmdline.insert e.caller.pid e.caller.comm =
      some ⟨crate.put e.caller.pid (formatLine e.caller.pid (fit 16 e.caller.comm))
        s.cmdline.cmdline⟩ := by
    rw [CmdLineRecency.insert_eq]
    exact if_pos hname
  have hpush := h.pipe.pushRecord (e.record c.decls.get)
  rw [← Window.map_put] at hpush
  exact ⟨_, hinsert, h.length, h.points, h.pipes, h.next, h.enabled, hpush,
    h.names.insert contract e.caller.pid e.caller.comm⟩

/-- A callback does what its subscriber wants. -/
theorem Shows.deliver (h : Shows c cap s tr) (hname : e.caller.Cuttable)
    (hlistens : Listens c.key (c.decls.get e.place) s.heap e.place ext l)
    (hfilter : (tr.listeners e.place).filter = l.filter) {sub : Subscriber}
    (haction : actionAt (c.decls.get e.place) s.heap sub.handle = some sub.action) :
    ∃ s', (c.decls.get e.place).runCallback ext.tracepoint ext e.caller e.args s sub.handle =
        some ((tr.deliver c.decls.get e sub).1, s') ∧
      Shows c cap s' (tr.deliver c.decls.get e sub).2 ∧ s'.heap = s.heap ∧
      (tr.deliver c.decls.get e sub).2.listeners = tr.listeners := by
  obtain ⟨handle, action⟩ := sub
  cases handle with
  | default func =>
    obtain ⟨f, hf, hact⟩ := Option.map_eq_some_iff.mp haction
    dsimp only at hact
    subst hact
    unfold EventDecl.runCallback
    dsimp only
    rw [hf, Option.bind_eq_bind, Option.bind_some]
    unfold Tracer.actionOf
    by_cases hdefault : f.func = (c.decls.get e.place).traceDefault
    · rw [if_pos hdefault, if_pos hdefault]
      unfold EventDecl.runTraceDefault Tracer.deliver
      dsimp only
      rw [hlistens.eventBuf, hlistens.passes, hfilter]
      by_cases hpass : e.passes c.decls.get l.filter = true
      · obtain ⟨cmdline, hinsert, hshows⟩ := h.put contract hname
        rw [hpass, hinsert]
        exact ⟨_, rfl, hshows, rfl, rfl⟩
      · rw [Bool.not_eq_true] at hpass
        rw [hpass]
        exact ⟨s, rfl, h, rfl, rfl⟩
    · rw [if_neg hdefault, if_neg hdefault]
      exact ⟨s, rfl, h, rfl, rfl⟩
  | event func =>
    cases haction
    unfold EventDecl.runCallback Tracer.deliver
    dsimp only
    rw [h.enabled, hlistens.eventBuf]
    split
    · exact ⟨s, rfl, h, rfl, rfl⟩
    · exact ⟨s, rfl, h, rfl, rfl⟩
  | rawEvent func =>
    cases haction
    exact ⟨s, rfl, h, rfl, rfl⟩

/-- The loop over the callbacks. -/
theorem Shows.run_callbacks (h : Shows c cap s tr) (hname : e.caller.Cuttable)
    (hlistens : Listens c.key (c.decls.get e.place) s.heap e.place ext l)
    (hfilter : (tr.listeners e.place).filter = l.filter) {subs : List Subscriber}
    (hactions : ∀ sub ∈ subs, actionAt (c.decls.get e.place) s.heap sub.handle = some sub.action) :
    ∃ s', Machine.run ((c.decls.get e.place).runCallback ext.tracepoint ext e.caller e.args) s
        (subs.map Subscriber.handle) =
          some ((Machine.specRun (Tracer.deliver c.decls.get e) tr subs).1, s') ∧
      Shows c cap s' (Machine.specRun (Tracer.deliver c.decls.get e) tr subs).2 := by
  induction subs generalizing s tr with
  | nil => exact ⟨s, rfl, h⟩
  | cons sub subs ih =>
    obtain ⟨s₁, hrun, h₁, hheap, hsame⟩ :=
      h.deliver contract hname hlistens hfilter (hactions sub List.mem_cons_self)
    obtain ⟨s', hrest, h'⟩ := ih h₁ (by rw [hheap]; exact hlistens) (by rw [hsame, hfilter])
      (fun other hother => by rw [hheap]; exact hactions other (List.mem_cons_of_mem _ hother))
    refine ⟨s', ?_, h'⟩
    rw [List.map_cons, Machine.run, hrun]
    dsimp only
    rw [hrest]
    rfl

theorem Shows.trace (h : Shows c cap s tr) (hroom : c.decls.length ≤ 2 ^ 16)
    (hname : e.caller.Cuttable) :
    ∃ s', s.trace c.key (c.decls.get e.place) e.place e.caller e.args =
        some ((tr.hit c.decls.get e).1, s') ∧
      Shows c cap s' (tr.hit c.decls.get e).2 := by
  obtain ⟨ext, hext, hlistens⟩ := h.points e.place
  have hstate := h.stateOf hroom e.place
  unfold Tracing.trace
  rw [hext] at hstate ⊢
  simp only [Option.bind_eq_bind, Option.bind_some]
  rw [hlistens.id, hstate, Option.bind_some]
  by_cases hon : ext.tracepoint.keyIsEnabled c.key = true
  · obtain ⟨s', hrun, h'⟩ := h.run_callbacks contract hname hlistens rfl hlistens.actions
    rw [if_pos hon, hlistens.handles, hrun]
    exact ⟨s', rfl, h'⟩
  · have hnone : (tr.listeners e.place).subscribers = [] := by
      have hnil : ext.callbacks = [] := not_not.mp fun hne => hon (hlistens.in_step.mpr hne)
      rw [hlistens.handles, List.map_eq_nil_iff] at hnil
      exact hnil
    rw [if_neg hon, Tracer.hit, hnone]
    exact ⟨s, rfl, h⟩

end Hit

section Lines
variable {c : Tracing.Config t κ} {cap : NonZeroUsize} {s : Tracing κ crate}
  {tr : Tracer c.decls.length}

theorem Shows.get (h : Shows c cap s tr) (pid : UInt32) :
    s.cmdline.get pid = some (Event.shownName cap tr.names pid) := by
  unfold Event.shownName
  split
  · rename_i hheld
    obtain ⟨name, hname, hget⟩ := h.names.get_held hheld
    rw [hget, hname]
    rfl
  · rename_i hnot
    exact h.names.get_forgotten hnot

/-- The record keeps the low half of the id, which is all of it. -/
theorem commonType_toUInt32 {place : Nat} (h : place < 2 ^ 16) :
    (UInt32.ofNat place).toUInt16.toUInt32 = .ofNat place := by
  have hlt : place < UInt32.size := Nat.lt_of_lt_of_le h (by decide)
  apply UInt32.toNat_inj.mp
  rw [UInt16.toNat_toUInt32, UInt32.toNat_toUInt16, UInt32.toNat_ofNat_of_lt' hlt,
    Nat.mod_eq_of_lt h]

theorem Shows.parse (h : Shows c cap s tr) (hroom : c.decls.length ≤ 2 ^ 16)
    (halign : ∀ d ∈ c.decls, d.entryShape.align ∣ TraceEntry.shape.size)
    (hmapped : Mapped c.decls c.tracepointMap) (e : Event c.decls.length) :
    TraceEntryParser.parse t c.tracepointMap s.cmdline (e.record c.decls.get) =
      some (e.line c.decls.get cap tr.names) := by
  obtain ⟨tp, hlookup, hname, hfmt⟩ := hmapped e.place
  have hplace := e.place.isLt
  have hmap : c.tracepointMap.lookup e.common.commonType.toUInt32 = some tp := by
    rw [Event.common, commonEntry, commonType_toUInt32 (by omega), hlookup]
  have hget : s.cmdline.get e.common.commonPid.toUInt32 =
      some (Event.shownName cap tr.names e.caller.pid) := h.get _
  have hparse := TraceEntryParser.parse_event (halign _ (List.get_mem c.decls e.place)) hmap hfmt
    hget e.caller.pad e.caller.memory e.args e.caller.timestamp e.caller.cpuId
  rw [hname, Event.common, tracePrintLatFmt_commonEntry] at hparse
  exact hparse

theorem Shows.printTraceRecords (h : Shows c cap s tr) (hroom : c.decls.length ≤ 2 ^ 16)
    (halign : ∀ d ∈ c.decls, d.entryShape.align ∣ TraceEntry.shape.size)
    (hmapped : Mapped c.decls c.tracepointMap) :
    s.printTraceRecords t c.tracepointMap =
      some (tr.window.contents.map fun e => e.line c.decls.get cap tr.names) := by
  have hrecords : s.pipe.snapshot = tr.window.contents.map (Event.record c.decls.get) :=
    h.pipe.records.trans (Window.contents_map _ _)
  rw [Tracing.printTraceRecords, hrecords]
  induction tr.window.contents with
  | nil => rfl
  | cons e es ih =>
    rw [List.map_cons, List.mapM_cons, h.parse hroom halign hmapped e, ih]
    rfl

end Lines

section Steps
variable {c : Tracing.Config t κ} {cap : NonZeroUsize} (contract : crate.KeepsContract)
  (hroom : c.decls.length ≤ 2 ^ 16)
  (halign : ∀ d ∈ c.decls, d.entryShape.align ∣ TraceEntry.shape.size)
  (hmapped : Mapped c.decls c.tracepointMap)
include contract hroom halign hmapped

/-- One step of a host is answered as the tracer answers it. -/
theorem tracing_step_refines :
    Machine.RefinesOn Tracing.Op.Answerable (Shows c cap) (Tracing.step c : Tracing κ crate → _)
      (Tracer.step c.decls.get cap) := by
  intro s tr op hop h
  cases op with
  | trace place caller args =>
    obtain ⟨s', htrace, h'⟩ := h.trace (e := ⟨place, caller, args⟩) contract hroom hop
    exact ⟨s', by rw [Tracing.step, htrace]; rfl, h'⟩
  | registerTrace place func data =>
    obtain ⟨s', hregister, h'⟩ := h.registerTrace hroom place func data
    exact ⟨s', by rw [Tracing.step, hregister]; rfl, h'⟩
  | registerEvent place func =>
    exact h.callState_some hroom place fun ext hlistens =>
      hlistens.register ⟨.event func, .event func⟩ rfl
  | registerRawEvent place func =>
    exact h.callState_some hroom place fun ext hlistens =>
      hlistens.register ⟨.rawEvent func, .rawEvent func⟩ rfl
  | unregister place callback =>
    exact h.callState_some hroom place fun ext hlistens => hlistens.unregister callback
  | enableFile place enable =>
    obtain ⟨s', hcall, h'⟩ := @Shows.callState_some t κ crate c cap s tr Tracing.Answer h hroom
      place .done _ _ fun ext hlistens => hlistens.switch (h.pipes place) enable
    exact ⟨s', hcall, h'⟩
  | filter place filter =>
    obtain ⟨s', hfilter, h'⟩ := h.filter hroom place hop
    exact ⟨s', by rw [Tracing.step, hfilter]; rfl, h'⟩
  | setPerfEnable func enable =>
    exact ⟨_, rfl, h.length, h.points, h.pipes, h.next,
      congrArg (fun f => Function.update f func enable) h.enabled, h.pipe, h.names⟩
  | printTraceRecords =>
    exact ⟨s, by rw [Tracing.step, h.printTraceRecords hroom halign hmapped]; rfl, h⟩
  | pop =>
    obtain ⟨hrecord, hpipe⟩ := h.pipe.pop
    rw [Window.contents_map, List.head?_map] at hrecord
    rw [← Window.map_take] at hpipe
    have hshows : Shows c cap { s with pipe := s.pipe.pop.2 }
        { tr with window := tr.window.take } :=
      ⟨h.length, h.points, h.pipes, h.next, h.enabled, hpipe, h.names⟩
    exact ⟨_, by rw [Tracing.step, hrecord]; rfl, hshows⟩
  | clear =>
    have hpipe := h.pipe.clear
    rw [← Window.map_clear] at hpipe
    exact ⟨_, rfl, h.length, h.points, h.pipes, h.next, h.enabled, hpipe, h.names⟩
  | setMaxRecord maxRecord =>
    have hpipe := h.pipe.setMaxRecord maxRecord
    rw [← Window.map_keep] at hpipe
    exact ⟨_, rfl, h.length, h.points, h.pipes, h.next, h.enabled, hpipe, h.names⟩
  | setMaxCmdline maxLen =>
    exact ⟨_, rfl, h.length, h.points, h.pipes, h.next, h.enabled, h.pipe,
      h.names.setMaxRecord contract maxLen⟩

end Steps

section Start
variable (F : RawStaticFalseKey κ) (format : Message → Str) (linked : List (Tracing.Linked t κ))

theorem length_sorted : (Tracing.sorted linked).length = linked.length :=
  (StableSort.perm_sortBy _ linked).length_eq

theorem registered_initEvents (hroom : linked.length ≤ 2 ^ 16) :
    Events.Registered 0 [] ((Tracing.sorted linked).map Tracing.Linked.meta)
      (Tracing.initEvents linked) := by
  rw [Tracing.initEvents, globalInitEvents, Events.sortBy_map]
  exact Events.registered_foldl 0 [] _ (by rw [List.length_map, length_sorted]; omega)

variable {linked}

/-- The state of each declaration after initialisation. -/
theorem points_start (hroom : linked.length ≤ 2 ^ 16) {i : Nat} {l : Tracing.Linked t κ}
    (hl : (Tracing.sorted linked)[i]? = some l) :
    (Tracing.initEvents linked).extTps[i]? =
      some (.new ((l.decl.static l.key).setId (.ofNat i)) i) := by
  rw [(registered_initEvents linked hroom).states, List.getElem?_mapIdx, List.getElem?_map, hl]
  show some (Events.stateAt 0 0 i l.meta) = _
  rw [Events.stateAt, UInt32.zero_add, Nat.zero_add]
  rfl

theorem decls_get (place : Fin (Tracing.config F format linked).decls.length) :
    ∃ l, (Tracing.sorted linked)[place.val]? = some l ∧ l ∈ linked ∧
      (Tracing.config F format linked).decls.get place = l.decl := by
  have hlt : place.val < (Tracing.sorted linked).length := by
    have := place.isLt
    simpa [Tracing.config] using this
  refine ⟨(Tracing.sorted linked)[place.val], List.getElem?_eq_getElem hlt, ?_, ?_⟩
  · exact (StableSort.perm_sortBy _ linked).mem_iff.mp (List.getElem_mem hlt)
  · exact List.getElem_map _

theorem mapped_start (hroom : linked.length ≤ 2 ^ 16) :
    Mapped (Tracing.config F format linked).decls (Tracing.config F format linked).tracepointMap := by
  intro place
  obtain ⟨l, hl, -, hdecl⟩ := decls_get F format place
  refine ⟨(l.decl.static l.key).setId (.ofNat place), ?_, ?_, ?_⟩
  · exact ((registered_initEvents linked hroom).found _ _).mpr
      ⟨_, List.mem_of_getElem? (points_start hroom hl), rfl, rfl⟩
  · rw [hdecl]
    rfl
  · rw [hdecl]
    rfl

theorem shows_start (contract : crate.KeepsContract) (hroom : linked.length ≤ 2 ^ 16)
    (hoff : ∀ l ∈ linked, F.isEnabled l.key = false) (maxRecord : Nat) (cap : NonZeroUsize) :
    Shows (Tracing.config F format linked) cap (Tracing.start crate maxRecord cap linked)
      (.start _ maxRecord) := by
  have hregistered := registered_initEvents linked hroom
  have hlength : (Tracing.config F format linked).decls.length = (Tracing.sorted linked).length :=
    List.length_map _
  refine ⟨?_, ?_, ?_, ?_, rfl, RawPipe.Shows.new maxRecord, CmdLineRecency.Inv.new contract⟩
  · show (Tracing.initEvents linked).extTps.length = _
    rw [hregistered.states, List.length_mapIdx, List.length_map, hlength]
  · intro place
    obtain ⟨l, hl, hmem, hdecl⟩ := decls_get F format place
    refine ⟨_, points_start hroom hl, ?_⟩
    rw [hdecl]
    exact ⟨rfl, rfl, rfl, rfl,
      iff_of_false (fun hon => by cases hon.symm.trans (hoff l hmem)) (fun hne => hne rfl), rfl,
      fun sub hsub => absurd hsub List.not_mem_nil, compiles_none _⟩
  · intro place
    obtain ⟨l, hl, -, hdecl⟩ := decls_get F format place
    show (Tracing.initEvents linked).heap[place.val]? = _
    rw [hregistered.callbacks, List.nil_append, List.getElem?_map, List.getElem?_map, hl, hdecl]
    rfl
  · show (Tracing.initEvents linked).heap.length = _
    rw [hregistered.callbacks, List.nil_append, List.length_map, List.length_map, ← hlength]
    rfl

/-- Whatever a host does with the tracepoints of an image, in any order, nothing panics and it gets
the answers of the tracer: callbacks are called with what was assigned, in the order of their
registration, the pipe holds the newest events that passed the filter, and each is printed as it
occurred. The image has no more tracepoints than sixteen bits can tell apart, their keys are off in
the beginning, and no entry is aligned beyond the common fields; no filter text is empty, and process
names can be cut behind their sixteenth byte. -/
theorem tracing_refines_tracer (contract : crate.KeepsContract) (hroom : linked.length ≤ 2 ^ 16)
    (hoff : ∀ l ∈ linked, F.isEnabled l.key = false)
    (halign : ∀ l ∈ linked, l.decl.entryShape.align ∣ TraceEntry.shape.size) (maxRecord : Nat)
    (cap : NonZeroUsize) {ops : List (Tracing.Op (Tracing.config F format linked).decls.length)}
    (hops : ∀ op ∈ ops, op.Answerable) :
    ∃ s, Machine.run (Tracing.step (Tracing.config F format linked))
        (Tracing.start crate maxRecord cap linked) ops =
      some ((Machine.specRun (Tracer.step (Tracing.config F format linked).decls.get cap)
        (.start _ maxRecord) ops).1, s) := by
  have hlength : (Tracing.config F format linked).decls.length ≤ 2 ^ 16 := by
    rwa [Tracing.config, List.length_map, length_sorted]
  have hentries : ∀ d ∈ (Tracing.config F format linked).decls,
      d.entryShape.align ∣ TraceEntry.shape.size := by
    intro d hd
    obtain ⟨l, hl, rfl⟩ := List.mem_map.mp hd
    exact halign l ((StableSort.perm_sortBy _ linked).mem_iff.mp hl)
  obtain ⟨s, hrun, -⟩ := (tracing_step_refines contract hlength hentries
    (mapped_start F format hroom)).run hops
      (shows_start F format contract hroom hoff maxRecord cap)
  exact ⟨s, hrun⟩

end Start

/-- The image of the usage example, less its first tracepoint. -/
def usage : List (Tracing.Linked ⟨false, false, false⟩ Bool) := [⟨.test2 _, false⟩]

def testProcess : Caller where
  pid := 0xff
  comm := "test_process".toList
  timestamp := 0
  cpuId := 8
  memory _ := 0
  pad _ := 0

/-- Switched on with a filter and hit twice; the second event gets through. -/
def usageRun :
    List (Tracing.Op (Tracing.config Ddebug.flagKey (fun _ => []) usage).decls.length) :=
  [.enableFile ⟨0, by decide⟩ '1', .filter ⟨0, by decide⟩ "a > 3 && b == 9".toList,
    .trace ⟨0, by decide⟩ testProcess [.int 1, .int 2],
    .trace ⟨0, by decide⟩ testProcess [.int 7, .int 9], .printTraceRecords, .pop]

theorem tracing_refines_usage : ∃ s,
    Machine.run (Tracing.step (Tracing.config Ddebug.flagKey (fun _ => []) usage))
      (Tracing.start (CmdLineRecency.listCrate UInt32 Str) 1024 ⟨1024, by decide⟩ usage) usageRun =
    some ((Machine.specRun
      (Tracer.step (Tracing.config Ddebug.flagKey (fun _ => []) usage).decls.get ⟨1024, by decide⟩)
      (.start _ 1024) usageRun).1, s) :=
  tracing_refines_tracer Ddebug.flagKey (fun _ => []) (CmdLineRecency.listCrate_keepsContract _ _)
    (by decide) (by decide) (by decide) 1024 ⟨1024, by decide⟩ (by decide)

end ExtKtrace.Ktracepoint
