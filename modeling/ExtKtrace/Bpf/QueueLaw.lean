import ExtKtrace.Lib.Machine
import ExtKtrace.Bpf.Queue

/-!
# Queues and stacks as bounded lists

What a bounded queue and a bounded stack have to do, and which pushes the two maps get wrong.
Contents are listed from the oldest element to the newest.
-/

namespace ExtKtrace.Bpf.QueueLaw
set_option autoImplicit false

inductive Order where
  | fifo
  | lifo

namespace Order

/-- The element that comes out next. -/
def next : Order → List Bytes → Option Bytes
  | fifo, contents => contents.head?
  | lifo, contents => contents.getLast?

def dropNext : Order → List Bytes → List Bytes
  | fifo, contents => contents.tail
  | lifo, contents => contents.dropLast

theorem mem_of_next {order : Order} {contents : List Bytes} {v : Bytes}
    (h : order.next contents = some v) : v ∈ contents := by
  cases order with
  | fifo => exact List.mem_of_head? h
  | lifo => exact List.mem_of_getLast? h

theorem dropNext_sublist (order : Order) (contents : List Bytes) :
    (order.dropNext contents).Sublist contents := by
  cases order with
  | fifo => exact List.tail_sublist _
  | lifo => exact List.dropLast_sublist _

end Order

/-- A map that keeps its elements in order. -/
class Ordered (σ : Type) [SpecialMap σ] where
  order : Order
  contents : σ → List Bytes
  maxEntries : σ → Nat
  setContents : List Bytes → σ → σ

open Ordered in
/-- Taking an element out and looking at it. -/
class OrderedPops (σ : Type) [SpecialMap σ] [Ordered σ] : Prop where
  contents_set : ∀ (m : σ) l, contents (setContents l m) = l
  maxEntries_set : ∀ (m : σ) l, maxEntries (setContents l m) = maxEntries m
  valueSize_set : ∀ (m : σ) l, SpecialMap.valueSize (setContents l m) = SpecialMap.valueSize m
  peek_eq : ∀ m : σ, SpecialMap.peek m = (order σ).next (contents m)
  exec_pop : ∀ m : σ, SpecialMap.pop.exec m = some (.ok ((order σ).next (contents m)),
    setContents ((order σ).dropNext (contents m)) m)

instance : Ordered QueueMap where
  order := .fifo
  contents m := m.data
  maxEntries m := m.maxEntries.toNat
  setContents l m := { m with data := l }

instance : OrderedPops QueueMap where
  contents_set _ _ := rfl
  maxEntries_set _ _ := rfl
  valueSize_set _ _ := rfl
  peek_eq _ := rfl
  exec_pop m := QueueMap.exec_pop m

instance : Ordered StackMap where
  order := .lifo
  contents m := m.inner.data
  maxEntries m := m.inner.maxEntries.toNat
  setContents := StackMap.setData

instance : OrderedPops StackMap where
  contents_set _ _ := rfl
  maxEntries_set _ _ := rfl
  valueSize_set _ _ := rfl
  peek_eq _ := rfl
  exec_pop m := StackMap.exec_pop m

/-- The calls: `push_elem` and `pop_elem` are `push` and `pop` with an empty key. -/
inductive Op where
  | push (key value : Bytes) (flags : UInt64)
  | pop (key value : Bytes)
  | peek (value : Bytes)
  | lookup (key : Bytes)

inductive Answer where
  | done (r : Except BpfError Unit)
  | filled (r : Except BpfError Bytes)
  | found (r : Except BpfError (Option Bytes))

variable {σ : Type} [SpecialMap σ]

def step (m : σ) : Op → Option (Answer × σ)
  | .push key value flags =>
    ((SpecialMap.updateElem key value flags).exec m).map (Prod.map .done id)
  | .pop key value =>
    ((SpecialMap.lookupAndDeleteElem key value).exec m).map (Prod.map .filled id)
  | .peek value => ((SpecialMap.peekElem value).exec m).map (Prod.map .filled id)
  | .lookup key => ((SpecialMap.lookupElem key).exec m).map (Prod.map .found id)

def Fails (a : Answer) : Prop := ∃ e, a = .done (.error e)

/-- A push of an element: only with `BPF_EXISTS` does a full map make room, by losing the oldest
element. -/
def PushLaw (maxEntries : Nat) (contents : List Bytes) (value : Bytes) (flags : UInt64)
    (a : Answer) (contents' : List Bytes) : Prop :=
  if contents.length = maxEntries then
    if flags = BpfMapUpdateElemFlags.BPF_EXISTS then
      a = .done (.ok ()) ∧ contents' = contents.tail ++ [value]
    else Fails a ∧ contents' = contents
  else
    (a = .done (.ok ()) ∧ contents' = contents ++ [value]) ∨
      (flags ≠ 0 ∧ flags ≠ BpfMapUpdateElemFlags.BPF_EXISTS ∧ Fails a ∧ contents' = contents)

/-- The answer to a call and the contents behind it. -/
def Law (order : Order) (maxEntries valueSize : Nat) (contents : List Bytes) :
    Op → Answer → List Bytes → Prop
  | .push key value flags, a, contents' =>
    if key ≠ [] ∨ value.length ≠ valueSize then
      a = .done (.error .EINVAL) ∧ contents' = contents
    else PushLaw maxEntries contents value flags a contents'
  | .pop key value, a, contents' =>
    if key ≠ [] ∨ value.length ≠ valueSize then
      a = .filled (.error .EINVAL) ∧ contents' = contents
    else
      a = .filled ((order.next contents).elim (.error .ENOENT) .ok) ∧
        contents' = order.dropNext contents
  | .peek value, a, contents' =>
    a = .filled (if value.length ≠ valueSize then .error .EINVAL
      else (order.next contents).elim (.error .ENOENT) .ok) ∧ contents' = contents
  | .lookup key, a, contents' =>
    a = .found (if key ≠ [] then .error .EINVAL else .ok (order.next contents)) ∧
      contents' = contents

open Ordered in
/-- A step of a bounded queue or stack. -/
def Lawful [Ordered σ] (m : σ) (op : Op) (a : Answer) (m' : σ) : Prop :=
  Law (order σ) (maxEntries m) (SpecialMap.valueSize m) (contents m) op a (contents m') ∧
    (contents m').length ≤ maxEntries m'

open Ordered

/-- What every sequence of calls keeps. -/
structure Valid [Ordered σ] (m : σ) : Prop where
  room : (contents m).length ≤ maxEntries m
  sized : ∀ v ∈ contents m, v.length = SpecialMap.valueSize m
  capacity : 0 < maxEntries m

section Pops
variable [Ordered σ] [OrderedPops σ] {m : σ}

theorem Valid.set (h : Valid m) {l : List Bytes} (hroom : l.length ≤ maxEntries m)
    (hsized : ∀ v ∈ l, v.length = SpecialMap.valueSize m) : Valid (setContents l m) where
  room := by rwa [OrderedPops.contents_set, OrderedPops.maxEntries_set]
  sized := by rwa [OrderedPops.contents_set, OrderedPops.valueSize_set]
  capacity := by rw [OrderedPops.maxEntries_set]; exact h.capacity

theorem Valid.dropNext (h : Valid m) : Valid (setContents ((order σ).dropNext (contents m)) m) := by
  have hsub := Order.dropNext_sublist (order σ) (contents m)
  exact h.set (Nat.le_trans hsub.length_le h.room) fun v hv => h.sized v (hsub.subset hv)

theorem pop_lawful (h : Valid m) (key value : Bytes) :
    ∃ a m', step m (.pop key value) = some (a, m') ∧ Valid m' ∧
      Lawful m (.pop key value) a m' := by
  have hexec := SpecialMap.exec_lookupAndDeleteElem m key value
  by_cases hargs : key ≠ [] ∨ value.length ≠ SpecialMap.valueSize m
  · rw [if_pos hargs] at hexec
    refine ⟨_, m, by rw [step, hexec]; rfl, h, ?_, h.room⟩
    rw [Law, if_pos hargs]
    exact ⟨rfl, rfl⟩
  rw [if_neg hargs, Call.exec_bind_ok (OrderedPops.exec_pop m)] at hexec
  cases hnext : (order σ).next (contents m) with
  | none =>
    rw [hnext] at hexec
    refine ⟨_, _, by rw [step, hexec]; rfl, h.dropNext, ?_, h.dropNext.room⟩
    rw [Law, if_neg hargs, hnext, OrderedPops.contents_set]
    exact ⟨rfl, rfl⟩
  | some v =>
    have hlen : value.length = v.length := by
      rw [h.sized v (Order.mem_of_next hnext)]
      exact not_not.mp (not_or.mp hargs).2
    have hcopy : copyFromSlice value v = some v := copyFromSlice_eq_some.mpr ⟨hlen, rfl⟩
    rw [hnext] at hexec
    simp only [hcopy] at hexec
    refine ⟨_, _, by rw [step, hexec]; rfl, h.dropNext, ?_, h.dropNext.room⟩
    rw [Law, if_neg hargs, hnext, OrderedPops.contents_set]
    exact ⟨rfl, rfl⟩

theorem peek_lawful (h : Valid m) (value : Bytes) :
    ∃ a m', step m (.peek value) = some (a, m') ∧ Valid m' ∧ Lawful m (.peek value) a m' := by
  have hexec := SpecialMap.exec_peekElem m value
  rw [OrderedPops.peek_eq] at hexec
  by_cases hlen : value.length ≠ SpecialMap.valueSize m
  · rw [if_pos hlen] at hexec
    refine ⟨_, m, by rw [step, hexec]; rfl, h, ?_, h.room⟩
    rw [Law, if_pos hlen]
    exact ⟨rfl, rfl⟩
  rw [if_neg hlen] at hexec
  cases hnext : (order σ).next (contents m) with
  | none =>
    rw [hnext] at hexec
    refine ⟨_, m, by rw [step, hexec]; rfl, h, ?_, h.room⟩
    rw [Law, if_neg hlen, hnext]
    exact ⟨rfl, rfl⟩
  | some v =>
    have hcopy : copyFromSlice value v = some v := copyFromSlice_eq_some.mpr
      ⟨(not_not.mp hlen).trans (h.sized v (Order.mem_of_next hnext)).symm, rfl⟩
    rw [hnext] at hexec
    simp only [hcopy] at hexec
    refine ⟨_, m, by rw [step, hexec]; rfl, h, ?_, h.room⟩
    rw [Law, if_neg hlen, hnext]
    exact ⟨rfl, rfl⟩

theorem lookup_lawful (h : Valid m) (key : Bytes) :
    ∃ a m', step m (.lookup key) = some (a, m') ∧ Valid m' ∧ Lawful m (.lookup key) a m' := by
  have hexec := SpecialMap.exec_lookupElem m key
  rw [OrderedPops.peek_eq] at hexec
  exact ⟨_, m, by rw [step, hexec]; rfl, h, ⟨rfl, rfl⟩, h.room⟩

end Pops

/-- The pushes of elements that a queue does as it has to. -/
def queuePushes (m : QueueMap) : Op → Prop
  | .push key value flags => key = [] → value.length = m.valueSize.toNat →
    flags ≠ BpfMapUpdateElemFlags.BPF_EXISTS ∧
      (flags = 0 → m.data.length ≠ m.maxEntries.toNat)
  | _ => True

/-- The same for a stack: a full stack loses its newest element. -/
def stackPushes (m : StackMap) : Op → Prop
  | .push key value flags => key = [] → value.length = m.inner.valueSize.toNat →
    flags = BpfMapUpdateElemFlags.BPF_EXISTS →
      m.inner.data.length = m.inner.maxEntries.toNat → m.inner.data.dropLast = m.inner.data.tail
  | _ => True

theorem not_fails_ok : ¬ Fails (.done (.ok ())) := fun ⟨_, h⟩ => nomatch h

theorem fails_error (e : BpfError) : Fails (.done (.error e)) := ⟨e, rfl⟩

/-- When a push may be refused. -/
theorem pushLaw_refused {maxEntries : Nat} {l : List Bytes} {value : Bytes} {flags : UInt64}
    {e : BpfError} :
    PushLaw maxEntries l value flags (.done (.error e)) l ↔
      flags ≠ BpfMapUpdateElemFlags.BPF_EXISTS ∧ (flags = 0 → l.length = maxEntries) := by
  have hfails := fails_error e
  have hok : (.done (.error e) : Answer) ≠ .done (.ok ()) := fun h => nomatch h
  unfold PushLaw
  by_cases hfull : l.length = maxEntries
  · simp [hfull, hfails, hok]
  · simp [hfull, hfails, hok, and_comm]

theorem pushLaw_full {maxEntries : Nat} {l l' : List Bytes} {value : Bytes} {flags : UInt64}
    (hfull : l.length = maxEntries) :
    PushLaw maxEntries l value flags (.done (.ok ())) l' ↔
      flags = BpfMapUpdateElemFlags.BPF_EXISTS ∧ l' = l.tail ++ [value] := by
  simp [PushLaw, hfull, not_fails_ok]

theorem pushLaw_room {maxEntries : Nat} {l l' : List Bytes} {value : Bytes} {flags : UInt64}
    (hroom : l.length ≠ maxEntries) :
    PushLaw maxEntries l value flags (.done (.ok ())) l' ↔ l' = l ++ [value] := by
  simp [PushLaw, hroom, not_fails_ok]

theorem Valid.push [Ordered σ] [OrderedPops σ] {m : σ} (h : Valid m) {l : List Bytes}
    {value : Bytes} (hsub : l.Sublist (contents m)) (hroom : l.length < maxEntries m)
    (hvalue : value.length = SpecialMap.valueSize m) : Valid (setContents (l ++ [value]) m) := by
  refine h.set ?_ fun v hv => ?_
  · rw [List.length_append]
    exact hroom
  · rcases List.mem_append.mp hv with hv | hv
    · exact h.sized v (hsub.subset hv)
    · rw [List.mem_singleton.mp hv, hvalue]

theorem lawful_push [Ordered σ] {m m' : σ} {key value : Bytes} {flags : UInt64} {a : Answer}
    (hkey : key = []) (hvalue : value.length = SpecialMap.valueSize m)
    (hroom : (contents m').length ≤ maxEntries m') :
    Lawful m (.push key value flags) a m' ↔
      PushLaw (maxEntries m) (contents m) value flags a (contents m') := by
  have hargs : ¬ (key ≠ [] ∨ value.length ≠ SpecialMap.valueSize m) :=
    not_or.mpr ⟨not_not_intro hkey, not_not_intro hvalue⟩
  rw [Lawful, Law, if_neg hargs]
  exact and_iff_left hroom

theorem queue_push {m : QueueMap} (h : Valid m) (key value : Bytes) (flags : UInt64) :
    ∃ a m', step m (.push key value flags) = some (a, m') ∧ Valid m' ∧
      (Lawful m (.push key value flags) a m' ↔ queuePushes m (.push key value flags)) := by
  have hexec := QueueMap.exec_updateElem m key value flags
  have hroom : m.data.length ≤ m.maxEntries.toNat := h.room
  have hcapacity : 0 < m.maxEntries.toNat := h.capacity
  by_cases hargs : key ≠ [] ∨ value.length ≠ m.valueSize.toNat
  · rw [if_pos hargs] at hexec
    refine ⟨_, m, by rw [step, hexec]; rfl, h, iff_of_true ⟨?_, h.room⟩ fun hkey hvalue => ?_⟩
    · exact (if_pos hargs).mpr ⟨rfl, rfl⟩
    · exact absurd hargs (not_or.mpr ⟨not_not_intro hkey, not_not_intro hvalue⟩)
  rw [if_neg hargs] at hexec
  obtain ⟨hkey, hvalue⟩ := not_or.mp hargs
  rw [not_not] at hkey hvalue
  have hpushes : queuePushes m (.push key value flags) ↔
      flags ≠ BpfMapUpdateElemFlags.BPF_EXISTS ∧
        (flags = 0 → m.data.length ≠ m.maxEntries.toNat) :=
    ⟨fun hp => hp hkey hvalue, fun hp _ _ => hp⟩
  rw [hpushes]
  by_cases hflags : flags ≠ 0
  · rw [if_pos hflags] at hexec
    refine ⟨_, m, by rw [step, hexec]; rfl, h, (lawful_push hkey hvalue h.room).trans ?_⟩
    rw [pushLaw_refused]
    exact and_congr_right fun _ => iff_of_true (absurd · hflags) (absurd · hflags)
  rw [if_neg hflags] at hexec
  have hexists : flags ≠ BpfMapUpdateElemFlags.BPF_EXISTS := by
    rw [not_not.mp hflags]
    decide
  by_cases hfull : m.data.length = m.maxEntries.toNat
  · obtain ⟨v, rest, hdata⟩ : ∃ v rest, m.data = v :: rest :=
      List.exists_cons_of_length_pos (hfull ▸ hcapacity)
    have hremove : QueueMap.removeFirst m.data = some (v, rest) := by rw [hdata]; rfl
    have htail : rest = m.data.tail := by rw [hdata]; rfl
    have hlt : m.data.tail.length < m.maxEntries.toNat := by
      rw [List.length_tail]
      omega
    have hvalid := h.push (List.tail_sublist m.data) hlt hvalue
    rw [if_pos hfull, hremove, htail] at hexec
    refine ⟨_, _, by rw [step, hexec]; rfl, hvalid, (lawful_push hkey hvalue hvalid.room).trans ?_⟩
    refine (pushLaw_full hfull).trans ?_
    exact iff_of_false (fun hp => hexists hp.1) fun hp => hp.2 (not_not.mp hflags) hfull
  · have hvalid := h.push (List.Sublist.refl m.data) (Nat.lt_of_le_of_ne hroom hfull) hvalue
    rw [if_neg hfull] at hexec
    refine ⟨_, _, by rw [step, hexec]; rfl, hvalid, (lawful_push hkey hvalue hvalid.room).trans ?_⟩
    exact (pushLaw_room hfull).trans (iff_of_true rfl ⟨hexists, fun _ => hfull⟩)

/-- A flag word that is not refused has one existence bit at most. -/
theorem eq_exists_of_testBit {flags : UInt64} (hbad : ¬ BadUpdateFlags flags)
    (hbit : flags.toNat.testBit 1) : flags = BpfMapUpdateElemFlags.BPF_EXISTS := by
  have hlt : flags.toNat < 8 := Nat.lt_of_not_le fun h => hbad (.inl h)
  obtain ⟨n, hn, rfl⟩ := uint64_eq_ofNat_of_lt hlt
  clear hlt
  revert n
  decide

theorem stack_push {m : StackMap} (h : Valid m) (key value : Bytes) (flags : UInt64) :
    ∃ a m', step m (.push key value flags) = some (a, m') ∧ Valid m' ∧
      (Lawful m (.push key value flags) a m' ↔ stackPushes m (.push key value flags)) := by
  have hexec := StackMap.exec_updateElem m key value flags
  have hroom : m.inner.data.length ≤ m.inner.maxEntries.toNat := h.room
  have hcapacity : 0 < m.inner.maxEntries.toNat := h.capacity
  by_cases hargs : key ≠ [] ∨ value.length ≠ m.inner.valueSize.toNat
  · rw [if_pos hargs] at hexec
    refine ⟨_, m, by rw [step, hexec]; rfl, h, iff_of_true ⟨?_, h.room⟩ fun hkey hvalue => ?_⟩
    · exact (if_pos hargs).mpr ⟨rfl, rfl⟩
    · exact absurd hargs (not_or.mpr ⟨not_not_intro hkey, not_not_intro hvalue⟩)
  rw [if_neg hargs] at hexec
  obtain ⟨hkey, hvalue⟩ := not_or.mp hargs
  rw [not_not] at hkey hvalue
  have hpushes : stackPushes m (.push key value flags) ↔
      (flags = BpfMapUpdateElemFlags.BPF_EXISTS →
        m.inner.data.length = m.inner.maxEntries.toNat →
        m.inner.data.dropLast = m.inner.data.tail) :=
    ⟨fun hp => hp hkey hvalue, fun hp _ _ => hp⟩
  rw [hpushes]
  by_cases hbad : BadUpdateFlags flags
  · rw [if_pos hbad] at hexec
    have hzero : flags ≠ 0 := by
      rintro rfl
      exact absurd hbad (by decide)
    have hexists : flags ≠ BpfMapUpdateElemFlags.BPF_EXISTS := by
      rintro rfl
      exact absurd hbad (by decide)
    refine ⟨_, m, by rw [step, hexec]; rfl, h, (lawful_push hkey hvalue h.room).trans ?_⟩
    rw [pushLaw_refused]
    exact iff_of_true ⟨hexists, (absurd · hzero)⟩ (absurd · hexists)
  rw [if_neg hbad] at hexec
  by_cases hfull : m.inner.data.length = m.inner.maxEntries.toNat
  swap
  · have hvalid := h.push (List.Sublist.refl m.inner.data) (Nat.lt_of_le_of_ne hroom hfull) hvalue
    rw [if_neg hfull] at hexec
    refine ⟨_, _, by rw [step, hexec]; rfl, hvalid, (lawful_push hkey hvalue hvalid.room).trans ?_⟩
    exact (pushLaw_room hfull).trans (iff_of_true rfl fun _ h => absurd h hfull)
  rw [if_pos hfull] at hexec
  by_cases hbit : flags.toNat.testBit 1
  · have hexists := eq_exists_of_testBit hbad hbit
    have hlt : m.inner.data.dropLast.length < m.inner.maxEntries.toNat := by
      rw [List.length_dropLast]
      omega
    have hvalid := h.push (List.dropLast_sublist m.inner.data) hlt hvalue
    rw [if_neg (not_not_intro hbit)] at hexec
    refine ⟨_, _, by rw [step, hexec]; rfl, hvalid, (lawful_push hkey hvalue hvalid.room).trans ?_⟩
    refine (pushLaw_full hfull).trans ⟨fun hp _ _ => ?_, fun hp => ⟨hexists, ?_⟩⟩
    · exact List.append_cancel_right hp.2
    · exact congrArg (· ++ [value]) (hp hexists hfull)
  · have hexists : flags ≠ BpfMapUpdateElemFlags.BPF_EXISTS := by
      rintro rfl
      exact hbit (by decide)
    rw [if_pos hbit] at hexec
    refine ⟨_, m, by rw [step, hexec]; rfl, h, (lawful_push hkey hvalue h.room).trans ?_⟩
    rw [pushLaw_refused]
    exact iff_of_true ⟨hexists, fun _ => hfull⟩ (absurd · hexists)

theorem step_lawful [Ordered σ] [OrderedPops σ] {pushes : σ → Op → Prop}
    (hpush : ∀ {m : σ}, Valid m → ∀ key value flags, ∃ a m',
      step m (.push key value flags) = some (a, m') ∧ Valid m' ∧
        (Lawful m (.push key value flags) a m' ↔ pushes m (.push key value flags)))
    (hother : ∀ m op, (∀ key value flags, op ≠ .push key value flags) → pushes m op)
    (m : σ) (op : Op) (h : Valid m) :
    ∃ a m', step m op = some (a, m') ∧ Valid m' ∧ (Lawful m op a m' ↔ pushes m op) := by
  cases op with
  | push key value flags => exact hpush h key value flags
  | pop key value =>
    obtain ⟨a, m', hstep, hm', hlaw⟩ := pop_lawful h key value
    exact ⟨a, m', hstep, hm', iff_of_true hlaw (hother m _ fun _ _ _ h => nomatch h)⟩
  | peek value =>
    obtain ⟨a, m', hstep, hm', hlaw⟩ := peek_lawful h value
    exact ⟨a, m', hstep, hm', iff_of_true hlaw (hother m _ fun _ _ _ h => nomatch h)⟩
  | lookup key =>
    obtain ⟨a, m', hstep, hm', hlaw⟩ := lookup_lawful h key
    exact ⟨a, m', hstep, hm', iff_of_true hlaw (hother m _ fun _ _ _ h => nomatch h)⟩

theorem queue_new_valid {mapMeta : BpfMapMeta} {m : QueueMap} (h : QueueMap.new mapMeta = .ok m) :
    Valid m := by
  unfold QueueMap.new at h
  split at h
  · cases h
  · rename_i hargs
    cases h
    have hne : mapMeta.maxEntries ≠ 0 := fun h0 => hargs (.inr (.inl h0))
    exact ⟨Nat.zero_le _, fun v hv => absurd hv List.not_mem_nil,
      UInt32.pos_iff_ne_zero.mpr hne⟩

theorem stack_new_valid {mapMeta : BpfMapMeta} {m : StackMap} (h : StackMap.new mapMeta = .ok m) :
    Valid m := by
  unfold StackMap.new at h
  cases hq : QueueMap.new mapMeta with
  | error e =>
    rw [hq] at h
    cases h
  | ok q =>
    rw [hq] at h
    cases h
    have hvalid := queue_new_valid hq
    exact ⟨hvalid.room, hvalid.sized, hvalid.capacity⟩

theorem queue_lawful_iff {m : QueueMap} (h : Valid m) (ops : List Op) :
    Machine.AllSteps step Lawful m ops ↔
      Machine.AllSteps step (fun m op _ _ => queuePushes m op) m ops := by
  refine Machine.allSteps_congr (step_lawful queue_push ?_) ops h
  rintro m (⟨key, value, flags⟩ | _ | _ | _) h
  · exact absurd rfl (h key value flags)
  all_goals trivial

theorem stack_lawful_iff {m : StackMap} (h : Valid m) (ops : List Op) :
    Machine.AllSteps step Lawful m ops ↔
      Machine.AllSteps step (fun m op _ _ => stackPushes m op) m ops := by
  refine Machine.allSteps_congr (step_lawful stack_push ?_) ops h
  rintro m (⟨key, value, flags⟩ | _ | _ | _) h
  · exact absurd rfl (h key value flags)
  all_goals trivial

/-- In every sequence of calls on a new map the steps are those of a bounded queue, or stack,
exactly when every push of it is one that the map gets right. -/
theorem queue_and_stack_lawful_iff (mapMeta : BpfMapMeta) (ops : List Op) :
    (∀ m, QueueMap.new mapMeta = .ok m →
      (Machine.AllSteps step Lawful m ops ↔
        Machine.AllSteps step (fun m op _ _ => queuePushes m op) m ops)) ∧
    ∀ m, StackMap.new mapMeta = .ok m →
      (Machine.AllSteps step Lawful m ops ↔
        Machine.AllSteps step (fun m op _ _ => stackPushes m op) m ops) :=
  ⟨fun _ hnew => queue_lawful_iff (queue_new_valid hnew) ops,
    fun _ hnew => stack_lawful_iff (stack_new_valid hnew) ops⟩

/-- Two elements of one byte. -/
def twoBytes : BpfMapMeta := ⟨0, 1, 2, 0⟩

def pushed (b : UInt8) (flags : UInt64) : Op := .push [] [b] flags

theorem two_pushes_lawful : ∃ q s, QueueMap.new twoBytes = .ok q ∧ StackMap.new twoBytes = .ok s ∧
    Machine.AllSteps step Lawful q [pushed 1 0, pushed 2 0, .pop [] [0]] ∧
    Machine.AllSteps step Lawful s [pushed 1 2, pushed 2 0, .pop [] [0]] := by
  obtain ⟨hqueue, -⟩ := queue_and_stack_lawful_iff twoBytes [pushed 1 0, pushed 2 0, .pop [] [0]]
  obtain ⟨-, hstack⟩ := queue_and_stack_lawful_iff twoBytes [pushed 1 2, pushed 2 0, .pop [] [0]]
  refine ⟨⟨2, 1, []⟩, ⟨⟨2, 1, []⟩⟩, rfl, rfl, (hqueue _ rfl).mpr ?_, (hstack _ rfl).mpr ?_⟩
  · exact ⟨_, _, rfl, fun _ _ => by decide, _, _, rfl, fun _ _ => by decide, _, _, rfl, trivial,
      trivial⟩
  · exact ⟨_, _, rfl, fun _ _ => by decide, _, _, rfl, fun _ _ => by decide, _, _, rfl, trivial,
      trivial⟩

/-- A full queue loses its oldest element to a push without a flag; a full stack loses its newest
to one with `BPF_EXISTS`. -/
theorem full_queue_and_stack_unlawful :
    (∃ q, QueueMap.new twoBytes = .ok q ∧
      ¬ Machine.AllSteps step Lawful q [pushed 1 0, pushed 2 0, pushed 3 0]) ∧
    ∃ s, StackMap.new twoBytes = .ok s ∧
      ¬ Machine.AllSteps step Lawful s [pushed 1 0, pushed 2 0, pushed 3 2] := by
  have hq : QueueMap.new twoBytes = .ok ⟨2, 1, []⟩ := rfl
  have hs : StackMap.new twoBytes = .ok ⟨⟨2, 1, []⟩⟩ := rfl
  refine ⟨⟨_, hq, fun h => ?_⟩, ⟨_, hs, fun h => ?_⟩⟩
  · rw [queue_lawful_iff (queue_new_valid hq)] at h
    obtain ⟨_, _, h₁, -, _, _, h₂, -, _, _, -, hpush, -⟩ := h
    have e₁ : step (QueueMap.mk 2 1 []) (pushed 1 0) = some (.done (.ok ()), ⟨2, 1, [[1]]⟩) := rfl
    cases h₁.symm.trans e₁
    have e₂ : step (QueueMap.mk 2 1 [[1]]) (pushed 2 0) =
      some (.done (.ok ()), ⟨2, 1, [[1], [2]]⟩) := rfl
    cases h₂.symm.trans e₂
    exact (hpush rfl rfl).2 rfl rfl
  · rw [stack_lawful_iff (stack_new_valid hs)] at h
    obtain ⟨_, _, h₁, -, _, _, h₂, -, _, _, -, hpush, -⟩ := h
    have e₁ : step (StackMap.mk ⟨2, 1, []⟩) (pushed 1 0) =
      some (.done (.ok ()), ⟨⟨2, 1, [[1]]⟩⟩) := rfl
    cases h₁.symm.trans e₁
    have e₂ : step (StackMap.mk ⟨2, 1, [[1]]⟩) (pushed 2 0) =
      some (.done (.ok ()), ⟨⟨2, 1, [[1], [2]]⟩⟩) := rfl
    cases h₂.symm.trans e₂
    exact absurd (hpush rfl rfl rfl rfl) (by decide)

end ExtKtrace.Bpf.QueueLaw
