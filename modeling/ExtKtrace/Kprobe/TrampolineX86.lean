import ExtKtrace.Kprobe.Retprobe
import ExtKtrace.Kprobe.Trampoline

/-!
# The return trampoline on x86_64

The return address is on the stack, so the trampoline pushes a word in its place before the
registers, and the callback replaces it. The flags are popped where the callback has copied them to.
-/

namespace ExtKtrace.Kprobe.Trampoline
set_option autoImplicit false

open Spill

namespace X86

inductive Reg where
  | rax | rbx | rcx | rdx | rsi | rdi | rbp | rsp
  | r8 | r9 | r10 | r11 | r12 | r13 | r14 | r15
  | rflags
  deriving DecidableEq

/-- The fields of `PtRegs` in their order; `none` are `orig_rax`, `rip`, `cs` and `ss`. -/
def ptRegs : List (Option Reg) := [
  some .r15, some .r14, some .r13, some .r12, some .rbp, some .rbx, some .r11, some .r10,
  some .r9, some .r8, some .rax, some .rcx, some .rdx, some .rsi, some .rdi, none, none, none,
  some .rflags, some .rsp, none]

def ptSize : UInt64 := 8 * ptRegs.length.toUInt64

def fieldOf (r : Reg) : UInt64 := 8 * (ptRegs.idxOf (some r)).toUInt64

def origRax : UInt64 := 8 * 15

def rip : UInt64 := 8 * 16

def ss : UInt64 := 8 * 20

def KERNEL_DS : UInt64 := 24

/-- The registers in the order of their `pushq`. -/
def pushed : List Reg :=
  [.rdi, .rsi, .rdx, .rcx, .rax, .r8, .r9, .r10, .r11, .rbx, .rbp, .r12, .r13, .r14, .r15]

/-- The registers in the order of their `popq`. -/
def popped : List Reg :=
  [.r15, .r14, .r13, .r12, .rbp, .rbx, .r11, .r10, .r9, .r8, .rax, .rcx, .rdx, .rsi, .rdi]

section
variable (flagsOf : UInt64 → UInt64 → UInt64) (trampoline : UInt64)

/-- `addq` to the stack pointer, or `subq` from it. The flags are those of the result. -/
def adjust (n : UInt64) (s : State Reg) : State Reg :=
  (s.set .rflags (flagsOf (s.reg .rsp) n)).set .rsp (s.reg .rsp + n)

def save (s : State Reg) : State Reg :=
  let s := s.push .rsp 0
  let s := s.push .rsp KERNEL_DS
  let s := s.push .rsp (s.reg .rsp)
  let s := s.push .rsp (s.reg .rflags)
  let s := adjust flagsOf (-24) s
  let s := s.pushAll .rsp pushed
  s.set .rdi (s.reg .rsp)

def restore (s : State Reg) : State Reg × UInt64 :=
  let s := s.popAll .rsp popped
  let s := adjust flagsOf 24 s
  let s := adjust flagsOf 16 s
  let s := s.pop .rsp .rflags
  (s.set .rsp (s.reg .rsp + 8), s.mem (s.reg .rsp))

/-- `arch_rethook_trampoline_callback`, with `arch_rethook_fixup_return` at the end of the
handler. -/
def callback (handler : Handler) (p : UInt64) (m : Words) : Option (Words × UInt64) := do
  let m := Function.update m (p + rip) trampoline
  let m := Function.update m (p + origRax) (-1)
  let m := Function.update m (p + fieldOf .rsp) (m (p + fieldOf .rsp) + 16)
  let ptRegsPointer := p + ptSize
  let answer ← handler p ptRegsPointer m
  let m := Function.update answer.1 ptRegsPointer answer.2
  return (Function.update m (p + ss) (m (p + fieldOf .rflags)), answer.2)

def archRethookTrampoline : Trampoline Reg where
  sp := .rsp
  argument := .rdi
  result := .rax
  before := save flagsOf
  callback := callback trampoline
  after := restore flagsOf

end

/-- `PtRegs` says of a register what is in its field. -/
def view (m : Words) (p : UInt64) (r : Reg) : UInt64 := m (p + fieldOf r)

variable (flagsOf : UInt64 → UInt64 → UInt64) (trampoline : UInt64)

/-- `PtRegs` and the word behind it. -/
def frameSize : UInt64 := ptSize + 8

/-- The registers before the general ones are pushed: `top` is the stack pointer of the function. -/
structure Entered (s d : State Reg) : Prop where
  rsp : d.reg .rsp = s.reg .rsp + -56
  general : ∀ r ∈ pushed, d.reg r = s.reg r
  mem : d.mem = ((((s.write (s.reg .rsp + -8) 0).write (s.reg .rsp + -16) KERNEL_DS).write
    (s.reg .rsp + -24) (s.reg .rsp + -16)).write (s.reg .rsp + -32) (s.reg .rflags)).mem

theorem pushed_general : ∀ r ∈ pushed, r ≠ .rsp ∧ r ≠ .rflags := by decide

theorem save_eq (s : State Reg) : ∃ d, Entered s d ∧ save flagsOf s =
    ((d.spill (s.reg .rsp) (pushedAt (-56) pushed)).set .rsp (s.reg .rsp + -frameSize)).set .rdi
      (s.reg .rsp + -frameSize) := by
  have h1 : s.push .rsp 0 = (s.write (s.reg .rsp + -8) 0).set .rsp (s.reg .rsp + -8) :=
    s.push_eq .rsp (s.reg .rsp) 0 0 (UInt64.add_zero _).symm
  generalize hs1 : s.push .rsp 0 = s1 at h1
  have h2 : s1.push .rsp KERNEL_DS =
      (s1.write (s.reg .rsp + -16) KERNEL_DS).set .rsp (s.reg .rsp + -16) :=
    s1.push_eq .rsp (s.reg .rsp) (-8) KERNEL_DS (by rw [h1, State.set_reg_self])
  generalize hs2 : s1.push .rsp KERNEL_DS = s2 at h2
  have h3 : s2.push .rsp (s2.reg .rsp) =
      (s2.write (s.reg .rsp + -24) (s.reg .rsp + -16)).set .rsp (s.reg .rsp + -24) := by
    have htop : s2.reg .rsp = s.reg .rsp + -16 := by rw [h2, State.set_reg_self]
    rw [htop]
    exact s2.push_eq .rsp (s.reg .rsp) (-16) _ htop
  generalize hs3 : s2.push .rsp (s2.reg .rsp) = s3 at h3
  have hflags : s3.reg .rflags = s.reg .rflags := by
    simp (disch := decide) only [h3, h2, h1, State.set_reg_of_ne, State.reg_write]
  have h4 : s3.push .rsp (s3.reg .rflags) =
      (s3.write (s.reg .rsp + -32) (s.reg .rflags)).set .rsp (s.reg .rsp + -32) := by
    rw [hflags]
    exact s3.push_eq .rsp (s.reg .rsp) (-24) _ (by rw [h3, State.set_reg_self])
  generalize hs4 : s3.push .rsp (s3.reg .rflags) = s4 at h4
  have h5 : adjust flagsOf (-24) s4 =
      (s4.set .rflags (flagsOf (s4.reg .rsp) (-24))).set .rsp (s.reg .rsp + -56) := by
    unfold adjust
    rw [h4, State.set_reg_self, UInt64.add_assoc]
    rfl
  generalize hs5 : adjust flagsOf (-24) s4 = d at h5
  have hd : Entered s d := by
    refine ⟨?_, ?_, ?_⟩
    · rw [h5, State.set_reg_self]
    · intro r hr
      obtain ⟨hrsp, hrflags⟩ := pushed_general r hr
      simp only [h5, h4, h3, h2, h1, State.set_reg_of_ne _ hrsp, State.set_reg_of_ne _ hrflags,
        State.reg_write]
    · rw [h5, State.mem_set, State.mem_set, h4, h3, h2, h1]
      rfl
  refine ⟨d, hd, ?_⟩
  have hpush := d.pushAll_eq .rsp (s.reg .rsp) (-56) pushed (by decide) hd.rsp
  unfold save
  dsimp only
  rw [hs1, hs2, hs3, hs4, hs5, hpush, State.set_reg_self]
  rfl

theorem pushed_fields : ∀ e ∈ pushedAt (-56) pushed, -frameSize + fieldOf e.1 = e.2 := by
  decide +kernel

theorem pushed_apart : ((pushedAt (-56) pushed).map Prod.snd).Nodup := by decide +kernel

theorem pushed_inFrame : ∀ e ∈ pushedAt (-56) pushed, e.2 + frameSize < frameSize ∧
    e.2 ≠ -24 ∧ e.2 ≠ -32 := by
  decide +kernel

theorem popped_fields : ∀ e ∈ poppedAt 0 popped, fieldOf e.1 = e.2 := by decide +kernel

section
variable (s : State Reg)

theorem field_at (off : UInt64) :
    s.reg .rsp - frameSize + off = s.reg .rsp + (-frameSize + off) := by
  rw [UInt64.sub_eq_add_neg, UInt64.add_assoc]

theorem saved_general {r : Reg} (hr : r ∈ pushed) :
    (save flagsOf s).mem (s.reg .rsp - frameSize + fieldOf r) = s.reg r := by
  obtain ⟨d, hd, hsave⟩ := save_eq flagsOf s
  have hfst := pushedAt_fst (-56) pushed
  rw [← hfst] at hr
  obtain ⟨e, he, rfl⟩ := List.mem_map.mp hr
  rw [hsave, State.mem_set, State.mem_set, field_at, pushed_fields e he,
    State.spill_mem _ _ _ pushed_apart he]
  exact hd.general _ (hfst ▸ hr)

theorem saved_other {off : UInt64} (h : off = -24 ∨ off = -32) :
    (save flagsOf s).mem (s.reg .rsp + off) =
      if off = -24 then s.reg .rsp + -16 else s.reg .rflags := by
  obtain ⟨d, hd, hsave⟩ := save_eq flagsOf s
  have hoff : ∀ e ∈ pushedAt (-56) pushed, s.reg .rsp + off ≠ s.reg .rsp + e.2 := by
    intro e he heq
    obtain ⟨-, h24, h32⟩ := pushed_inFrame e he
    rw [← (UInt64.add_right_inj _).mp heq] at h24 h32
    exact h.elim h24 h32
  rw [hsave, State.mem_set, State.mem_set, State.spill_mem_other _ _ _ hoff, hd.mem]
  rcases h with rfl | rfl
  · have hne : s.reg .rsp + -24 ≠ s.reg .rsp + -32 := by
      intro heq
      exact absurd ((UInt64.add_right_inj _).mp heq) (by decide)
    rw [State.write_mem_of_ne _ hne, State.write_mem_self]
    rfl
  · exact State.write_mem_self ..

theorem saved_outside {a : UInt64}
    (ha : ∀ off < frameSize, a ≠ s.reg .rsp - frameSize + off) :
    (save flagsOf s).mem a = s.mem a := by
  obtain ⟨d, hd, hsave⟩ := save_eq flagsOf s
  have hout : ∀ off, off + frameSize < frameSize → a ≠ s.reg .rsp + off := by
    intro off hoff heq
    apply ha (off + frameSize) hoff
    rw [heq, UInt64.add_comm off, ← UInt64.add_assoc, UInt64.sub_add_cancel]
  rw [hsave, State.mem_set, State.mem_set, State.spill_mem_other, hd.mem,
    State.write_mem_of_ne _ (hout _ (by decide)), State.write_mem_of_ne _ (hout _ (by decide)),
    State.write_mem_of_ne _ (hout _ (by decide)), State.write_mem_of_ne _ (hout _ (by decide))]
  exact fun e he => hout _ (pushed_inFrame e he).1

end

/-- What the handlers are given. -/
def given (m : Words) (p : UInt64) : Words :=
  let m := Function.update m (p + rip) trampoline
  let m := Function.update m (p + origRax) (-1)
  Function.update m (p + fieldOf .rsp) (m (p + fieldOf .rsp) + 16)

section
variable (m : Words) (p : UInt64)

theorem at_ne {off off' : UInt64} (h : off ≠ off') : p + off ≠ p + off' :=
  fun heq => h ((UInt64.add_right_inj p).mp heq)

theorem given_rsp : given trampoline m p (p + fieldOf .rsp) =
    m (p + fieldOf .rsp) + 16 := by
  unfold given
  rw [Function.update_self, Function.update_of_ne (at_ne p (by decide)),
    Function.update_of_ne (at_ne p (by decide))]

theorem given_of_ne {a : UInt64} (hrip : a ≠ p + rip) (horig : a ≠ p + origRax)
    (hrsp : a ≠ p + fieldOf .rsp) : given trampoline m p a = m a := by
  unfold given
  rw [Function.update_of_ne hrsp, Function.update_of_ne horig, Function.update_of_ne hrip]

end

theorem restore_eq (c : State Reg) : (restore flagsOf c).2 = c.mem (c.reg .rsp + ptSize) ∧
    (restore flagsOf c).1.reg .rsp = c.reg .rsp + frameSize ∧
    (∀ r ∈ pushed, (restore flagsOf c).1.reg r = c.mem (c.reg .rsp + fieldOf r)) ∧
    (restore flagsOf c).1.reg .rflags = c.mem (c.reg .rsp + ss) ∧
    (restore flagsOf c).1.mem = c.mem := by
  have hpop := c.popAll_eq .rsp (c.reg .rsp) 0 popped (by decide) (UInt64.add_zero _).symm
  have hmem : (c.fill (c.reg .rsp) (poppedAt 0 popped)).mem = c.mem := State.fill_mem ..
  have hreg : ∀ r ∈ pushed, (c.fill (c.reg .rsp) (poppedAt 0 popped)).reg r =
      c.mem (c.reg .rsp + fieldOf r) := by
    intro r hr
    have hperm : ∀ r ∈ pushed, r ∈ popped := by decide
    have hfst := poppedAt_fst 0 popped
    have hr := hperm r hr
    rw [← hfst] at hr
    obtain ⟨e, he, rfl⟩ := List.mem_map.mp hr
    rw [State.fill_reg _ _ _ (by rw [hfst]; decide) he, popped_fields e he]
  unfold restore adjust State.pop
  dsimp only
  rw [hpop]
  generalize c.fill (c.reg .rsp) (poppedAt 0 popped) = d at hmem hreg ⊢
  have habove : c.reg .rsp + above 0 popped + 24 + 16 = c.reg .rsp + ss := by
    rw [UInt64.add_assoc, UInt64.add_assoc]
    rfl
  have hret : c.reg .rsp + ss + 8 = c.reg .rsp + ptSize := UInt64.add_assoc ..
  have hback : c.reg .rsp + ptSize + 8 = c.reg .rsp + frameSize := UInt64.add_assoc ..
  simp (disch := decide) only [State.set_reg_self, State.set_reg_of_ne, State.mem_set, hmem,
    habove, hret, hback, true_and]
  refine ⟨?_, trivial⟩
  intro r hr
  obtain ⟨hrsp, hrflags⟩ := pushed_general r hr
  simp only [State.set_reg_of_ne _ hrsp, State.set_reg_of_ne _ hrflags, hreg r hr]

/-- The memory behind the callback, when the handlers have answered. -/
def answered (p : UInt64) (answer : Words × UInt64) : Words :=
  Function.update (Function.update answer.1 (p + ptSize) answer.2) (p + ss)
    (answer.1 (p + fieldOf .rflags))

theorem callback_eq (handler : Handler) (p : UInt64) (m : Words) :
    callback trampoline handler p m =
      (handler p (p + ptSize) (given trampoline m p)).map fun answer =>
        (answered p answer, answer.2) := by
  have hflags : ∀ m v, Function.update m (p + ptSize) v (p + fieldOf .rflags) =
      (m : Words) (p + fieldOf .rflags) :=
    fun m v => Function.update_of_ne (at_ne p (by decide)) v m
  have hgiven : callback trampoline handler p m =
      (handler p (p + ptSize) (given trampoline m p)).bind fun answer =>
        some (Function.update (Function.update answer.1 (p + ptSize) answer.2) (p + ss)
          (Function.update answer.1 (p + ptSize) answer.2 (p + fieldOf .rflags)), answer.2) := rfl
  rw [hgiven]
  simp only [hflags]
  exact Option.map_eq_bind.symm

section
variable (p : UInt64) (answer : Words × UInt64)

theorem answered_ret : answered p answer (p + ptSize) = answer.2 := by
  unfold answered
  rw [Function.update_of_ne (at_ne p (by decide)), Function.update_self]

theorem answered_ss : answered p answer (p + ss) = answer.1 (p + fieldOf .rflags) :=
  Function.update_self ..

theorem answered_of_ne {a : UInt64} (hret : a ≠ p + ptSize) (hss : a ≠ p + ss) :
    answered p answer a = answer.1 a := by
  unfold answered
  rw [Function.update_of_ne hss, Function.update_of_ne hret]

end

theorem fields_apart : ∀ r ∈ .rflags :: pushed, fieldOf r ≠ rip ∧ fieldOf r ≠ origRax ∧
    fieldOf r ≠ fieldOf .rsp ∧ fieldOf r ≠ ptSize ∧ fieldOf r ≠ ss := by
  decide +kernel

theorem seen_given (s : State Reg) (r : Reg) (hr : r ∈ .rsp :: .rflags :: pushed) :
    view (given trampoline (save flagsOf s).mem (s.reg .rsp - frameSize))
      (s.reg .rsp - frameSize) r = s.reg r := by
  unfold view
  rcases List.mem_cons.mp hr with rfl | hr
  · have hkept := saved_other flagsOf s (Or.inl rfl)
    have hoff : -frameSize + fieldOf .rsp = -24 := by decide +kernel
    rw [if_pos rfl] at hkept
    rw [given_rsp, field_at, hoff, hkept, ← UInt64.sub_eq_add_neg]
    exact UInt64.sub_add_cancel ..
  obtain ⟨h1, h2, h3, -⟩ := fields_apart r hr
  rw [given_of_ne _ _ _ (at_ne _ h1) (at_ne _ h2) (at_ne _ h3)]
  rcases List.mem_cons.mp hr with rfl | hr
  · have hkept := saved_other flagsOf s (Or.inr rfl)
    have hoff : -frameSize + fieldOf .rflags = -32 := by decide +kernel
    rw [if_neg (by decide)] at hkept
    rw [field_at, hoff, hkept]
  · exact saved_general flagsOf s hr

/-- The trampoline, in terms of the memory that the handlers are given and of their answer. -/
theorem run_answered (handler : Handler) (left : Reg → UInt64) (s : State Reg) {p : UInt64}
    (hp : s.reg .rsp - frameSize = p) :
    (archRethookTrampoline flagsOf trampoline).run handler left s =
      (handler p (p + ptSize) (given trampoline (save flagsOf s).mem p)).map fun answer =>
        restore flagsOf (((State.mk left (answered p answer)).set .rsp p).set .rax answer.2) := by
  obtain ⟨d, -, hsave⟩ := save_eq flagsOf s
  have hrdi : (save flagsOf s).reg .rdi = p := by
    rw [hsave, State.set_reg_self, ← UInt64.sub_eq_add_neg, hp]
  have hrsp : (save flagsOf s).reg .rsp = p := by
    rw [hsave, State.set_reg_of_ne _ (by decide), State.set_reg_self, ← UInt64.sub_eq_add_neg, hp]
  unfold run called archRethookTrampoline
  dsimp only
  rw [hrdi, hrsp, callback_eq]
  cases handler p (p + ptSize) (given trampoline (save flagsOf s).mem p) <;> rfl

/-- What the function's caller finds. -/
theorem run_carries (handler : Handler) (left : Reg → UInt64) (s : State Reg) {p : UInt64}
    (hp : s.reg .rsp - frameSize = p) {answer : Words × UInt64}
    (hanswer : handler p (p + ptSize) (given trampoline (save flagsOf s).mem p) = some answer) :
    ∃ final, (archRethookTrampoline flagsOf trampoline).run handler left s = some final ∧
      final.2 = answer.2 ∧ final.1.reg .rsp = s.reg .rsp ∧
      (∀ r ∈ .rflags :: pushed, final.1.reg r = view answer.1 p r) ∧
      ∀ a, (∀ off < frameSize, a ≠ p + off) → final.1.mem a = answer.1 a := by
  have htop : ((State.mk left (answered p answer)).set .rsp p |>.set .rax answer.2).reg .rsp =
      p := by
    rw [State.set_reg_of_ne _ (by decide), State.set_reg_self]
  obtain ⟨hgoes, hback, hloaded, hflags, hmem⟩ := restore_eq flagsOf
    ((State.mk left (answered p answer)).set .rsp p |>.set .rax answer.2)
  rw [htop] at hgoes hback hloaded hflags
  rw [State.mem_set, State.mem_set] at hgoes hloaded hflags hmem
  rw [run_answered flagsOf trampoline handler left s hp, hanswer]
  refine ⟨_, rfl, ?_, ?_, ?_, ?_⟩
  · rw [hgoes]
    exact answered_ret p answer
  · rw [hback, ← hp, UInt64.sub_add_cancel]
  · intro r hr
    unfold view
    obtain ⟨-, -, -, h4, h5⟩ := fields_apart r hr
    rcases List.mem_cons.mp hr with rfl | hr
    · rw [hflags]
      exact answered_ss p answer
    · rw [hloaded r hr]
      exact answered_of_ne p answer (at_ne p h4) (at_ne p h5)
  · rw [hmem]
    exact fun a ha => answered_of_ne p answer (ha _ (by decide)) (ha _ (by decide))

theorem trampoline_faithful : Faithful (archRethookTrampoline flagsOf trampoline) (fun _ => True)
    frameSize (fun s => s.reg .rsp - frameSize + ptSize) view (.rsp :: .rflags :: pushed)
    (.rflags :: pushed) where
  carries s _ := by
    refine ⟨given trampoline (save flagsOf s).mem (s.reg .rsp - frameSize),
      seen_given flagsOf trampoline s, ?_, ?_, ?_⟩
    · intro a ha
      have hrip := ha rip (by decide)
      have horig := ha origRax (by decide)
      have hrsp := ha (fieldOf .rsp) (by decide)
      exact (given_of_ne _ _ _ hrip horig hrsp).trans (saved_outside flagsOf s ha)
    · intro handler left hnone
      refine (run_answered flagsOf trampoline handler left s rfl).trans ?_
      exact congrArg (Option.map _) hnone
    · intro handler left answer hanswer
      exact run_carries flagsOf trampoline handler left s rfl hanswer

end X86

end ExtKtrace.Kprobe.Trampoline
