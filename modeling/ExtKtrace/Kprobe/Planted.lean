import ExtKtrace.Kprobe.Registry

/-!
# Patched text and slots

What memory holds while some probe points are live: a breakpoint where each of them sits, its
instruction in its slot, and the program as it was everywhere else. Planting a point and
dropping one keep this.
-/

namespace ExtKtrace.Kprobe
set_option autoImplicit false

/-- A program in memory and the addresses in it where probes may be put: the instructions there
do not overlap. -/
structure Layout where
  code : Memory
  text : Space → Nat → Prop
  site : Space → Nat → Prop
  in_text : ∀ sp a i, site sp a → i < insnLen code sp a → text sp (a + i)
  apart : ∀ sp a b, site sp a → site sp b → a ≠ b →
    a + insnLen code sp a ≤ b ∨ b + insnLen code sp b ≤ a

/-- An instruction at the first address of the second page. -/
theorem in_first_word {a i n : Nat} (ha : a = 4096) (hi : i < n) (hn : n ≤ 4) :
    4096 ≤ a + i ∧ a + i < 4100 := by
  omega

def pageSize : Nat := 4096

def Apart (p q : Nat) : Prop := p + pageSize ≤ q ∨ q + pageSize ≤ p

theorem Apart.ne {p q : Nat} (h : Apart p q) : p ≠ q := by
  unfold Apart pageSize at h
  omega

theorem Apart.symm {p q : Nat} (h : Apart p q) : Apart q p := by
  unfold Apart at h ⊢
  omega

/-- No byte of the page is program text. -/
def OffText (L : Layout) (sp : Space) (page : Nat) : Prop :=
  ∀ b, page ≤ b → b < page + pageSize → ¬ L.text sp b

/-- The addresses a point patches. -/
def ProbePoint.covers (pt : ProbePoint) (b : Nat) : Prop :=
  pt.addr ≤ b ∧ b < pt.addr + pt.oldInstruction.len

structure Planted (L : Layout) (mem : Memory) (pages : List Nat) (userPages : List (Space × Nat))
    (value : Nat → Option ProbePoint) : Prop where
  site : ∀ p pt, value p = some pt → L.site pt.userPid pt.addr
  found : ∀ p pt, value p = some pt →
    fetch L.code pt.userPid pt.addr = .ok pt.oldInstruction
  distinct : ∀ p q pt qt, value p = some pt → value q = some qt →
    pt.userPid = qt.userPid → pt.addr = qt.addr → p = q
  patched : ∀ p pt, value p = some pt →
    mem.read pt.userPid pt.addr pt.oldInstruction.len = pt.oldInstruction.breakBytes
  slot : ∀ p pt, value p = some pt →
    mem.read none pt.singleStepAddress pt.instructionSlotLen = pt.slotBytes
  slot_mem : ∀ p pt, value p = some pt → pt.singleStepAddress ∈ pages
  slots_apart : ∀ p q pt qt, value p = some pt → value q = some qt → p ≠ q →
    Apart pt.singleStepAddress qt.singleStepAddress
  pages_off : ∀ q ∈ pages, OffText L none q
  user : ∀ p pt, value p = some pt → pt.dynamicUserPtr ≠ 0 → pt.userPid ≠ none ∧
    (pt.userPid, pt.dynamicUserPtr) ∈ userPages ∧
    mem.read pt.userPid pt.dynamicUserPtr pt.instructionSlotLen = pt.slotBytes
  users_apart : ∀ p q pt qt, value p = some pt → value q = some qt → p ≠ q →
    pt.dynamicUserPtr ≠ 0 → qt.dynamicUserPtr ≠ 0 → pt.userPid = qt.userPid →
    Apart pt.dynamicUserPtr qt.dynamicUserPtr
  users_off : ∀ e ∈ userPages, OffText L e.1 e.2
  unpatched : ∀ sp b, L.text sp b →
    (∀ p pt, value p = some pt → pt.userPid = sp → ¬ pt.covers b) → mem sp b = L.code sp b

theorem slotLen_lt (pt : ProbePoint) : pt.instructionSlotLen < pageSize := by
  unfold ProbePoint.instructionSlotLen pageSize
  split <;> omega

/-- The page a point's thread is sent to. -/
def ProbePoint.debugPage (pt : ProbePoint) : Nat :=
  if pt.dynamicUserPtr = 0 then pt.singleStepAddress else pt.dynamicUserPtr

theorem ProbePoint.debugAddress_eq (pt : ProbePoint) :
    pt.debugAddress = pt.debugPage + pt.oldInstruction.len := by
  unfold debugAddress debugPage
  split <;> rfl

theorem ProbePoint.setDynamicUserPtr_debugPage (pt : ProbePoint) {ptr : Nat} (h : ptr ≠ 0) :
    (pt.setDynamicUserPtr ptr).debugPage = ptr :=
  if_neg h

section Value
variable {value value' : Nat → Option ProbePoint} {p q : Nat} {pt qt : ProbePoint}

theorem value_insert (hv : ∀ q, value' q = if q = p then some pt else value q)
    (hq : value' q = some qt) : (q = p ∧ qt = pt) ∨ (q ≠ p ∧ value q = some qt) := by
  rw [hv q] at hq
  by_cases hqp : q = p
  · rw [if_pos hqp] at hq
    cases hq
    exact .inl ⟨hqp, rfl⟩
  · rw [if_neg hqp] at hq
    exact .inr ⟨hqp, hq⟩

theorem value_remove (hv : ∀ q, value' q = if q = p then none else value q)
    (hq : value' q = some qt) : q ≠ p ∧ value q = some qt := by
  rw [hv q] at hq
  by_cases hqp : q = p
  · rw [if_pos hqp] at hq
    cases hq
  · rw [if_neg hqp] at hq
    exact ⟨hqp, hq⟩

end Value

/-- The pages that threads are sent to are apart. -/
def KeysApart (value : Nat → Option ProbePoint) : Prop :=
  ∀ p q pt qt, value p = some pt → value q = some qt → p ≠ q → Apart pt.debugPage qt.debugPage

theorem KeysApart.debugAddress {value : Nat → Option ProbePoint} (h : KeysApart value) {p q : Nat}
    {pt qt : ProbePoint} (hp : value p = some pt) (hq : value q = some qt)
    (heq : pt.debugAddress = qt.debugAddress) : p = q := by
  by_contra hne
  have hap := h p q pt qt hp hq hne
  rw [pt.debugAddress_eq, qt.debugAddress_eq] at heq
  have h1 := pt.oldInstruction.len_le
  have h2 := qt.oldInstruction.len_le
  unfold Apart pageSize at hap
  omega

theorem KeysApart.setUser {value value' : Nat → Option ProbePoint} (h : KeysApart value)
    {p ptr : Nat} {pt : ProbePoint} (hne : ptr ≠ 0)
    (hap : ∀ q qt, value q = some qt → q ≠ p → Apart ptr qt.debugPage)
    (hv : ∀ q, value' q = if q = p then some (pt.setDynamicUserPtr ptr) else value q) :
    KeysApart value' := by
  intro q r qt rt hq hr hqr
  rcases value_insert hv hq with ⟨rfl, rfl⟩ | ⟨hqp, hq⟩ <;>
    rcases value_insert hv hr with ⟨rfl, rfl⟩ | ⟨hrp, hr⟩
  · exact absurd rfl hqr
  · rw [pt.setDynamicUserPtr_debugPage hne]
    exact hap r rt hr hrp
  · rw [pt.setDynamicUserPtr_debugPage hne]
    exact (hap q qt hq hqp).symm
  · exact h q r qt rt hq hr hqr

namespace Planted
variable {L : Layout} {mem mem' : Memory} {pages pages' : List Nat}
  {userPages userPages' : List (Space × Nat)} {value value' : Nat → Option ProbePoint}

/-- The program, with nothing planted. -/
theorem start (L : Layout) : Planted L L.code [] [] fun _ => none where
  site _ _ h := by cases h
  found _ _ h := by cases h
  distinct _ _ _ _ h := by cases h
  patched _ _ h := by cases h
  slot _ _ h := by cases h
  slot_mem _ _ h := by cases h
  slots_apart _ _ _ _ h := by cases h
  pages_off _ h := by cases h
  user _ _ h := by cases h
  users_apart _ _ _ _ h := by cases h
  users_off _ h := by cases h
  unpatched _ _ _ _ := rfl

theorem congr (h : Planted L mem pages userPages value) (hv : ∀ p, value' p = value p) :
    Planted L mem pages userPages value' := by
  have heq : value' = value := funext hv
  rw [heq]
  exact h

theorem len_eq (h : Planted L mem pages userPages value) {p : Nat} {pt : ProbePoint}
    (hp : value p = some pt) : pt.oldInstruction.len = insnLen L.code pt.userPid pt.addr :=
  fetch_len (h.found p pt hp)

theorem text_of_covers {pt : ProbePoint} (hsite : L.site pt.userPid pt.addr)
    (hlen : pt.oldInstruction.len = insnLen L.code pt.userPid pt.addr) {b : Nat}
    (hb : pt.covers b) : L.text pt.userPid b := by
  obtain ⟨hlow, hhigh⟩ := hb
  have htext := L.in_text pt.userPid pt.addr (b - pt.addr) hsite (by omega)
  rwa [Nat.add_sub_cancel' hlow] at htext

theorem covers_text (h : Planted L mem pages userPages value) {p : Nat} {pt : ProbePoint}
    (hp : value p = some pt) {b : Nat} (hb : pt.covers b) : L.text pt.userPid b :=
  text_of_covers (h.site p pt hp) (h.len_eq hp) hb

/-- What a point covers is beside the instruction at any other site. -/
theorem covers_beside (h : Planted L mem pages userPages value) {sp : Space} {a : Nat}
    (hsite : L.site sp a) {p : Nat} {pt : ProbePoint} (hp : value p = some pt)
    (hsp : pt.userPid = sp) (hne : pt.addr ≠ a) {b : Nat} (hb : pt.covers b) :
    b < a ∨ a + insnLen L.code sp a ≤ b := by
  have hps := h.site p pt hp
  have hlen := h.len_eq hp
  rw [hsp] at hps hlen
  have hapart := L.apart sp pt.addr a hps hsite hne
  obtain ⟨hlow, hhigh⟩ := hb
  omega

/-- The bytes two points patch are apart. -/
theorem covers_apart (h : Planted L mem pages userPages value) {p q : Nat} {pt qt : ProbePoint}
    (hp : value p = some pt) (hq : value q = some qt) (hne : p ≠ q)
    (hsp : pt.userPid = qt.userPid) :
    pt.addr + pt.oldInstruction.len ≤ qt.addr ∨ qt.addr + qt.oldInstruction.len ≤ pt.addr := by
  have haddr : pt.addr ≠ qt.addr := fun e => hne (h.distinct p q pt qt hp hq hsp e)
  have hsite := h.site p pt hp
  rw [hsp] at hsite
  have hapart := L.apart qt.userPid pt.addr qt.addr hsite (h.site q qt hq) haddr
  rw [h.len_eq hp, h.len_eq hq, hsp]
  exact hapart

/-- Where no point sits, a probe site holds the program's own instruction. -/
theorem read_site (h : Planted L mem pages userPages value) {sp : Space} {a : Nat}
    (hsite : L.site sp a) (hfree : ∀ p pt, value p = some pt → pt.userPid = sp → pt.addr ≠ a) :
    mem.read sp a (insnLen L.code sp a) = L.code.read sp a (insnLen L.code sp a) := by
  apply Memory.read_congr
  intro i hi
  apply h.unpatched sp (a + i) (L.in_text sp a i hsite hi)
  intro p pt hp hsp hcov
  have hbeside := h.covers_beside hsite hp hsp (hfree p pt hp hsp) hcov
  omega

/-- An instruction is found at a probe site only when no point sits there, and it is the
program's own. -/
theorem fetch_site (h : Planted L mem pages userPages value) {sp : Space} {a : Nat}
    {o : OpcodeTy} (hsite : L.site sp a) (hf : fetch mem sp a = .ok o) :
    (∀ p pt, value p = some pt → pt.userPid = sp → pt.addr ≠ a) ∧ fetch L.code sp a = .ok o := by
  have hfree : ∀ p pt, value p = some pt → pt.userPid = sp → pt.addr ≠ a := by
    intro p pt hp hsp ha
    have hread := h.patched p pt hp
    rw [hsp, ha] at hread
    exact fetch_break hread hf
  exact ⟨hfree, by rw [← fetch_congr (h.read_site hsite hfree), hf]⟩

theorem patched_frame (h : Planted L mem pages userPages value) {p : Nat} {pt : ProbePoint}
    (hp : value p = some pt)
    (hm : ∀ b, pt.covers b → L.text pt.userPid b → mem' pt.userPid b = mem pt.userPid b) :
    mem'.read pt.userPid pt.addr pt.oldInstruction.len = pt.oldInstruction.breakBytes := by
  rw [Memory.read_congr, h.patched p pt hp]
  intro i hi
  have hcov : pt.covers (pt.addr + i) := ⟨by omega, by omega⟩
  exact hm _ hcov (h.covers_text hp hcov)

theorem slot_frame (h : Planted L mem pages userPages value) {p : Nat} {pt : ProbePoint}
    (hp : value p = some pt)
    (hm : ∀ b, pt.singleStepAddress ≤ b → b < pt.singleStepAddress + pageSize →
      ¬ L.text none b → mem' none b = mem none b) :
    mem'.read none pt.singleStepAddress pt.instructionSlotLen = pt.slotBytes := by
  have hslot := slotLen_lt pt
  rw [Memory.read_congr, h.slot p pt hp]
  intro i hi
  exact hm _ (by omega) (by omega)
    (h.pages_off _ (h.slot_mem p pt hp) _ (by omega) (by omega))

theorem user_frame (h : Planted L mem pages userPages value) {p : Nat} {pt : ProbePoint}
    (hp : value p = some pt) (hd : pt.dynamicUserPtr ≠ 0)
    (hm : ∀ b, pt.dynamicUserPtr ≤ b → b < pt.dynamicUserPtr + pageSize →
      ¬ L.text pt.userPid b → mem' pt.userPid b = mem pt.userPid b) :
    mem'.read pt.userPid pt.dynamicUserPtr pt.instructionSlotLen = pt.slotBytes := by
  have hslot := slotLen_lt pt
  obtain ⟨-, hmem, hread⟩ := h.user p pt hp hd
  rw [Memory.read_congr, hread]
  intro i hi
  have hhigh : pt.dynamicUserPtr + i < pt.dynamicUserPtr + pageSize := by omega
  exact hm _ (by omega) hhigh (h.users_off _ hmem _ (by simp) hhigh)

/-- The memory after `plant`. -/
def plantMem (mem : Memory) (sp : Space) (a page : Nat) (o : OpcodeTy) : Memory :=
  ((mem.write sp a o.breakBytes).write none page o.bytes).write none (page + o.len) o.breakBytes

theorem plantMem_other {sp sp' : Space} {a page b : Nat} {o : OpcodeTy}
    (hcode : sp' = sp → b < a ∨ a + o.len ≤ b)
    (hpage : sp' = none → b < page ∨ page + pageSize ≤ b) :
    plantMem mem sp a page o sp' b = mem sp' b := by
  have hlen := o.len_le
  unfold pageSize at hpage
  unfold plantMem
  rw [Memory.write_of_outside, Memory.write_of_outside, Memory.write_of_outside]
  · intro hsp
    rw [OpcodeTy.length_breakBytes]
    exact hcode hsp
  · intro hsp
    rw [OpcodeTy.length_bytes]
    rcases hpage hsp with h | h <;> omega
  · intro hsp
    rw [OpcodeTy.length_breakBytes]
    rcases hpage hsp with h | h <;> omega

theorem plantMem_code {sp : Space} {a page : Nat} {o : OpcodeTy}
    (hpage : sp = none → a + o.len ≤ page ∨ page + pageSize ≤ a) :
    (plantMem mem sp a page o).read sp a o.len = o.breakBytes := by
  have hlen := o.len_le
  unfold pageSize at hpage
  unfold plantMem
  rw [Memory.read_write_of_apart, Memory.read_write_of_apart]
  · have hread := mem.read_write sp a o.breakBytes
    rwa [OpcodeTy.length_breakBytes] at hread
  · intro hsp
    rw [OpcodeTy.length_bytes]
    rcases hpage hsp with h | h <;> omega
  · intro hsp
    rw [OpcodeTy.length_breakBytes]
    rcases hpage hsp with h | h <;> omega

theorem plantMem_slot {sp : Space} {a page : Nat} {o : OpcodeTy} :
    (plantMem mem sp a page o).read none page (o.len + o.len) = o.bytes ++ o.breakBytes := by
  unfold plantMem
  rw [Memory.read_add]
  congr 1
  · rw [Memory.read_write_of_apart]
    · have hread := (mem.write sp a o.breakBytes).read_write none page o.bytes
      rwa [OpcodeTy.length_bytes] at hread
    · intro _
      left
      omega
  · have hread := ((mem.write sp a o.breakBytes).write none page o.bytes).read_write none
      (page + o.len) o.breakBytes
    rwa [OpcodeTy.length_breakBytes] at hread

/-- A text byte is in no page that is off text. -/
theorem outside_page {sp : Space} {page b : Nat} (hoff : OffText L sp page) (hb : L.text sp b) :
    b < page ∨ page + pageSize ≤ b := by
  by_contra hin
  exact hoff b (by omega) (by omega) hb

/-- The instruction at a site and a page that is off text do not meet. -/
theorem code_outside_page {sp : Space} {a page : Nat} (hsite : L.site sp a)
    (hoff : OffText L sp page) (hpos : 0 < insnLen L.code sp a) :
    a + insnLen L.code sp a ≤ page ∨ page + pageSize ≤ a := by
  rcases outside_page hoff (L.in_text sp a 0 hsite hpos) with hbelow | habove
  · by_contra hin
    have htext := L.in_text sp a (page - a) hsite (by omega)
    rw [Nat.add_sub_cancel' (by omega)] at htext
    exact hoff page (Nat.le_refl _) (by unfold pageSize; omega) htext
  · exact .inr habove

theorem plant (h : Planted L mem pages userPages value) {sp : Space} {a page new : Nat}
    {o : OpcodeTy} {pt : ProbePoint} (hnew : value new = none) (hsite : L.site sp a)
    (hf : fetch mem sp a = .ok o) (hfresh : ∀ q ∈ pages, Apart page q)
    (hoff : OffText L none page)
    (hpt : pt.addr = a ∧ pt.oldInstruction = o ∧ pt.singleStepAddress = page ∧
      pt.userPid = sp ∧ pt.dynamicUserPtr = 0)
    (hv : ∀ p, value' p = if p = new then some pt else value p) :
    Planted L (plantMem mem sp a page o) (page :: pages) userPages value' := by
  obtain ⟨rfl, rfl, rfl, rfl, hdyn⟩ := hpt
  obtain ⟨hfree, hcode⟩ := h.fetch_site hsite hf
  have hlen : pt.oldInstruction.len = insnLen L.code pt.userPid pt.addr := fetch_len hcode
  have hold : ∀ p qt, value' p = some qt → (p = new ∧ qt = pt) ∨ (p ≠ new ∧ value p = some qt) :=
    fun p qt hp => value_insert hv hp
  have hbeside : ∀ b, ¬ L.text pt.userPid b →
      b < pt.addr ∨ pt.addr + pt.oldInstruction.len ≤ b := by
    intro b hb
    by_contra hin
    exact hb (text_of_covers hsite hlen ⟨by omega, by omega⟩)
  constructor
  case site =>
    intro p qt hp
    rcases hold p qt hp with ⟨-, rfl⟩ | ⟨-, hp⟩
    · exact hsite
    · exact h.site p qt hp
  case found =>
    intro p qt hp
    rcases hold p qt hp with ⟨-, rfl⟩ | ⟨-, hp⟩
    · exact hcode
    · exact h.found p qt hp
  case distinct =>
    intro p q qt rt hp hq hsp haddr
    rcases hold p qt hp with ⟨rfl, rfl⟩ | ⟨-, hp⟩ <;> rcases hold q rt hq with ⟨rfl, rfl⟩ | ⟨-, hq⟩
    · rfl
    · exact absurd haddr.symm (hfree q rt hq hsp.symm)
    · exact absurd haddr (hfree p qt hp hsp)
    · exact h.distinct p q qt rt hp hq hsp haddr
  case patched =>
    intro p qt hp
    rcases hold p qt hp with ⟨-, rfl⟩ | ⟨-, hp⟩
    · apply plantMem_code
      intro hsp
      have hpos := qt.oldInstruction.len_pos
      rw [hlen] at hpos ⊢
      rw [hsp] at hsite hpos ⊢
      exact code_outside_page hsite hoff hpos
    · refine h.patched_frame hp fun b hb ht => plantMem_other ?_ ?_
      · intro hsp
        rw [hlen]
        exact h.covers_beside hsite hp hsp (hfree p qt hp hsp) hb
      · intro hsp
        rw [hsp] at ht
        exact outside_page hoff ht
  case slot =>
    intro p qt hp
    rcases hold p qt hp with ⟨-, rfl⟩ | ⟨-, hp⟩
    · rw [ProbePoint.instructionSlotLen_eq]
      exact plantMem_slot
    · refine h.slot_frame hp fun b hlow hhigh hb => plantMem_other ?_ ?_
      · intro hsp
        rw [hsp] at hb
        exact hbeside b hb
      · intro _
        have hap := hfresh _ (h.slot_mem p qt hp)
        unfold Apart at hap
        omega
  case slot_mem =>
    intro p qt hp
    rcases hold p qt hp with ⟨-, rfl⟩ | ⟨-, hp⟩
    · exact List.mem_cons_self
    · exact List.mem_cons_of_mem _ (h.slot_mem p qt hp)
  case slots_apart =>
    intro p q qt rt hp hq hne
    rcases hold p qt hp with ⟨rfl, rfl⟩ | ⟨-, hp⟩ <;> rcases hold q rt hq with ⟨rfl, rfl⟩ | ⟨-, hq⟩
    · exact absurd rfl hne
    · exact hfresh _ (h.slot_mem q rt hq)
    · exact (hfresh _ (h.slot_mem p qt hp)).symm
    · exact h.slots_apart p q qt rt hp hq hne
  case pages_off =>
    intro q hq
    rcases List.mem_cons.mp hq with rfl | hq
    · exact hoff
    · exact h.pages_off q hq
  case user =>
    intro p qt hp hd
    rcases hold p qt hp with ⟨-, rfl⟩ | ⟨-, hp⟩
    · exact absurd hdyn hd
    · obtain ⟨hpid, hmem, -⟩ := h.user p qt hp hd
      refine ⟨hpid, hmem, h.user_frame hp hd fun b hlow hhigh hb => plantMem_other ?_ ?_⟩
      · intro hsp
        rw [hsp] at hb
        exact hbeside b hb
      · intro hsp
        exact absurd hsp hpid
  case users_apart =>
    intro p q qt rt hp hq hne hd hd' hsp
    rcases hold p qt hp with ⟨-, rfl⟩ | ⟨-, hp⟩
    · exact absurd hdyn hd
    · rcases hold q rt hq with ⟨-, rfl⟩ | ⟨-, hq⟩
      · exact absurd hdyn hd'
      · exact h.users_apart p q qt rt hp hq hne hd hd' hsp
  case users_off => exact h.users_off
  case unpatched =>
    intro sp b hb hfreeb
    rw [plantMem_other]
    · apply h.unpatched sp b hb
      intro p qt hp
      apply hfreeb p qt
      have hpn : p ≠ new := by
        rintro rfl
        rw [hnew] at hp
        cases hp
      rw [hv p, if_neg hpn]
      exact hp
    · intro hsp
      have hcovb := hfreeb new pt (by rw [hv new, if_pos rfl]) hsp.symm
      unfold ProbePoint.covers at hcovb
      omega
    · intro hsp
      subst hsp
      exact outside_page hoff hb

/-- The last reference to a point goes: its instruction is written back and its pages are
freed. -/
theorem release (h : Planted L mem pages userPages value) {p : Nat} {pt : ProbePoint}
    (hp : value p = some pt) (hv : ∀ q, value' q = if q = p then none else value q)
    (hu : userPages' = if pt.dynamicUserPtr ≠ 0 then
      userPages.erase (pt.userPid, pt.dynamicUserPtr) else userPages) :
    Planted L (mem.write pt.userPid pt.addr pt.oldInstruction.bytes)
      (pages.erase pt.singleStepAddress) userPages' value' := by
  have hold : ∀ q qt, value' q = some qt → q ≠ p ∧ value q = some qt :=
    fun q qt hq => value_remove hv hq
  have hother : ∀ sp b, (sp = pt.userPid → ¬ pt.covers b) →
      mem.write pt.userPid pt.addr pt.oldInstruction.bytes sp b = mem sp b := by
    intro sp b hb
    apply Memory.write_of_outside
    intro hsp
    have hcov := hb hsp
    unfold ProbePoint.covers at hcov
    rw [OpcodeTy.length_bytes]
    omega
  have hpages : ∀ q ∈ pages.erase pt.singleStepAddress, q ∈ pages := fun q hq =>
    List.mem_of_mem_erase hq
  have husers : ∀ e ∈ userPages', e ∈ userPages := by
    intro e he
    rw [hu] at he
    split at he
    · exact List.mem_of_mem_erase he
    · exact he
  have hoffText : ∀ sp b, ¬ L.text sp b →
      mem.write pt.userPid pt.addr pt.oldInstruction.bytes sp b = mem sp b := by
    intro sp b hb
    apply hother
    rintro rfl hcov
    exact hb (h.covers_text hp hcov)
  constructor
  case site => exact fun q qt hq => h.site q qt (hold q qt hq).2
  case found => exact fun q qt hq => h.found q qt (hold q qt hq).2
  case distinct =>
    intro q r qt rt hq hr
    exact h.distinct q r qt rt (hold q qt hq).2 (hold r rt hr).2
  case patched =>
    intro q qt hq
    obtain ⟨hne, hq⟩ := hold q qt hq
    refine h.patched_frame hq fun b hb _ => hother _ _ ?_
    intro hsp hcov
    have hap := h.covers_apart hq hp hne hsp
    unfold ProbePoint.covers at hb hcov
    omega
  case slot =>
    intro q qt hq
    exact h.slot_frame (hold q qt hq).2 fun b _ _ hb => hoffText none b hb
  case slot_mem =>
    intro q qt hq
    obtain ⟨hne, hq⟩ := hold q qt hq
    exact (List.mem_erase_of_ne (h.slots_apart q p qt pt hq hp hne).ne).mpr (h.slot_mem q qt hq)
  case slots_apart =>
    intro q r qt rt hq hr
    exact h.slots_apart q r qt rt (hold q qt hq).2 (hold r rt hr).2
  case pages_off => exact fun q hq => h.pages_off q (hpages q hq)
  case user =>
    intro q qt hq hd
    obtain ⟨hne, hq⟩ := hold q qt hq
    obtain ⟨hpid, hmem, -⟩ := h.user q qt hq hd
    refine ⟨hpid, ?_, h.user_frame hq hd fun b _ _ hb => hoffText _ b hb⟩
    rw [hu]
    split
    · rename_i hd'
      have hpair : (qt.userPid, qt.dynamicUserPtr) ≠ (pt.userPid, pt.dynamicUserPtr) := by
        intro heq
        rw [Prod.mk.injEq] at heq
        exact (h.users_apart q p qt pt hq hp hne hd hd' heq.1).ne heq.2
      exact (List.mem_erase_of_ne hpair).mpr hmem
    · exact hmem
  case users_apart =>
    intro q r qt rt hq hr
    exact h.users_apart q r qt rt (hold q qt hq).2 (hold r rt hr).2
  case users_off => exact fun e he => h.users_off e (husers e he)
  case unpatched =>
    intro sp b hb hfree
    by_cases hcov : sp = pt.userPid ∧ pt.covers b
    · obtain ⟨rfl, hcov⟩ := hcov
      obtain ⟨i, rfl⟩ := Nat.exists_eq_add_of_le hcov.1
      have hi : i < pt.oldInstruction.len := by
        have h2 := hcov.2
        omega
      rw [Memory.write_inside _ _ (by rw [OpcodeTy.length_bytes]; exact hi)]
      exact (Memory.apply_of_read (fetch_ok (h.found p pt hp)).1 hi).symm
    · rw [hother sp b fun hsp hc => hcov ⟨hsp, hc⟩]
      apply h.unpatched sp b hb
      intro q qt hq hsp hc
      by_cases hqp : q = p
      · subst hqp
        rw [hp] at hq
        cases hq
        exact hcov ⟨hsp.symm, hc⟩
      · exact hfree q qt (by rw [hv q, if_neg hqp]; exact hq) hsp hc

/-- A fresh page of a process is filled. -/
theorem allocUser (h : Planted L mem pages userPages value) {sp : Space} {ptr : Nat}
    {bs : List UInt8} (hsp : sp ≠ none) (hlen : bs.length ≤ pageSize)
    (hfresh : ∀ q, (sp, q) ∈ userPages → Apart ptr q) (hoff : OffText L sp ptr) :
    Planted L (mem.write sp ptr bs) pages ((sp, ptr) :: userPages) value := by
  have hother : ∀ sp' b, (sp' = sp → b < ptr ∨ ptr + pageSize ≤ b) →
      mem.write sp ptr bs sp' b = mem sp' b := by
    intro sp' b hb
    apply Memory.write_of_outside
    intro hsp'
    rcases hb hsp' with hb | hb
    · exact .inl hb
    · right
      omega
  have htext : ∀ sp' b, L.text sp' b → mem.write sp ptr bs sp' b = mem sp' b := by
    intro sp' b hb
    apply hother
    rintro rfl
    exact outside_page hoff hb
  constructor
  case site => exact h.site
  case found => exact h.found
  case distinct => exact h.distinct
  case patched => exact fun q qt hq => h.patched_frame hq fun b _ ht => htext _ b ht
  case slot =>
    intro q qt hq
    refine h.slot_frame hq fun b _ _ _ => hother none b ?_
    intro hnone
    exact absurd hnone.symm hsp
  case slot_mem => exact h.slot_mem
  case slots_apart => exact h.slots_apart
  case pages_off => exact h.pages_off
  case user =>
    intro q qt hq hd
    obtain ⟨hpid, hmem, -⟩ := h.user q qt hq hd
    refine ⟨hpid, List.mem_cons_of_mem _ hmem,
      h.user_frame hq hd fun b hlow hhigh _ => hother _ b ?_⟩
    intro hpid'
    rw [hpid'] at hmem
    have hap := hfresh _ hmem
    unfold Apart at hap
    omega
  case users_apart => exact h.users_apart
  case users_off =>
    intro e he
    rcases List.mem_cons.mp he with rfl | he
    · exact hoff
    · exact h.users_off e he
  case unpatched =>
    intro sp' b hb hfree
    rw [htext sp' b hb]
    exact h.unpatched sp' b hb hfree

/-- A point is told of a page that holds a copy of its slot. -/
theorem setUser (h : Planted L mem pages userPages value) {p ptr : Nat} {pt : ProbePoint}
    (hp : value p = some pt) (hpid : pt.userPid ≠ none)
    (hmem : (pt.userPid, ptr) ∈ userPages)
    (hread : mem.read pt.userPid ptr pt.instructionSlotLen = pt.slotBytes)
    (hapart : ∀ q qt, value q = some qt → q ≠ p → qt.dynamicUserPtr ≠ 0 →
      qt.userPid = pt.userPid → Apart ptr qt.dynamicUserPtr)
    (hv : ∀ q, value' q = if q = p then some (pt.setDynamicUserPtr ptr) else value q) :
    Planted L mem pages userPages value' := by
  have hold : ∀ q qt, value' q = some qt →
      (q = p ∧ qt = pt.setDynamicUserPtr ptr) ∨ (q ≠ p ∧ value q = some qt) :=
    fun q qt hq => value_insert hv hq
  -- but for its page, each live point is as it was
  have hback : ∀ q qt, value' q = some qt → ∃ rt, value q = some rt ∧ rt.addr = qt.addr ∧
      rt.userPid = qt.userPid ∧ rt.oldInstruction = qt.oldInstruction ∧
      rt.oldInstructionPtr = qt.oldInstructionPtr := by
    intro q qt hq
    rcases hold q qt hq with ⟨rfl, rfl⟩ | ⟨-, hq⟩
    · exact ⟨pt, hp, rfl, rfl, rfl, rfl⟩
    · exact ⟨qt, hq, rfl, rfl, rfl, rfl⟩
  constructor
  case site =>
    intro q qt hq
    obtain ⟨rt, hr, ha, hs, -, -⟩ := hback q qt hq
    rw [← ha, ← hs]
    exact h.site q rt hr
  case found =>
    intro q qt hq
    obtain ⟨rt, hr, ha, hs, ho, -⟩ := hback q qt hq
    rw [← ha, ← hs, ← ho]
    exact h.found q rt hr
  case distinct =>
    intro q r qt rt hq hr hsp haddr
    obtain ⟨qt', hq', hqa, hqs, -, -⟩ := hback q qt hq
    obtain ⟨rt', hr', hra, hrs, -, -⟩ := hback r rt hr
    exact h.distinct q r qt' rt' hq' hr' (by rw [hqs, hrs, hsp]) (by rw [hqa, hra, haddr])
  case patched =>
    intro q qt hq
    obtain ⟨rt, hr, ha, hs, ho, -⟩ := hback q qt hq
    rw [← ha, ← hs, ← ho]
    exact h.patched q rt hr
  case slot =>
    intro q qt hq
    obtain ⟨rt, hr, -, -, ho, hptr⟩ := hback q qt hq
    have hslot := h.slot q rt hr
    unfold ProbePoint.singleStepAddress ProbePoint.instructionSlotLen ProbePoint.slotBytes
      at hslot ⊢
    rw [← ho, ← hptr]
    exact hslot
  case slot_mem =>
    intro q qt hq
    obtain ⟨rt, hr, -, -, -, hptr⟩ := hback q qt hq
    have hpage := h.slot_mem q rt hr
    unfold ProbePoint.singleStepAddress at hpage ⊢
    rwa [← hptr]
  case slots_apart =>
    intro q r qt rt hq hr hne
    obtain ⟨qt', hq', -, -, -, hqp⟩ := hback q qt hq
    obtain ⟨rt', hr', -, -, -, hrp⟩ := hback r rt hr
    have hap := h.slots_apart q r qt' rt' hq' hr' hne
    unfold ProbePoint.singleStepAddress at hap ⊢
    rwa [← hqp, ← hrp]
  case pages_off => exact h.pages_off
  case user =>
    intro q qt hq hd
    rcases hold q qt hq with ⟨rfl, rfl⟩ | ⟨-, hq⟩
    · exact ⟨hpid, hmem, hread⟩
    · exact h.user q qt hq hd
  case users_apart =>
    intro q r qt rt hq hr hne hd hd' hsp
    rcases hold q qt hq with ⟨rfl, rfl⟩ | ⟨hqp, hq⟩ <;>
      rcases hold r rt hr with ⟨rfl, rfl⟩ | ⟨hrp, hr⟩
    · exact absurd rfl hne
    · exact hapart r rt hr hrp hd' hsp.symm
    · exact (hapart q qt hq hqp hd hsp).symm
    · exact h.users_apart q r qt rt hq hr hne hd hd' hsp
  case users_off => exact h.users_off
  case unpatched =>
    intro sp b hb hfree
    apply h.unpatched sp b hb
    intro q qt hq hsp hc
    by_cases hqp : q = p
    · subst hqp
      rw [hp] at hq
      cases hq
      exact hfree q (pt.setDynamicUserPtr ptr) (by rw [hv q, if_pos rfl]) hsp hc
    · exact hfree q qt (by rw [hv q, if_neg hqp]; exact hq) hsp hc

end Planted

end ExtKtrace.Kprobe
