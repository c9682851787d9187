import ExtKtrace.Bpf.Helpers
import ExtKtrace.Lib.PrintfFormat
import ExtKtrace.Lib.Utf8

/-!
# Formatted output of a program

`trace_printf` is given pointers to the arguments, and reads as many of them as a scan of the
format finds conversions.
-/

namespace ExtKtrace.Bpf
set_option autoImplicit false

open PrintfFormat (Piece Conversion)

def flagChars : List Char := "-+#0 .0123456789lhL*".toList

def specifierChars : List Char := "cdieEfFgGosuxXpn".toList

def extractFormatSpecifiers : List Char → Nat
  | [] => 0
  | c :: rest =>
    if c = '%' then
      if rest.head? = some '%' then extractFormatSpecifiers rest.tail
      else
        let spec := rest.dropWhile (· ∈ flagChars)
        if spec.head?.any (· ∈ specifierChars) then extractFormatSpecifiers spec.tail + 1
        else extractFormatSpecifiers spec
    else extractFormatSpecifiers rest
termination_by chars => chars.length
decreasing_by
  · simp only [List.length_tail, List.length_cons]
    omega
  · have hlen := (List.dropWhile_sublist (l := rest) fun x => decide (x ∈ flagChars)).length_le
    simp only [List.length_tail, List.length_cons]
    omega
  · have hlen := (List.dropWhile_sublist (l := rest) fun x => decide (x ∈ flagChars)).length_le
    exact Nat.lt_succ_of_le hlen
  · simp

section TracePrintf
-- `printf_compat::format`: the number of bytes written for a format and its arguments.
variable (format : UInt64 → UInt64 × UInt64 × UInt64 → Int32)

def printf (str : UInt64) (args : UInt64 × UInt64 × UInt64) : Int32 := format str args + 1

def Memory.loadU64 (memory : Memory) (ptr : UInt64) : UInt64 :=
  .ofNat (Endian.leNat (memory.slice ptr 8))

/-- `(ptr as *const u64).read()`; the state is the list of the pointers read. -/
def readU64 (memory : Memory) (ptr : UInt64) : Call Empty (List UInt64) UInt64 := do
  Call.update (· ++ [ptr])
  return memory.loadU64 ptr

def tracePrintf (memory : Memory) (fmtPtr fmtLen arg3 arg4 arg5 : UInt64) :
    Call Empty (List UInt64) Int64 := do
  let fmtStr ← Call.orPanic (Utf8.decode (memory.slice fmtPtr fmtLen.toNat))
  match extractFormatSpecifiers fmtStr with
  | 0 => return (printf format fmtPtr (0, 0, 0)).toInt64
  | 1 => return (printf format fmtPtr (← readU64 memory arg3, 0, 0)).toInt64
  | 2 => return (printf format fmtPtr (← readU64 memory arg3, ← readU64 memory arg4, 0)).toInt64
  | 3 =>
    return (printf format fmtPtr
      (← readU64 memory arg3, ← readU64 memory arg4, ← readU64 memory arg5)).toInt64
  | _ => return -1

end TracePrintf

theorem extractFormatSpecifiers_literal {c : Char} (h : c ≠ '%') (rest : List Char) :
    extractFormatSpecifiers (c :: rest) = extractFormatSpecifiers rest := by
  rw [extractFormatSpecifiers, if_neg h]

theorem extractFormatSpecifiers_percent (rest : List Char) :
    extractFormatSpecifiers ('%' :: '%' :: rest) = extractFormatSpecifiers rest := by
  rw [extractFormatSpecifiers, if_pos rfl, List.head?_cons, if_pos rfl, List.tail_cons]

theorem not_mem_flagChars {c : Char} (h : c ∈ specifierChars) : c ∉ flagChars := by
  have hall : specifierChars.all (· ∉ flagChars) = true := by decide
  exact of_decide_eq_true (List.all_eq_true.mp hall c h)

theorem extractFormatSpecifiers_conversion (c : Conversion specifierChars) (rest : List Char) :
    extractFormatSpecifiers ((Piece.conversion c).text ++ rest) =
      extractFormatSpecifiers rest + 1 := by
  have hmodifiers : ∀ ch ∈ c.modifiers, ch ∈ flagChars := by
    intro ch hch
    have hall : PrintfFormat.modifierChars.all (· ∈ flagChars) = true := by decide
    exact of_decide_eq_true (List.all_eq_true.mp hall ch (Conversion.mem_modifiers hch))
  have hletter := c.letter.property
  have hhead : (c.modifiers ++ c.letter.val :: rest).head? ≠ some '%' := by
    cases hmod : c.modifiers with
    | nil =>
      intro h
      rw [Option.some.inj h] at hletter
      revert hletter
      decide
    | cons ch modifiers =>
      intro h
      have hch := hmodifiers ch (hmod ▸ List.mem_cons_self)
      rw [Option.some.inj h] at hch
      revert hch
      decide
  have hdrop : (c.modifiers ++ c.letter.val :: rest).dropWhile (· ∈ flagChars) =
      c.letter.val :: rest := by
    rw [List.dropWhile_append_of_pos (by simpa using hmodifiers),
      List.dropWhile_cons_of_neg (by simpa using not_mem_flagChars hletter)]
  have htext : (Piece.conversion c).text ++ rest = '%' :: (c.modifiers ++ c.letter.val :: rest) := by
    simp [Piece.text]
  rw [htext, extractFormatSpecifiers, if_pos rfl, if_neg hhead]
  simp only [hdrop]
  rw [List.head?_cons, List.tail_cons, if_pos (by simpa using hletter)]

/-- The scan counts the conversions. -/
theorem extractFormatSpecifiers_text (pieces : List (Piece specifierChars)) (rest : List Char) :
    extractFormatSpecifiers (PrintfFormat.text pieces ++ rest) =
      PrintfFormat.conversions pieces + extractFormatSpecifiers rest := by
  induction pieces with
  | nil => exact (Nat.zero_add _).symm
  | cons piece pieces ih =>
    have htext : PrintfFormat.text (piece :: pieces) ++ rest =
        piece.text ++ (PrintfFormat.text pieces ++ rest) := by
      rw [PrintfFormat.text, List.flatMap_cons, List.append_assoc]
      rfl
    have hcount : PrintfFormat.conversions (piece :: pieces) =
        piece.conversions + PrintfFormat.conversions pieces := List.sum_cons
    rw [htext, hcount]
    cases piece with
    | literal c =>
      rw [Piece.text, List.singleton_append, extractFormatSpecifiers_literal c.property.1, ih]
      simp only [Piece.conversions, Nat.zero_add]
    | percent =>
      rw [Piece.text, List.cons_append, List.singleton_append, extractFormatSpecifiers_percent, ih]
      simp only [Piece.conversions, Nat.zero_add]
    | conversion c =>
      rw [extractFormatSpecifiers_conversion, ih]
      simp only [Piece.conversions]
      omega

theorem extractFormatSpecifiers_nuls (n : Nat) :
    extractFormatSpecifiers (List.replicate n '\x00') = 0 := by
  induction n with
  | zero => rw [List.replicate_zero, extractFormatSpecifiers]
  | succ n ih => rw [List.replicate_succ, extractFormatSpecifiers_literal (by decide), ih]

section
variable (format : UInt64 → UInt64 × UInt64 × UInt64 → Int32)

/-- The values of the first `n` arguments, and zeros. -/
def passed (memory : Memory) (n : Nat) (arg3 arg4 arg5 : UInt64) : UInt64 × UInt64 × UInt64 :=
  (if 0 < n then memory.loadU64 arg3 else 0, if 1 < n then memory.loadU64 arg4 else 0,
    if 2 < n then memory.loadU64 arg5 else 0)

/-- The outcome for a format that takes `n` arguments: their pointers are read and no others, and
more than three are refused. -/
def readsArguments (memory : Memory) (fmtPtr : UInt64) (n : Nat) (arg3 arg4 arg5 : UInt64)
    (read : List UInt64) : Option (Except Empty Int64 × List UInt64) :=
  if n ≤ 3 then
    some (.ok (printf format fmtPtr (passed memory n arg3 arg4 arg5)).toInt64,
      read ++ [arg3, arg4, arg5].take n)
  else some (.ok (-1), read)

variable {format}

theorem exec_tracePrintf {memory : Memory} {fmtPtr fmtLen : UInt64} {fmtStr : List Char}
    (h : memory.slice fmtPtr fmtLen.toNat = Utf8.encode fmtStr) (arg3 arg4 arg5 : UInt64)
    (read : List UInt64) :
    (tracePrintf format memory fmtPtr fmtLen arg3 arg4 arg5).exec read =
      readsArguments format memory fmtPtr (extractFormatSpecifiers fmtStr) arg3 arg4 arg5 read := by
  unfold tracePrintf readsArguments
  rw [h, Utf8.decode_encode, Call.exec_bind_ok (Call.exec_orPanic _ _)]
  match extractFormatSpecifiers fmtStr with
  | 0 => exact congrArg (fun read => some (_, read)) (List.append_nil read).symm
  | 1 => rfl
  | 2 => exact congrArg (fun read => some (_, read)) (List.append_assoc read [arg3] [arg4])
  | 3 =>
    have hread : read ++ [arg3] ++ [arg4] ++ [arg5] = read ++ [arg3, arg4, arg5] := by simp
    exact congrArg (fun read => some (_, read)) hread
  | n + 4 =>
    rw [if_neg (by omega)]
    rfl

/-- The scan finds as many conversions as `printf` takes arguments, and the pointers read are those
of the arguments, exactly if no width or precision is a `*`. -/
theorem trace_printf_arguments_iff (pieces : List (Piece specifierChars)) (nuls : Nat) :
    (extractFormatSpecifiers (PrintfFormat.text pieces ++ List.replicate nuls '\x00') =
        PrintfFormat.arguments pieces ∧
      ∀ format memory fmtPtr fmtLen arg3 arg4 arg5 read,
        memory.slice fmtPtr fmtLen.toNat =
          Utf8.encode (PrintfFormat.text pieces ++ List.replicate nuls '\x00') →
        (tracePrintf format memory fmtPtr fmtLen arg3 arg4 arg5).exec read =
          readsArguments format memory fmtPtr (PrintfFormat.arguments pieces) arg3 arg4 arg5 read) ↔
      ∀ c, Piece.conversion c ∈ pieces → ¬ c.HasStar := by
  have hcount : extractFormatSpecifiers
      (PrintfFormat.text pieces ++ List.replicate nuls '\x00') =
        PrintfFormat.conversions pieces := by
    rw [extractFormatSpecifiers_text, extractFormatSpecifiers_nuls, Nat.add_zero]
  rw [← PrintfFormat.conversions_eq_arguments_iff, hcount]
  constructor
  · exact And.left
  · intro h
    refine ⟨h, fun format memory fmtPtr fmtLen arg3 arg4 arg5 read hslice => ?_⟩
    rw [exec_tracePrintf hslice, hcount, h]

/-- `%*d` takes a width and a number, and one pointer is read. -/
theorem trace_printf_star_uncounted :
    ∃ pieces : List (Piece specifierChars), PrintfFormat.text pieces = "%*d".toList ∧
      extractFormatSpecifiers "%*d".toList = 1 ∧ PrintfFormat.arguments pieces = 2 := by
  refine ⟨[.conversion ⟨[], .star, none, .none, ⟨'d', by decide⟩⟩], by decide, ?_, by decide⟩
  decide +kernel

end

end ExtKtrace.Bpf
