import ExtKtrace.Ddebug.Pattern

/-!
# Queries of the control file

A query is cut into command lines of tokens, and each line is read as selectors around one flag
operation.
-/

namespace ExtKtrace.Ddebug
set_option autoImplicit false

def FLAG_PRINT : UInt8 := (1 : UInt8) <<< 0
def FLAG_THREAD : UInt8 := (1 : UInt8) <<< 1
def FLAG_MODULE : UInt8 := (1 : UInt8) <<< 2
def FLAG_FUNC : UInt8 := (1 : UInt8) <<< 3
def FLAG_SOURCE : UInt8 := (1 : UInt8) <<< 4
def FLAG_LINE : UInt8 := (1 : UInt8) <<< 5

def flagMaskFor (chr : Char) : Option UInt8 :=
  match chr with
  | 'p' => some FLAG_PRINT
  | 't' => some FLAG_THREAD
  | 'm' => some FLAG_MODULE
  | 'f' => some FLAG_FUNC
  | 's' => some FLAG_SOURCE
  | 'l' => some FLAG_LINE
  | _ => none

structure Error where
  msg : Str
  deriving DecidableEq

/-- A line range is made only from a start that is not behind its end. -/
structure LineRange where
  start : UInt32
  stop : UInt32
  le : start ≤ stop

namespace LineRange

def contains (range : LineRange) (line : UInt32) : Bool := range.start ≤ line && line ≤ range.stop

end LineRange

inductive Selector where
  | file (pattern : Str)
  | func (pattern : Str)
  | module (pattern : Str)
  | line (range : LineRange)
  | format (pattern : Str)

inductive FlagOpKind where
  | add
  | remove
  | replace

structure FlagOp where
  kind : FlagOpKind
  mask : UInt8

def FlagOp.apply (op : FlagOp) (current : UInt8) : UInt8 :=
  match op.kind with
  | .add => current ||| op.mask
  | .remove => current &&& ~~~op.mask
  | .replace => op.mask

/-- What each operation does to the flag of a bit. -/
theorem FlagOp.getLsbD_apply (op : FlagOp) (current : UInt8) (i : Nat) :
    (op.apply current).toBitVec.getLsbD i = match op.kind with
      | .add => current.toBitVec.getLsbD i || op.mask.toBitVec.getLsbD i
      | .remove => current.toBitVec.getLsbD i && !op.mask.toBitVec.getLsbD i
      | .replace => op.mask.toBitVec.getLsbD i := by
  unfold FlagOp.apply
  cases op.kind with
  | add => rw [UInt8.toBitVec_or, BitVec.getLsbD_or]
  | remove =>
    rw [UInt8.toBitVec_and, UInt8.toBitVec_not, BitVec.getLsbD_and, BitVec.getLsbD_not]
    by_cases hi : i < 8
    · simp [hi]
    · rw [BitVec.getLsbD_of_ge _ _ (Nat.le_of_not_lt hi), Bool.false_and, Bool.false_and]
  | replace => rfl

structure Command where
  selectors : List Selector
  operation : FlagOp

def backslash : Char := Char.ofNat 92
def doubleQuote : Char := Char.ofNat 34
def singleQuote : Char := Char.ofNat 39
def newline : Char := Char.ofNat 10

/-- `char::is_whitespace`. -/
def isWhitespace (chr : Char) : Bool :=
  let n := chr.toNat
  (9 ≤ n && n ≤ 13) || n = 0x20 || n = 0x85 || n = 0xA0 || n = 0x1680 ||
    (0x2000 ≤ n && n ≤ 0x200A) || n = 0x2028 || n = 0x2029 || n = 0x202F || n = 0x205F ||
    n = 0x3000

/-- The variables of the loop of `tokenize`. -/
structure Tokenizer where
  commands : List (List Str)
  current : List Str
  token : Str
  quote : Option Char
  escape : Bool

namespace Tokenizer

def start : Tokenizer := ⟨[], [], [], none, false⟩

def push (t : Tokenizer) (chr : Char) : Tokenizer := { t with token := t.token ++ [chr] }

def finishToken (t : Tokenizer) : Tokenizer :=
  if t.token = [] then t else { t with current := t.current ++ [t.token], token := [] }

def finishCommand (t : Tokenizer) : Tokenizer :=
  if t.current = [] then t else { t with commands := t.commands ++ [t.current], current := [] }

def step (t : Tokenizer) (chr : Char) : Tokenizer :=
  if t.escape then { t.push chr with escape := false }
  else
    match t.quote with
    | some quoted =>
      if chr = backslash then { t with escape := true }
      else if chr = quoted then { t with quote := none }
      else t.push chr
    | none =>
      if chr = backslash then { t with escape := true }
      else if chr = doubleQuote ∨ chr = singleQuote then { t with quote := some chr }
      else if chr = ';' ∨ chr = newline then t.finishToken.finishCommand
      else if isWhitespace chr then t.finishToken
      else t.push chr

end Tokenizer

def tokenize (input : Str) : Except Error (List (List Str)) :=
  let t := input.foldl Tokenizer.step Tokenizer.start
  if t.quote.isSome then
    .error ⟨"unterminated quoted string in dynamic debug command".toList⟩
  else
    let t := if t.escape then t.push backslash else t
    .ok t.finishToken.finishCommand.commands

def quoted (text : Str) : Str := "`".toList ++ text ++ "`".toList

/-- The loop of `u32::from_str` behind a sign. -/
def digitsU32 : Nat → Str → Option Nat
  | n, [] => some n
  | n, c :: rest =>
    if c.isDigit then
      let next := n * 10 + (c.toNat - 48)
      if next < 2 ^ 32 then digitsU32 next rest else none
    else none

/-- `str::parse::<u32>`. -/
def parseDigits (text : Str) : Option UInt32 :=
  match text with
  | [] => none
  | c :: rest =>
    if c = '+' then if rest = [] then none else (digitsU32 0 rest).map UInt32.ofNat
    else (digitsU32 0 text).map UInt32.ofNat

def parseU32 (text : Str) (what : String) : Except Error UInt32 :=
  match parseDigits text with
  | some n => .ok n
  | none => .error ⟨"invalid ".toList ++ what.toList ++ " ".toList ++ quoted text⟩

/-- `str::split_once`. -/
def splitOnce (sep : Char) : Str → Option (Str × Str)
  | [] => none
  | c :: rest =>
    if c = sep then some ([], rest)
    else (splitOnce sep rest).map fun parts => (c :: parts.1, parts.2)

def parseLineRange (text : Str) : Except Error LineRange :=
  match splitOnce '-' text with
  | some (start, stop) => do
    let start ← parseU32 start "line range start"
    let stop ← parseU32 stop "line range end"
    if h : start ≤ stop then return ⟨start, stop, h⟩
    else throw ⟨"invalid line range ".toList ++ quoted text ++
      ": start is greater than end".toList⟩
  | none => do
    let line ← parseU32 text "line"
    return ⟨line, line, UInt32.le_refl line⟩

def isFlagToken (token : Str) : Bool :=
  match asBytes token with
  | head :: _ => head = 0x2B || head = 0x2D || head = 0x3D
  | [] => false

/-- The flags of an operation, one character each. -/
def parseMask (token : Str) : UInt8 → Str → Except Error UInt8
  | mask, [] => .ok mask
  | mask, chr :: rest =>
    if chr = '_' then
      .error ⟨"underscore is only valid in the exact form `=_`, got ".toList ++ quoted token⟩
    else
      match flagMaskFor chr with
      | none => .error ⟨"unknown dynamic debug flag ".toList ++ quoted [chr] ++ " in ".toList ++
          quoted token⟩
      | some flag => parseMask token (mask ||| flag) rest

/-- What parsing ends in: `none` where the code has `unreachable!()`. -/
abbrev Parse := ExceptT Error Option

namespace Parse
variable {α : Type}

def fail (msg : Str) : Parse α := (some (.error ⟨msg⟩) : Option (Except Error α))

def ofExcept (r : Except Error α) : Parse α := (some r : Option (Except Error α))

def unreachable : Parse α := (none : Option (Except Error α))

end Parse

def parseFlagOp (token : Str) : Parse FlagOp :=
  match token with
  | [] => .fail "empty flag operation".toList
  | head :: rest =>
    if head = '=' ∧ rest = ['_'] then return ⟨.replace, 0⟩
    else if rest = [] then
      .fail ("flag operation ".toList ++ quoted token ++ " does not specify any flags".toList)
    else do
      let mask ← Parse.ofExcept (parseMask token 0 rest)
      if head = '+' then return ⟨.add, mask⟩
      else if head = '-' then return ⟨.remove, mask⟩
      else if head = '=' then return ⟨.replace, mask⟩
      else .unreachable

/-- The selector that a keyword makes of its value. -/
def selectorFor (keyword : Str) : Option (Str → Except Error Selector) :=
  if keyword = "file".toList then some fun value => .ok (.file value)
  else if keyword = "func".toList then some fun value => .ok (.func value)
  else if keyword = "module".toList then some fun value => .ok (.module value)
  else if keyword = "line".toList then some fun value => (parseLineRange value).map Selector.line
  else if keyword = "format".toList then some fun value => .ok (.format value)
  else none

/-- The loop of `parse_command` over the tokens that are left. -/
def parseTokens (selectors : List Selector) (operation : Option FlagOp) :
    List Str → Parse Command
  | [] =>
    match operation with
    | some operation => return ⟨selectors, operation⟩
    | none => .fail "missing flag operation such as `+p`".toList
  | token :: rest =>
    if isFlagToken token then
      if operation.isSome then .fail "multiple flag operations in one command".toList
      else do
        let operation ← parseFlagOp token
        parseTokens selectors (some operation) rest
    else
      match selectorFor token with
      | none => .fail ("unknown dynamic debug token ".toList ++ quoted token)
      | some make =>
        match rest with
        | [] => .fail ("missing value after ".toList ++ quoted token)
        | value :: rest => do
          let selector ← Parse.ofExcept (make value)
          parseTokens (selectors ++ [selector]) operation rest

def parseCommand (tokens : List Str) : Parse Command := parseTokens [] none tokens

def parseLines : List (List Str) → Parse (List Command)
  | [] => return []
  | tokens :: lines => do
    let command ← parseCommand tokens
    let commands ← parseLines lines
    return command :: commands

def parseCommands (input : Str) : Parse (List Command) := do
  let tokenLines ← Parse.ofExcept (tokenize input)
  if tokenLines = [] then .fail "empty dynamic debug command".toList
  else parseLines tokenLines

end ExtKtrace.Ddebug
