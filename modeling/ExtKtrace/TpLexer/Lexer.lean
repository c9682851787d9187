import ExtKtrace.Lib.Call
import ExtKtrace.TpLexer.Literal

/-!
# The lexer

A panic is a slice of the input that is out of range or splits a character.
-/

namespace ExtKtrace.TpLexer
set_option autoImplicit false

abbrev doubleQuote : UInt8 := 0x22

abbrev singleQuote : UInt8 := 0x27

abbrev backslash : UInt8 := 0x5C

structure Lexer where
  input : Str
  pos : Nat

def isAsciiWhitespace (b : UInt8) : Bool := b = 0x20 || b = 0x09 || b = 0x0A || b = 0x0C || b = 0x0D

def isAsciiDigit (b : UInt8) : Bool := byte '0' ≤ b && b ≤ byte '9'

def isAsciiHexdigit (b : UInt8) : Bool :=
  isAsciiDigit b || (byte 'a' ≤ b && b ≤ byte 'f') || (byte 'A' ≤ b && b ≤ byte 'F')

def isAsciiAlphabetic (b : UInt8) : Bool :=
  (byte 'a' ≤ b && b ≤ byte 'z') || (byte 'A' ≤ b && b ≤ byte 'Z')

def isIdentStart (b : UInt8) : Bool := isAsciiAlphabetic b || b = byte '_'

def isIdentByte (b : UInt8) : Bool := isAsciiAlphabetic b || isAsciiDigit b || b = byte '_'

def isOpChar (b : UInt8) : Bool := (ascii "&|=!<>~()").contains b

/-- `str::is_char_boundary`: a continuation byte is inside a character. -/
def isCharBoundary (s : Str) (i : Nat) : Bool :=
  match s[i]? with
  | none => i = s.length
  | some b => i = 0 || b < 0x80 || 0xC0 ≤ b

/-- `&s[start..stop]`. -/
def sliceStr (s : Str) (start stop : Nat) : Option Str :=
  if start ≤ stop ∧ isCharBoundary s start ∧ isCharBoundary s stop then
    some ((s.take stop).drop start)
  else none

/-- `String::push(b as char)`: a byte from 0x80 on is a Latin-1 character of two bytes. -/
def pushByteAsChar (out : Str) (b : UInt8) : Str :=
  if b < 0x80 then out ++ [b] else out ++ [(0xC0 : UInt8) ||| (b >>> 6), (0x80 : UInt8) ||| (b &&& 0x3F)]

namespace Lexer

def new (input : Str) : Lexer := { input := input, pos := 0 }

def rest (l : Lexer) : Str := l.input.drop l.pos

def peekOf (l : Lexer) : Option UInt8 := l.rest.head?

def advance (l : Lexer) (n : Nat) : Lexer := { l with pos := l.pos + n }

abbrev Method (α : Type) := Call ParseError Lexer α

def peek : Method (Option UInt8) := do return (← Call.self).peekOf

def peek2 : Method (Option UInt8) := do return (← Call.self).rest.tail.head?

def bump : Method (Option UInt8) := do
  let l ← Call.self
  match l.peekOf with
  | none => return none
  | some b =>
    Call.update (·.advance 1)
    return some b

/-- The loop `while let Some(b) = self.peek()` that steps over the bytes of one class. -/
def advanceWhile (p : UInt8 → Bool) : Method Unit :=
  Call.update fun l => l.advance (l.rest.takeWhile p).length

def skipWs : Method Unit := advanceWhile isAsciiWhitespace

def token (start : Nat) (kind : TokenKind) : Method Token := do
  return { kind := kind, span := { start := start, stop := (← Call.self).pos } }

def fail (start : Nat) (message : String) : Method Token := do
  throw (ParseError.new start (← Call.self).pos (.text message))

/-- `&self.input[from..self.pos]`. -/
def sliceFrom (start : Nat) : Method Str := do
  let l ← Call.self
  Call.orPanic (sliceStr l.input start l.pos)

def lexNumber (start : Nat) : Method Token := do
  if (← peek) = some (byte '0') ∧ ((← peek2) = some (byte 'x') ∨ (← peek2) = some (byte 'X')) then
    let _ ← bump
    let _ ← bump
    let base := (← Call.self).pos
    advanceWhile isAsciiHexdigit
    if (← Call.self).pos = base then fail start "hex literal missing digits"
    else
      match fromStrRadix (← sliceFrom base) 16 with
      | .error _ => fail start "hex literal overflow"
      | .ok v => token start (.int v)
  else
    let base := (← Call.self).pos
    advanceWhile isAsciiDigit
    match fromStrRadix (← sliceFrom base) 10 with
    | .error _ => fail start "decimal literal overflow"
    | .ok v => token start (.int v)

def lexIdent (start : Nat) : Method Token := do
  let base := (← Call.self).pos - 1
  advanceWhile isIdentByte
  token start (.ident (← sliceFrom base))

def unescape (out : Str) (c : UInt8) : Str :=
  if c = backslash then out ++ [backslash]
  else if c = doubleQuote then out ++ [doubleQuote]
  else if c = singleQuote then out ++ [singleQuote]
  else if c = byte 'n' then out ++ [0x0A]
  else if c = byte 't' then out ++ [0x09]
  else pushByteAsChar out c

inductive StringEnd where
  | closed (out : Str)
  | incompleteEscape
  | unterminated

/-- The loop of `lex_string` over the bytes ahead, and the position it stops at. -/
def scanString (quote : UInt8) : Str → Nat → Str → StringEnd × Nat
  | [], pos, _ => (.unterminated, pos)
  | b :: rest, pos, out =>
    if b = quote then (.closed out, pos + 1)
    else if b = backslash then
      match rest with
      | [] => (.incompleteEscape, pos + 1)
      | c :: rest => scanString quote rest (pos + 2) (unescape out c)
    else scanString quote rest (pos + 1) (pushByteAsChar out b)

def lexString (start : Nat) (quote : UInt8) : Method Token := do
  let l ← Call.self
  let (stringEnd, pos) := scanString quote l.rest l.pos []
  Call.update fun l => { l with pos := pos }
  match stringEnd with
  | .closed out => token start (.string out)
  | .incompleteEscape => fail start "incomplete string escape"
  | .unterminated => fail start "unterminated string"

def lexBareword (start : Nat) : Method Token := do
  let base := (← Call.self).pos - 1
  advanceWhile fun b => !(isAsciiWhitespace b || isOpChar b)
  token start (.bareword (← sliceFrom base))

/-- A token of two bytes, or what stands for its first byte alone. -/
def lexPair (second : UInt8) (pair single : Method Token) : Method Token := do
  if (← peek) = some second then
    let _ ← bump
    pair
  else single

/-- The arms of `next_token` for the first byte `b`, already consumed. -/
def lexArm (start : Nat) (b : UInt8) : Method Token :=
  if b = byte '(' then token start .lParen
  else if b = byte ')' then token start .rParen
  else if b = byte '&' then lexPair (byte '&') (token start .andAnd) (token start .amp)
  else if b = byte '|' then
    lexPair (byte '|') (token start .orOr) (fail start "single '|' is invalid; did you mean '||'?")
  else if b = byte '=' then
    lexPair (byte '=') (token start .eqEq) (fail start "single '=' is invalid; did you mean '=='?")
  else if b = byte '!' then
    lexPair (byte '=') (token start .notEq) (fail start "'!' is only supported as '!='")
  else if b = byte '<' then lexPair (byte '=') (token start .le) (token start .lt)
  else if b = byte '>' then lexPair (byte '=') (token start .ge) (token start .gt)
  else if b = byte '~' then token start .tilde
  else if b = doubleQuote ∨ b = singleQuote then lexString start b
  else if isAsciiDigit b then do
    Call.update fun l => { l with pos := l.pos - 1 }
    lexNumber start
  else if isIdentStart b then lexIdent start
  else if isAsciiWhitespace b || isOpChar b then do
    throw (ParseError.new start (← Call.self).pos
      { format := "unrecognized character: '\x7b\x7d'", args := [.byteChar b] })
  else lexBareword start

def nextToken : Method Token := do
  skipWs
  let start := (← Call.self).pos
  match ← bump with
  | none => return { kind := .eof, span := { start := start, stop := start } }
  | some b => lexArm start b

end Lexer

end ExtKtrace.TpLexer
