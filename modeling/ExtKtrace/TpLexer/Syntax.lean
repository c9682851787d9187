import Mathlib.Logic.Basic

/-!
# Tokens, trees and errors of the filter language

A Rust `String` is the list of its UTF-8 bytes.
-/

namespace ExtKtrace.TpLexer
set_option autoImplicit false

abbrev Str := List UInt8

/-- The byte of an ASCII character literal, as `b'c'`. -/
abbrev byte (c : Char) : UInt8 := c.toNat.toUInt8

/-- The bytes of an ASCII string literal. -/
def ascii (s : String) : Str := s.toList.map byte

structure Span where
  start : Nat
  stop : Nat
deriving DecidableEq, Repr

inductive TokenKind where
  | ident (s : Str)
  | int (v : Int64)
  | string (s : Str)
  | bareword (s : Str)
  | andAnd
  | orOr
  | amp
  | eqEq
  | notEq
  | lt
  | le
  | gt
  | ge
  | tilde
  | lParen
  | rParen
  | eof
deriving BEq

structure Token where
  kind : TokenKind
  span : Span

inductive FormatArg where
  | str (s : Str)
  | nat (n : Nat)
  | byteChar (b : UInt8)
  | kind (k : TokenKind)

/-- The result of `format!`: the literal and the values its placeholders stand for. -/
structure Message where
  format : String
  args : List FormatArg

def Message.text (s : String) : Message := { format := s, args := [] }

structure ParseError where
  span : Span
  message : Message

def ParseError.new (start stop : Nat) (message : Message) : ParseError :=
  { span := { start := start, stop := stop }, message := message }

structure EvalError where
  field : Str
  message : Message

inductive NumOp where
  | eq
  | ne
  | lt
  | le
  | gt
  | ge
deriving DecidableEq

inductive StrOp where
  | eq
  | ne
  | glob
deriving DecidableEq

inductive Expr where
  | or (l r : Expr)
  | and (l r : Expr)
  | numCmp (field : Str) (fieldSpan : Span) (mask : Option Int64) (op : NumOp) (rhs : Int64)
  | strCmp (field : Str) (fieldSpan : Span) (op : StrOp) (pat : Str)
  | group (inner : Expr)
deriving DecidableEq

end ExtKtrace.TpLexer
