import ExtKtrace.TpLexer.Lexer

/-!
# The recursive descent parser

The recursion of the source has no bound of its own: every recursive function takes the depth
it may still use, and `parse` gives enough of it for its input.
-/

namespace ExtKtrace.TpLexer
set_option autoImplicit false

structure Parser where
  lexer : Lexer
  lookahead : Token

namespace Parser

def new (input : Str) : Option (Except ParseError Parser) :=
  (Lexer.nextToken.exec (Lexer.new input)).map fun r =>
    r.1.map fun first => { lexer := r.2, lookahead := first }

abbrev Method (α : Type) := Call ParseError Parser α

def peekKind : Method TokenKind := do return (← Call.self).lookahead.kind

def lexToken : Method Token :=
  Call.focus Parser.lexer (fun l p => { p with lexer := l }) Lexer.nextToken

def bump : Method Token := do
  let cur := (← Call.self).lookahead
  Call.update fun p => { p with lookahead := { kind := .eof, span := cur.span } }
  let t ← lexToken
  Call.update fun p => { p with lookahead := t }
  return cur

/-- An error at the span of the lookahead. -/
def failHere {α : Type} (message : Message) : Method α := do
  let span := (← Call.self).lookahead.span
  throw (ParseError.new span.start span.stop message)

def failAt {α : Type} (span : Span) (message : String) : Method α :=
  throw (ParseError.new span.start span.stop (.text message))

def expect (kind : TokenKind) : Method Token := do
  let found ← peekKind
  if found == kind then bump
  else
    failHere {
      format := "expected \x7b:?\x7d, found \x7b:?\x7d"
      args := [.kind kind, .kind found] }

def startsNumericLiteral : TokenKind → Bool
  | .int _ => true
  | .bareword st => st = [byte '-'] || st = [byte '+'] || (parseI64LiteralText st).isOk
  | .lParen => true
  | _ => false

def parseSignedInt : Nat → Method Int64
  | 0 => Call.stuck
  | n + 1 => do
    match ← peekKind with
    | .int v =>
      let _ ← bump
      return v
    | .bareword st =>
      let span := (← Call.self).lookahead.span
      if st = [byte '-'] then
        let _ ← bump
        let value ← parseSignedInt n
        match checkedNeg value with
        | some v => return v
        | none => failAt span "integer literal overflow"
      else if st = [byte '+'] then
        let _ ← bump
        parseSignedInt n
      else
        match parseI64LiteralText st with
        | .ok v =>
          let _ ← bump
          return v
        | .error message => failAt span message
    | .lParen =>
      let _ ← bump
      let value ← parseSignedInt n
      let _ ← expect .rParen
      return value
    | _ => failHere (.text "numeric literal required")

/-- The loop that merges the bareword chunks that follow a pattern. -/
def mergeBarewords : Nat → Str → Method Str
  | 0, _ => Call.stuck
  | n + 1, s => do
    match ← peekKind with
    | .bareword st =>
      let _ ← bump
      mergeBarewords n (s ++ st)
    | _ => return s

def parsePatternLiteral (depth : Nat) : Method Str := do
  match ← peekKind with
  | .string st | .bareword st | .ident st =>
    let _ ← bump
    mergeBarewords depth st
  | _ => failHere (.text "string literal required (quotes optional)")

/-- The comparison of one token, for the arms that match on an operator. -/
def numOp : TokenKind → Option NumOp
  | .eqEq => some .eq
  | .notEq => some .ne
  | .lt => some .lt
  | .le => some .le
  | .gt => some .gt
  | .ge => some .ge
  | _ => none

def parseFieldCmp (depth : Nat) : Method Expr := do
  let nameTok ← bump
  let fieldSpan := nameTok.span
  let field ← Call.orPanic <|
    match nameTok.kind with
    | .ident s => some s
    | _ => none
  match ← peekKind with
  | .amp =>
    let _ ← bump
    let maskVal ← parseSignedInt depth
    let opTok ← bump
    match numOp opTok.kind with
    | none => failAt opTok.span "numeric comparison operator required"
    | some op =>
      let rhs ← parseSignedInt depth
      return .numCmp field fieldSpan (some maskVal) op rhs
  | .lt | .le | .gt | .ge =>
    let opTok ← bump
    let op ← Call.orPanic (numOp opTok.kind)
    let rhs ← parseSignedInt depth
    return .numCmp field fieldSpan none op rhs
  | .tilde =>
    let _ ← bump
    let pat ← parsePatternLiteral depth
    return .strCmp field fieldSpan .glob pat
  | .eqEq | .notEq =>
    let opTok ← bump
    if startsNumericLiteral (← peekKind) then
      let rhs ← parseSignedInt depth
      let op ← Call.orPanic (numOp opTok.kind)
      return .numCmp field fieldSpan none op rhs
    else
      let pat ← parsePatternLiteral depth
      let op : StrOp := if opTok.kind == .eqEq then .eq else .ne
      return .strCmp field fieldSpan op pat
  | _ => failHere (.text "comparison operator required")

mutual

def parseOr : Nat → Method Expr
  | 0 => Call.stuck
  | n + 1 => do
    let left ← parseAnd n
    parseOrLoop n left

def parseOrLoop : Nat → Expr → Method Expr
  | 0, _ => Call.stuck
  | n + 1, left => do
    match ← peekKind with
    | .orOr =>
      let _ ← bump
      let right ← parseAnd n
      parseOrLoop n (.or left right)
    | _ => return left

def parseAnd : Nat → Method Expr
  | 0 => Call.stuck
  | n + 1 => do
    let left ← parseCmp n
    parseAndLoop n left

def parseAndLoop : Nat → Expr → Method Expr
  | 0, _ => Call.stuck
  | n + 1, left => do
    match ← peekKind with
    | .andAnd =>
      let _ ← bump
      let right ← parseCmp n
      parseAndLoop n (.and left right)
    | _ => return left

def parseCmp : Nat → Method Expr
  | 0 => Call.stuck
  | n + 1 => do
    match ← peekKind with
    | .lParen =>
      let _ ← bump
      let e ← parseOr n
      let _ ← expect .rParen
      return .group e
    | .ident _ => parseFieldCmp n
    | _ => failHere (.text "expected '(' or field name")

end

/-- Each token of the input takes at most three levels of recursion. -/
def depthFor (input : Str) : Nat := 3 * input.length + 6

def parse (depth : Nat) : Method Expr := do
  let expr ← parseOr depth
  match ← peekKind with
  | .eof => return expr
  | _ => failHere (.text "extraneous input")

end Parser

/-- `Parser::new(input)?.parse()`. -/
def parseFilter (input : Str) : Option (Except ParseError Expr) :=
  match Parser.new input with
  | none => none
  | some (.error e) => some (.error e)
  | some (.ok p) => ((Parser.parse (Parser.depthFor input)).exec p).map Prod.fst

theorem eq_of_toOption {ε α : Type} {x : Option (Except ε α)} {a : α}
    (h : x.bind Except.toOption = some a) : x = some (.ok a) := by
  rcases x with _ | e | b
  · cases h
  · cases h
  · cases h
    rfl

end ExtKtrace.TpLexer
