import ScriptEngine.Decimal.Reader
import ScriptEngine.Source.Diagnostic
import ScriptEngine.Token.Scanner
import ScriptEngine.Tree

/-!
From tokens to syntax trees, by recursive descent. Nesting is paid from a budget: a nested
statement, expression or operand gives its unit back when it ends, a link of an operator or member
chain keeps it until the statement ends. So the depth of every accepted tree is bounded.

The grammar is written over a record of the parsers one level further in; closing the record by
recursion on the number of levels gives the parser.
-/

namespace ScriptEngine

inductive Expected where
  | blockOpen | blockClose
  | variableName | functionName | parametersOpen | parameterName | parametersClose
  | conditionOpen | conditionClose
  | keyword (k : Keyword)
  | catchOpen | catchBinding | catchClose
  | argumentsClose | indexClose | memberName | groupClose
  | entryName | entryColon | objectClose
deriving DecidableEq, Repr

def Expected.message : Expected → String
  | .blockOpen => "expected `\x7b` to start block"
  | .blockClose => "expected `\x7d` to close block"
  | .variableName => "expected variable name"
  | .functionName => "expected function name"
  | .parametersOpen => "expected `(` after function name"
  | .parameterName => "expected parameter name"
  | .parametersClose => "expected `)` after parameters"
  | .conditionOpen => "expected `(` before condition"
  | .conditionClose => "expected `)` after condition"
  | .keyword k => "expected keyword `" ++ k.spelling ++ "`"
  | .catchOpen => "expected `(` after `catch`"
  | .catchBinding => "expected catch binding"
  | .catchClose => "expected `)` after catch binding"
  | .argumentsClose => "expected `)` after arguments"
  | .indexClose => "expected `]` after index"
  | .memberName => "expected property name after `.`"
  | .groupClose => "expected `)` after expression"
  | .entryName => "expected property name in object literal"
  | .entryColon => "expected `:` in object literal"
  | .objectClose => "expected `\x7d` after object literal"

inductive ParseFault where
  | expected (what : Expected) (found : Option String)
  | unexpectedEnd
  | unexpected (found : String)
  | malformedNumber (found : String)
  | invalidTarget
  | tooDeep
deriving DecidableEq, Repr

namespace ParseFault

def withFound (message : String) : Option String → String
  | some lexeme => message ++ ", found `" ++ lexeme ++ "`"
  | none => message

def message : ParseFault → String
  | .expected what found => withFound what.message found
  | .unexpectedEnd => "unexpected end of input"
  | .unexpected found => withFound "unexpected token in expression" (some found)
  | .malformedNumber found => withFound "malformed number literal" (some found)
  | .invalidTarget => "invalid assignment target"
  | .tooDeep => "too much nesting"

end ParseFault

structure ParseError where
  fault : ParseFault
  span : Span
deriving DecidableEq, Repr

def ParseError.diagnostic (e : ParseError) : Diagnostic :=
  .of .parsing e.fault.message e.span

namespace Parser

structure Cursor where
  rest : List Token
  finish : Span
  budget : Nat
deriving DecidableEq, Repr

abbrev ParseM := StateT Cursor (Except ParseError)

namespace Cursor

def span (c : Cursor) : Span :=
  match c.rest with
  | t :: _ => t.span
  | [] => c.finish

def lexeme? (c : Cursor) : Option String :=
  c.rest.head?.map (·.lexeme)

def kind? (c : Cursor) : Option TokenKind :=
  c.rest.head?.map (·.kind)

def sees (c : Cursor) (kind : TokenKind) : Bool :=
  c.kind? = some kind

def atEnd (c : Cursor) : Bool :=
  c.rest.isEmpty

end Cursor

def failAt (span : Span) (fault : ParseFault) : ParseM α :=
  throw ⟨fault, span⟩

def fail (fault : ParseFault) : ParseM α := do
  failAt (← get).span fault

def sees (kind : TokenKind) : ParseM Bool :=
  return (← get).sees kind

def takeIf (test : Token → Option α) : ParseM (Option (α × Span)) := do
  let c ← get
  match c.rest with
  | [] => return none
  | t :: ts =>
    match test t with
    | none => return none
    | some a =>
      set { c with rest := ts }
      return some (a, t.span)

def accept (kind : TokenKind) : ParseM (Option Span) := do
  return (← takeIf fun t => if t.kind = kind then some () else none).map (·.2)

def require (test : Token → Option α) (what : Expected) : ParseM (α × Span) := do
  match ← takeIf test with
  | some found => return found
  | none => fail (.expected what (← get).lexeme?)

def requireKind (kind : TokenKind) (what : Expected) : ParseM (String × Span) :=
  require (fun t => if t.kind = kind then some t.lexeme else none) what

def requireMark (m : Mark) (what : Expected) : ParseM Span :=
  return (← requireKind (.mark m) what).2

def requireKeyword (k : Keyword) : ParseM Span :=
  return (← requireKind (.keyword k) (.keyword k)).2

def propertyName? (t : Token) : Option String :=
  match t.kind with
  | .identifier | .keyword _ | .string | .number => some t.lexeme
  | .mark _ | .unknown => none

def spend : ParseM Unit := do
  let c ← get
  match c.budget with
  | 0 => fail .tooDeep
  | budget + 1 => set { c with budget }

/-- Pays one unit for `inner` and takes it back afterwards. -/
def lend (inner : ParseM α) : ParseM α := do
  spend
  let a ← inner
  modify fun c => { c with budget := c.budget + 1 }
  return a

/-- Pays one unit for `inner` and takes back all that it used. -/
def restoring (inner : ParseM α) : ParseM α := do
  let budget := (← get).budget
  spend
  let a ← inner
  modify fun c => { c with budget }
  return a

def rounds : ParseM Nat :=
  return (← get).rest.length + 1

def upTo (done : Cursor → Bool) (item : ParseM α) : Nat → ParseM (List α)
  | 0 => fail .tooDeep
  | n + 1 => do
    if done (← get) then return []
    let x ← item
    return x :: (← upTo done item n)

def separated (item : ParseM α) : Nat → ParseM (List α)
  | 0 => fail .tooDeep
  | n + 1 => do
    let x ← item
    match ← accept (.mark .comma) with
    | some _ => return x :: (← separated item n)
    | none => return [x]

def listed (close : Mark) (item : ParseM α) : Nat → ParseM (List α)
  | 0 => fail .tooDeep
  | n + 1 => do
    if ← sees (.mark close) then return []
    let x ← item
    match ← accept (.mark .comma) with
    | some _ => return x :: (← listed close item n)
    | none => return [x]

/-- A left operand and the links that follow it. Each link keeps a unit of the budget, so a chain has
no more links than there are units. -/
def chain (link : Expr → ParseM (Option Expr)) : Nat → Expr → ParseM Expr
  | 0, _ => fail .tooDeep
  | n + 1, left => do
    match ← link left with
    | some longer => chain link n longer
    | none => return left

def chained (first : ParseM Expr) (link : Expr → ParseM (Option Expr)) : ParseM Expr := do
  let left ← first
  chain link ((← get).budget + 1) left

structure Nested where
  statement : ParseM Stmt
  assignment : ParseM Expr
  unary : ParseM Expr

section Grammar

variable (nested : Nested)

def block : ParseM (List Stmt × Span) := do
  let first ← requireMark .braceOpen .blockOpen
  let items ← upTo (fun c => c.sees (.mark .braceClose) || c.atEnd) nested.statement (← rounds)
  let last ← requireMark .braceClose .blockClose
  return (items, first.through last)

def parameters : ParseM (List String) := do
  let _ ← requireMark .parenOpen .parametersOpen
  let params ←
    if ← sees (.mark .parenClose) then pure []
    else separated (return (← requireKind .identifier .parameterName).1) (← rounds)
  let _ ← requireMark .parenClose .parametersClose
  return params

def functionName (named : Bool) : ParseM (Option String) := do
  match ← takeIf fun t => if t.kind = .identifier then some t.lexeme else none with
  | some (name, _) => return some name
  | none => if named then fail (.expected .functionName (← get).lexeme?) else return none

def functionDecl (named : Bool) : ParseM FunctionDecl := do
  let first ← requireKeyword .functionWord
  let name ← functionName named
  let params ← parameters
  let (body, last) ← block nested
  return { name, params, body, span := first.through last }

def group : ParseM Expr := do
  let first ← requireMark .parenOpen .groupClose
  let inner ← nested.assignment
  let last ← requireMark .parenClose .groupClose
  return .group inner (first.through last)

def entry : ParseM (String × Expr) := do
  let (key, _) ← require propertyName? .entryName
  let _ ← requireMark .colon .entryColon
  return (key, ← nested.assignment)

def object : ParseM Expr := do
  let first ← requireMark .braceOpen .objectClose
  let entries ← listed .braceClose (entry nested) (← rounds)
  let last ← requireMark .braceClose .objectClose
  return .object entries (first.through last)

def atom? (t : Token) : Option (Except ParseFault Expr) :=
  match t.kind with
  | .keyword .trueWord => some (.ok (.literal (.boolean true) t.span))
  | .keyword .falseWord => some (.ok (.literal (.boolean false) t.span))
  | .keyword .nullWord => some (.ok (.literal .null t.span))
  | .keyword .thisWord => some (.ok (.this t.span))
  | .number =>
    some <| match Decimal.read? t.lexeme with
      | some value => .ok (.literal (.number value) t.span)
      | none => .error (.malformedNumber t.lexeme)
  | .string => some (.ok (.literal (.string t.lexeme) t.span))
  | .identifier => some (.ok (.name t.lexeme t.span))
  | _ => none

def primary : ParseM Expr := do
  let c ← get
  match c.rest with
  | [] => fail .unexpectedEnd
  | t :: ts =>
    match atom? t with
    | some (.ok e) =>
      set { c with rest := ts }
      return e
    | some (.error fault) => fail fault
    | none =>
      match t.kind with
      | .keyword .functionWord => return .function (← functionDecl nested false)
      | .mark .parenOpen => group nested
      | .mark .braceOpen => object nested
      | _ => fail (.unexpected t.lexeme)

def arguments : ParseM (List Expr) := do
  if ← sees (.mark .parenClose) then return []
  separated nested.assignment (← rounds)

def memberLink (left : Expr) : ParseM (Option Expr) := do
  let c ← get
  if c.sees (.mark .parenOpen) || c.sees (.mark .bracketOpen) || c.sees (.mark .dot) then spend
  if (← accept (.mark .parenOpen)).isSome then
    let args ← arguments nested
    let last ← requireMark .parenClose .argumentsClose
    return some (.call left args (left.span.through last))
  else if (← accept (.mark .bracketOpen)).isSome then
    let index ← nested.assignment
    let last ← requireMark .bracketClose .indexClose
    return some (.index left index (left.span.through last))
  else if (← accept (.mark .dot)).isSome then
    let (name, last) ← require propertyName? .memberName
    return some (.field left name (left.span.through last))
  else return none

def member : ParseM Expr :=
  chained (primary nested) (memberLink nested)

def unaryOp? (t : Token) : Option UnaryOp :=
  match t.kind with
  | .mark .minus => some .negate
  | .mark .bang => some .not
  | .keyword .typeofWord => some .typeof
  | _ => none

def unary : ParseM Expr := do
  match ← takeIf unaryOp? with
  | none => member nested
  | some (op, first) =>
    let operand ← lend nested.unary
    return .unary op operand (first.through operand.span)

def operatorLink (op? : Token → Option ω) (operand : ParseM Expr)
    (join : ω → Expr → Expr → Span → Expr) (left : Expr) : ParseM (Option Expr) := do
  match ← takeIf op? with
  | none => return none
  | some (op, _) =>
    spend
    let right ← operand
    return some (join op left right (left.span.through right.span))

def level (op? : Token → Option ω) (join : ω → Expr → Expr → Span → Expr)
    (operand : ParseM Expr) : ParseM Expr :=
  chained operand (operatorLink op? operand join)

def factorOp? (t : Token) : Option BinaryOp :=
  match t.kind with
  | .mark .star => some .mul
  | .mark .slash => some .div
  | .mark .percent => some .mod
  | _ => none

def termOp? (t : Token) : Option BinaryOp :=
  match t.kind with
  | .mark .plus => some .add
  | .mark .minus => some .sub
  | _ => none

def comparisonOp? (t : Token) : Option BinaryOp :=
  match t.kind with
  | .mark .lessEqual => some .lessEqual
  | .mark .greaterEqual => some .greaterEqual
  | .mark .less => some .less
  | .mark .greater => some .greater
  | _ => none

def equalityOp? (t : Token) : Option BinaryOp :=
  match t.kind with
  | .mark .equalEqual => some .equal
  | .mark .bangEqual => some .notEqual
  | .mark .equalEqualEqual => some .strictEqual
  | .mark .bangEqualEqual => some .strictNotEqual
  | _ => none

def andOp? (t : Token) : Option LogicalOp :=
  if t.kind = .mark .doubleAmpersand then some .and else none

def orOp? (t : Token) : Option LogicalOp :=
  if t.kind = .mark .doublePipe then some .or else none

def factor : ParseM Expr := level factorOp? .binary (unary nested)

def term : ParseM Expr := level termOp? .binary (factor nested)

def comparison : ParseM Expr := level comparisonOp? .binary (term nested)

def equality : ParseM Expr := level equalityOp? .binary (comparison nested)

def conjunction : ParseM Expr := level andOp? .logical (equality nested)

def disjunction : ParseM Expr := level orOp? .logical (conjunction nested)

def isTarget : Expr → Bool
  | .name .. | .index .. | .field .. => true
  | _ => false

def assignment : ParseM Expr := do
  let target ← disjunction nested
  match ← accept (.mark .assign) with
  | none => return target
  | some equals =>
    let value ← nested.assignment
    if isTarget target then return .assign target value (target.span.through value.span)
    else failAt equals .invalidTarget

def optionalSemicolon : ParseM Unit := do
  let _ ← accept (.mark .semicolon)

def binding : ParseM ((String × Option Expr) × Span) := do
  let (name, span) ← requireKind .identifier .variableName
  match ← accept (.mark .assign) with
  | none => return ((name, none), span)
  | some _ =>
    let value ← nested.assignment
    return ((name, some value), value.span)

def varStatement : ParseM Stmt := do
  let first ← requireKeyword .varWord
  let bindings ← separated (binding nested) (← rounds)
  optionalSemicolon
  return .var (bindings.map (·.1)) (first.through ((bindings.getLast?.map (·.2)).getD first))

def condition : ParseM Expr := do
  let _ ← requireMark .parenOpen .conditionOpen
  let test ← nested.assignment
  let _ ← requireMark .parenClose .conditionClose
  return test

def ifStatement : ParseM Stmt := do
  let first ← requireKeyword .ifWord
  let test ← condition nested
  let yes ← nested.statement
  match ← accept (.keyword .elseWord) with
  | none => return .cond test yes none (first.through yes.span)
  | some _ =>
    let no ← nested.statement
    return .cond test yes (some no) (first.through no.span)

def whileStatement : ParseM Stmt := do
  let first ← requireKeyword .whileWord
  let test ← condition nested
  let body ← nested.statement
  return .loop test body (first.through body.span)

def returnStatement : ParseM Stmt := do
  let first ← requireKeyword .returnWord
  let c ← get
  if c.sees (.mark .semicolon) || c.sees (.mark .braceClose) || c.atEnd then
    optionalSemicolon
    return .return none first
  let value ← nested.assignment
  optionalSemicolon
  return .return (some value) (first.through value.span)

def throwStatement : ParseM Stmt := do
  let first ← requireKeyword .throwWord
  let value ← nested.assignment
  optionalSemicolon
  return .throw value (first.through value.span)

def tryStatement : ParseM Stmt := do
  let first ← requireKeyword .tryWord
  let (body, _) ← block nested
  let _ ← requireKeyword .catchWord
  let _ ← requireMark .parenOpen .catchOpen
  let (name, _) ← requireKind .identifier .catchBinding
  let _ ← requireMark .parenClose .catchClose
  let (handler, last) ← block nested
  return .try body name handler (first.through last)

def expressionStatement : ParseM Stmt := do
  let value ← nested.assignment
  optionalSemicolon
  return .expr value

def statement : ParseM Stmt := do
  let c ← get
  match c.kind? with
  | some (.keyword .varWord) => varStatement nested
  | some (.keyword .functionWord) => return .function (← functionDecl nested true)
  | some (.keyword .ifWord) => ifStatement nested
  | some (.keyword .whileWord) => whileStatement nested
  | some (.keyword .returnWord) => returnStatement nested
  | some (.keyword .throwWord) => throwStatement nested
  | some (.keyword .tryWord) => tryStatement nested
  | some (.mark .braceOpen) =>
    let (items, span) ← block nested
    return .block items span
  | some (.mark .semicolon) =>
    optionalSemicolon
    return .empty c.span
  | _ => expressionStatement nested

end Grammar

/-- The parsers with the given number of levels. Without a level left nothing can be read, and no
unit of the budget is left either. -/
def levels : Nat → Nested
  | 0 => ⟨fail .tooDeep, fail .tooDeep, fail .tooDeep⟩
  | n + 1 =>
    let nested := levels n
    ⟨restoring (statement nested), lend (assignment nested), unary nested⟩

def maxNesting : Nat := 200

def script : ParseM (List Stmt) := do
  upTo Cursor.atEnd (levels maxNesting).statement (← rounds)

end Parser

def Tokens.parse (ts : Tokens) : Except ParseError (List Stmt) :=
  (Parser.script.run' ⟨ts.items, ts.finish, Parser.maxNesting⟩)

def parse (source : String) : Except Diagnostic (List Stmt) :=
  match scan source with
  | .error e => .error e.diagnostic
  | .ok ts =>
    match ts.parse with
    | .error e => .error e.diagnostic
    | .ok items => .ok items

end ScriptEngine
