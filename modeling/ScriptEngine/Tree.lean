import ScriptEngine.Source.Span

namespace ScriptEngine

inductive Literal where
  | number (value : Float)
  | string (value : String)
  | boolean (value : Bool)
  | null
deriving DecidableEq, Repr

inductive BinaryOp where
  | add | sub | mul | div | mod
  | equal | notEqual | strictEqual | strictNotEqual
  | less | lessEqual | greater | greaterEqual
deriving DecidableEq, Repr

inductive LogicalOp where
  | and | or
deriving DecidableEq, Repr

inductive UnaryOp where
  | negate | not | typeof
deriving DecidableEq, Repr

mutual

inductive Expr where
  | literal (value : Literal) (span : Span)
  | name (name : String) (span : Span)
  | this (span : Span)
  | binary (op : BinaryOp) (left right : Expr) (span : Span)
  | logical (op : LogicalOp) (left right : Expr) (span : Span)
  | unary (op : UnaryOp) (operand : Expr) (span : Span)
  | assign (target value : Expr) (span : Span)
  | call (callee : Expr) (args : List Expr) (span : Span)
  | object (entries : List (String × Expr)) (span : Span)
  | group (inner : Expr) (span : Span)
  | index (target index : Expr) (span : Span)
  | field (target : Expr) (name : String) (span : Span)
  | function (decl : FunctionDecl)

inductive Stmt where
  | var (bindings : List (String × Option Expr)) (span : Span)
  | function (decl : FunctionDecl)
  | expr (value : Expr)
  | block (items : List Stmt) (span : Span)
  | cond (condition : Expr) (yes : Stmt) (no : Option Stmt) (span : Span)
  | loop (condition : Expr) (body : Stmt) (span : Span)
  | return (value : Option Expr) (span : Span)
  | throw (value : Expr) (span : Span)
  | try (body : List Stmt) (binding : String) (handler : List Stmt) (span : Span)
  | empty (span : Span)

structure FunctionDecl where
  name : Option String
  params : List String
  body : List Stmt
  span : Span

end

def Expr.span : Expr → Span
  | .literal _ s | .name _ s | .this s | .binary _ _ _ s | .logical _ _ _ s | .unary _ _ s
  | .assign _ _ s | .call _ _ s | .object _ s | .group _ s | .index _ _ s | .field _ _ s => s
  | .function decl => decl.span

def Stmt.span : Stmt → Span
  | .var _ s | .block _ s | .cond _ _ _ s | .loop _ _ s | .return _ s | .throw _ s
  | .try _ _ _ s | .empty s => s
  | .function decl => decl.span
  | .expr value => value.span

end ScriptEngine
