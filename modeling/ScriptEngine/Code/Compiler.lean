import ScriptEngine.Code
import ScriptEngine.Source.Diagnostic
import ScriptEngine.Tree.Held

namespace ScriptEngine

inductive CompileFault where
  | tooManyParameters
  | tooManyArguments
  | duplicateParameter (name : String)
  | restrictedName (name : String)
  | returnOutside
  | invalidTarget
deriving DecidableEq, Repr

def CompileFault.message : CompileFault → String
  | .tooManyParameters => "too many parameters"
  | .tooManyArguments => "too many arguments"
  | .duplicateParameter name => "duplicate formal parameter '" ++ name ++ "'"
  | .restrictedName name => "invalid use of '" ++ name ++ "' in strict mode"
  | .returnOutside => "return not in function"
  | .invalidTarget => "invalid assignment target"

structure CompileError where
  fault : CompileFault
  span : Span
deriving DecidableEq, Repr

def CompileError.diagnostic (e : CompileError) : Diagnostic :=
  .of .compiling e.fault.message e.span

namespace Compiler

structure Fragment where
  code : List (Instr × Nat)
  functions : List CodeUnit

namespace Fragment

def empty : Fragment := ⟨[], []⟩

def one (i : Instr) (line : Nat) : Fragment := ⟨[(i, line)], []⟩

def append (a b : Fragment) : Fragment := ⟨a.code ++ b.code, a.functions ++ b.functions⟩

instance : Append Fragment := ⟨append⟩

def size (f : Fragment) : Nat := f.code.length

end Fragment

structure Place where
  address : Nat
  function : Nat
deriving DecidableEq, Repr

namespace Place

def start : Place := ⟨0, 0⟩

def after (p : Place) (f : Fragment) : Place :=
  ⟨p.address + f.size, p.function + f.functions.length⟩

def next (p : Place) : Place := { p with address := p.address + 1 }

end Place

structure Setting where
  file : String
  strict : Bool
deriving DecidableEq, Repr

abbrev CompileM := Except CompileError

def maxArguments : Nat := 255

def checkName (s : Setting) (name : String) (span : Span) : CompileM Unit :=
  if s.strict ∧ (name = "eval" ∨ name = "arguments") then throw ⟨.restrictedName name, span⟩
  else pure ()

def checkParams (s : Setting) (span : Span) (seen : List String) : List String → CompileM Unit
  | [] => pure ()
  | name :: names => do
    checkName s name span
    if s.strict ∧ name ∈ seen then throw ⟨.duplicateParameter name, span⟩
    checkParams s span (name :: seen) names

def literal : Literal → Instr
  | .number x => .number x
  | .string s => .string s
  | .boolean b => .boolean b
  | .null => .null

def operator : UnaryOp → Instr
  | .negate => .negate
  | .not => .not
  | .typeof => .typeof

def shortCircuit (target : Nat) : LogicalOp → Instr
  | .and => .jumpIfFalseKeep target
  | .or => .jumpIfTrueKeep target

def discard (script : Bool) : Instr :=
  if script then .setCompletion else .pop

def finish (s : Setting) (name : String) (line : Nat) (params : List String) (isScript : Bool)
    (f : Fragment) : CodeUnit :=
  { name, file := s.file, line, params
    code := (f.code.map (·.1)).toArray
    lines := (f.code.map (·.2)).toArray
    functions := f.functions
    isScript, strict := s.strict }

def closure (p : Place) (span : Span) (unit : CodeUnit) : Fragment :=
  ⟨[(.closure p.function, span.line)], [unit]⟩

def boundName (decl : FunctionDecl) : String :=
  decl.name.getD "anonymous"

def declaration (p : Place) (decl : FunctionDecl) (unit : CodeUnit) : Fragment :=
  closure p decl.span unit ++ .one (.defineVar (boundName decl)) decl.span.line

mutual

def expr (s : Setting) : Expr → Place → CompileM Fragment
  | .literal value span, _ => return .one (literal value) span.line
  | .name name span, _ => return .one (.getVar name) span.line
  | .this span, _ => return .one .this span.line
  | .binary op left right span, p => do
    let a ← expr s left p
    let b ← expr s right (p.after a)
    return a ++ b ++ .one (.binary op) span.line
  | .logical op left right span, p => do
    let a ← expr s left p
    let q := (p.after a).next
    let b ← expr s right q
    return a ++ .one (shortCircuit (q.after b).address op) span.line ++ b
  | .unary op operand span, p => do
    let a ← expr s operand p
    return a ++ .one (operator op) span.line
  | .assign (.name name place) value span, p => do
    checkName s name place
    let a ← expr s value p
    return a ++ .one (.setVar name) span.line
  | .assign (.field target name _) value span, p => do
    let a ← expr s target p
    let b ← expr s value (p.after a)
    return a ++ b ++ .one (.setProp name) span.line
  | .assign (.index target index _) value span, p => do
    let a ← expr s target p
    let b ← expr s index (p.after a)
    let c ← expr s value ((p.after a).after b)
    return a ++ b ++ c ++ .one .setIndex span.line
  | .assign target _ _, _ => throw ⟨.invalidTarget, target.span⟩
  | .call callee args span, p => do
    if maxArguments < args.length then throw ⟨.tooManyArguments, span⟩
    let a ← match callee with
      | .field target name _ => do
        let a ← expr s target p
        pure (a ++ .one (.getMethod name) span.line)
      | callee => do
        let a ← expr s callee p
        pure (a ++ .one .undefined span.line)
    let b ← exprs s args (p.after a)
    return a ++ b ++ .one (.call args.length) span.line
  | .object members span, p => do
    let b ← entries s members p.next
    return .one .newObject span.line ++ b
  | .group inner _, p => expr s inner p
  | .index target index span, p => do
    let a ← expr s target p
    let b ← expr s index (p.after a)
    return a ++ b ++ .one .getIndex span.line
  | .field target name span, p => do
    let a ← expr s target p
    return a ++ .one (.getProp name) span.line
  | .function decl, p => do
    let unit ← function s decl
    return closure p decl.span unit

def exprs (s : Setting) : List Expr → Place → CompileM Fragment
  | [], _ => return .empty
  | e :: es, p => do
    let a ← expr s e p
    let b ← exprs s es (p.after a)
    return a ++ b

def entries (s : Setting) : List (String × Expr) → Place → CompileM Fragment
  | [], _ => return .empty
  | (name, value) :: rest, p => do
    let a ← expr s value p
    let b ← entries s rest (p.after a).next
    return a ++ .one (.initProp name) value.span.line ++ b

def function (s : Setting) : FunctionDecl → CompileM CodeUnit
  | ⟨name, params, body, span⟩ => do
    if maxArguments < params.length then throw ⟨.tooManyParameters, span⟩
    checkParams s span [] params
    let a ← hoisted s body .start
    let b ← remaining s false body (Place.start.after a)
    let ending := .one .undefined span.line ++ .one .return span.line
    return finish s (name.getD "") span.line params false (a ++ b ++ ending)

def hoisted (s : Setting) : List Stmt → Place → CompileM Fragment
  | [], _ => return .empty
  | .function decl :: rest, p => do
    checkName s (boundName decl) decl.span
    let unit ← function s decl
    let a := declaration p decl unit
    let b ← hoisted s rest (p.after a)
    return a ++ b
  | _ :: rest, p => hoisted s rest p

def remaining (s : Setting) (script : Bool) : List Stmt → Place → CompileM Fragment
  | [], _ => return .empty
  | .function _ :: rest, p => remaining s script rest p
  | item :: rest, p => do
    let a ← stmt s script item p
    let b ← remaining s script rest (p.after a)
    return a ++ b

def stmts (s : Setting) (script : Bool) : List Stmt → Place → CompileM Fragment
  | [], _ => return .empty
  | item :: rest, p => do
    let a ← stmt s script item p
    let b ← stmts s script rest (p.after a)
    return a ++ b

def bindings (s : Setting) (span : Span) : List (String × Option Expr) → Place → CompileM Fragment
  | [], _ => return .empty
  | (name, some value) :: rest, p => do
    checkName s name span
    let a ← expr s value p
    let b ← bindings s span rest (p.after a).next
    return a ++ .one (.defineVar name) span.line ++ b
  | (name, none) :: rest, p => do
    checkName s name span
    let b ← bindings s span rest p.next
    return .one (.declareVar name) span.line ++ b

def stmt (s : Setting) (script : Bool) : Stmt → Place → CompileM Fragment
  | .var names span, p => bindings s span names p
  | .function decl, p => do
    checkName s (boundName decl) decl.span
    let unit ← function s decl
    return declaration p decl unit
  | .expr value, p => do
    let a ← expr s value p
    return a ++ .one (discard script) value.span.line
  | .block items _, p => stmts s script items p
  | .cond test yes none span, p => do
    let a ← expr s test p
    let q := (p.after a).next
    let b ← stmt s script yes q
    return a ++ .one (.jumpIfFalse (q.after b).address) span.line ++ b
  | .cond test yes (some no) span, p => do
    let a ← expr s test p
    let q := (p.after a).next
    let b ← stmt s script yes q
    let r := (q.after b).next
    let c ← stmt s script no r
    return a ++ .one (.jumpIfFalse r.address) span.line ++ b
      ++ .one (.jump (r.after c).address) span.line ++ c
  | .loop test body span, p => do
    let a ← expr s test p
    let q := (p.after a).next
    let b ← stmt s script body q
    return a ++ .one (.jumpIfFalse (q.after b).next.address) span.line ++ b
      ++ .one (.jump p.address) span.line
  | .return value span, p => do
    if script then throw ⟨.returnOutside, span⟩
    let a ← match value with
      | some value => expr s value p
      | none => pure (.one .undefined span.line)
    return a ++ .one .return span.line
  | .throw value span, p => do
    let a ← expr s value p
    return a ++ .one .throw span.line
  | .try body name handler span, p => do
    checkName s name span
    let a ← stmts s script body p.next
    let q := (p.next.after a).next
    let b ← stmts s script handler q.next
    let exit := (q.next.after b).next
    return .one (.try q.address exit.address) span.line ++ a ++ .one .leave span.line
      ++ .one (.enterCatch name) span.line ++ b ++ .one .exitCatch span.line
  | .empty _, _ => return .empty

end

def script (s : Setting) (items : List Stmt) : CompileM CodeUnit := do
  let a ← hoisted s items .start
  let b ← remaining s true items (Place.start.after a)
  return finish s "script" 1 [] true (a ++ b)

end Compiler

def SyntaxTree.compile (tree : SyntaxTree) (strict : Bool) : Except Diagnostic CodeUnit :=
  match Compiler.script ⟨tree.name, strict⟩ tree.items with
  | .ok unit => .ok unit
  | .error e => .error (e.diagnostic.inFile tree.name)

end ScriptEngine
