import ScriptEngine.Engine.Create
import ScriptEngine.Repl

namespace ScriptEngine.CommandLine

inductive Command where
  | run (path : String)
  | eval (source : String)
  | repl
deriving DecidableEq, Repr

inductive Request where
  | misuse
  | help
  | version
  | start (flags : Flags) (limits : Limits) (command : Command)
deriving DecidableEq, Repr

structure Options where
  strict : Bool := false
  stackSize : Option Nat := none
deriving DecidableEq, Repr

def size? (text : String) : Option Nat :=
  let digits := match text.toList with
    | '+' :: digits => digits
    | digits => digits
  let n := Decimal.digitsValue digits
  if digits ≠ [] ∧ digits.all Char.isDigit ∧ n < Limits.words then some n else none

inductive Argument where
  | separator
  | strict
  | stackSize (attached : Option String)
  | help
  | version
  | unknownOption
  | plain (text : String)
deriving DecidableEq, Repr

def classify (arg : String) : Argument :=
  match arg.toList with
  | ['-', '-'] => .separator
  | '-' :: '-' :: name =>
    let (key, value) := name.span (· ≠ '=')
    match String.ofList key, value with
    | "strict", [] => .strict
    | "stack-size", [] => .stackSize none
    | "stack-size", _ :: value => .stackSize (some (String.ofList value))
    | "help", [] => .help
    | "version", [] => .version
    | _, _ => .unknownOption
  | ['-'] => .plain arg
  | '-' :: 'h' :: _ => .help
  | '-' :: 'V' :: _ => .version
  | '-' :: _ => .unknownOption
  | _ => .plain arg

def options (o : Options) : List String → Except Request (Options × Option (List String) × List String)
  | [] => .ok (o, none, [])
  | arg :: args =>
    match classify arg with
    | .plain _ => .ok (o, none, arg :: args)
    | .separator => .ok (o, some args, [])
    | .strict => if o.strict then .error .misuse else options { o with strict := true } args
    | .stackSize (some value) =>
      match o.stackSize, size? value with
      | none, some n => options { o with stackSize := some n } args
      | _, _ => .error .misuse
    | .stackSize none =>
      match o.stackSize, args with
      | none, value :: args =>
        match size? value with
        | some n => options { o with stackSize := some n } args
        | none => .error .misuse
      | _, _ => .error .misuse
    | .help => .error .help
    | .version => .error .version
    | .unknownOption => .error .misuse

theorem length_options_le {o p : Options} {args rest : List String} {tail : Option (List String)}
    (h : options o args = .ok (p, tail, rest)) : rest.length ≤ args.length := by
  fun_induction options o args with
  | case1 => simp_all
  | case2 => simp_all
  | case3 => simp_all
  | case4 => simp at h
  | case5 _ _ _ _ _ ih => have := ih h; simp only [List.length_cons]; omega
  | case6 _ _ _ _ _ _ _ _ ih => have := ih h; simp only [List.length_cons]; omega
  | case7 => simp at h
  | case8 _ _ _ _ _ _ _ _ ih => have := ih h; simp only [List.length_cons]; omega
  | case9 => simp at h
  | case10 => simp at h
  | case11 => simp at h
  | case12 => simp at h
  | case13 => simp at h

def operands (o : Options) (args : List String) : Except Request (Options × List String) :=
  match _h : options o args with
  | .error .version => .error .misuse
  | .error request => .error request
  | .ok (o, some plain, _) => .ok (o, plain)
  | .ok (o, none, []) => .ok (o, [])
  | .ok (o, none, arg :: rest) => (operands o rest).map fun (o, plain) => (o, arg :: plain)
termination_by args.length
decreasing_by
  have := length_options_le _h
  simp only [List.length_cons] at this
  omega

def command? : String → List String → Option Command
  | "run", [path] => if path.isEmpty then none else some (.run path)
  | "eval", [source] => some (.eval source)
  | "repl", [] => some .repl
  | _, _ => none

def start (outer inner : Options) (command : Command) : Request :=
  .start ⟨outer.strict || inner.strict⟩
    { stackSize := (inner.stackSize.or outer.stackSize).getD ({} : Limits).stackSize } command

def isCommand (name : String) : Bool :=
  name = "run" ∨ name = "eval" ∨ name = "repl"

def request (args : List String) : Request :=
  match options {} args with
  | .error request => request
  | .ok (o, some [], _) | .ok (o, none, []) => start o {} .repl
  | .ok (_, some _, _) => .misuse
  | .ok (outer, none, name :: rest) =>
    if name = "help" then .help
    else if isCommand name then
      match operands {} rest with
      | .error request => request
      | .ok (inner, plain) =>
        match command? name plain with
        | some command => start outer inner command
        | none => .misuse
    else .misuse

structure Outcome where
  code : Nat
  output : String
  diagnostics : String
deriving DecidableEq, Repr

def usage : String :=
  "Usage: lumen [--strict] [--stack-size <STACK_SIZE>] [run <SCRIPT> | eval <SOURCE> | repl]\n"

def version : String := "lumen 0.1.0\n"

def finish (result : Bool × Engine) : Outcome :=
  ⟨if result.1 then 0 else 1, result.2.output.written, result.2.diagnostics.written⟩

def perform (fuel : Nat) (files : String → Option Stream) (input : List UInt8) (command : Command)
    (e : Engine) : Option (Bool × Engine) :=
  match command with
  | .run path => e.runLoaded fuel (Engine.loadFile path (files path))
  | .eval source => e.runLoaded fuel (Engine.load "[string]" source .program)
  | .repl => Repl.session fuel (Repl.splitLines input) e

def respond (fuel : Nat) (files : String → Option Stream) (input : List UInt8) :
    Request → Option Outcome
  | .misuse => some ⟨2, "", usage⟩
  | .help => some ⟨0, usage, ""⟩
  | .version => some ⟨0, version, ""⟩
  | .start flags limits command =>
    match Engine.create? flags limits with
    | none => some ⟨1, "", "cannot create interpreter\n"⟩
    | some e => (perform fuel files input command e).map finish

end ScriptEngine.CommandLine
