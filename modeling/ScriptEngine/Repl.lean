import ScriptEngine.Machine

namespace ScriptEngine

namespace Engine

def evalLine (fuel : Nat) (line : String) (e : Engine) : Option (Except String String × Engine) :=
  (e.evaluate fuel (load "[stdin]" line .program)).map fun
    | .ok .undefined e => (.ok "", e)
    | .ok value e => (.ok (e.display value), e)
    | .error _ e =>
      let (value, e) := e.pop
      (.error (e.display value), e)

def present (line : String) (e : Engine) : Engine :=
  { e with output := e.output.tryWrite (line ++ "\n") }

end Engine

namespace Repl

def command? (line : String) : Option String :=
  let line := Text.trim line
  if line = ":quit" ∨ line = ":exit" then none else some line

def answer (fuel : Nat) (line : String) (e : Engine) : Option Engine :=
  if line.isEmpty then some e
  else (e.evalLine fuel line).map fun
    | (.ok text, e) => if text.isEmpty then e else e.present text
    | (.error text, e) => e.report text

def splitLines : List UInt8 → List (List UInt8)
  | [] => []
  | b :: bs =>
    if b = 0x0A then [] :: splitLines bs
    else match splitLines bs with
      | [] => [[b]]
      | line :: lines => (b :: line) :: lines

def lineText? (line : List UInt8) : Option String :=
  String.fromUTF8? ⟨line.toArray⟩

def unreadableLine : String :=
  "Error: line editor failed: stream did not contain valid UTF-8"

def session (fuel : Nat) : List (List UInt8) → Engine → Option (Bool × Engine)
  | [], e => some (true, e)
  | line :: lines, e =>
    match lineText? line with
    | none => some (false, e.report unreadableLine)
    | some text =>
      match command? text with
      | none => some (true, e)
      | some command => (answer fuel command e).bind (session fuel lines)

end Repl

end ScriptEngine
