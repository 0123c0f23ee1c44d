namespace ScriptEngine

inductive Sink where
  | capture (written : String)
  | closed (reason : String)
  | stuck (reason : String)
deriving DecidableEq, Repr

namespace Sink

def write (text : String) : Sink → Except String Sink
  | .capture written => .ok (.capture (written ++ text))
  | .closed reason | .stuck reason => .error reason

def tryWrite (text : String) (s : Sink) : Sink :=
  match s.write text with
  | .ok s => s
  | .error _ => s

def written : Sink → String
  | .capture written => written
  | .closed _ | .stuck _ => ""

end Sink

end ScriptEngine
