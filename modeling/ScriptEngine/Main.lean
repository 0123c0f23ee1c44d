import ScriptEngine.CommandLine

namespace ScriptEngine.Main

open CommandLine

def unlimited : Nat := 0x4000000000000000

def contents (path : String) : IO (Option Stream) := do
  try
    let bytes ← IO.FS.readBinFile path
    return some (.ofBytes bytes.toList)
  catch _ => return none

partial def readAll (input : IO.FS.Stream) (sofar : ByteArray) : IO ByteArray := do
  let bytes ← input.read 65536
  if bytes.isEmpty then return sofar else readAll input (sofar ++ bytes)

def print (o : Outcome) : IO UInt32 := do
  (← IO.getStdout).putStr o.output
  (← IO.getStderr).putStr o.diagnostics
  return o.code.toUInt32

def fileOf : Request → IO (Option Stream)
  | .start _ _ (.run path) => contents path
  | _ => return none

def inputOf : Request → IO (List UInt8)
  | .start _ _ .repl => return (← readAll (← IO.getStdin) .empty).toList
  | _ => return []

def answer (request : Request) : IO UInt32 := do
  let file ← fileOf request
  let input ← inputOf request
  match respond unlimited (fun _ => file) input request with
  | some o => print o
  | none => return 1

end ScriptEngine.Main

def main (args : List String) : IO UInt32 :=
  ScriptEngine.Main.answer (ScriptEngine.CommandLine.request args)
