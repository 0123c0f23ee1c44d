import ScriptEngine.Source.Span

namespace ScriptEngine

inductive Stage where
  | scanning | parsing | compiling
deriving DecidableEq, Repr

structure Diagnostic where
  stage : Stage
  message : String
  file : Option String
  span : Option Span
  notes : List String
deriving DecidableEq, Repr

namespace Diagnostic

def of (stage : Stage) (message : String) (span : Span) : Diagnostic :=
  ⟨stage, message, none, some span, []⟩

def inFile (file : String) (d : Diagnostic) : Diagnostic :=
  { d with file := some file }

def place : Option String → Option Span → String
  | some file, some span => file ++ ":" ++ toString span.line ++ ": "
  | some file, none => file ++ ": "
  | none, some span => toString span.line ++ ": "
  | none, none => ""

def render (d : Diagnostic) : String :=
  place d.file d.span ++ d.message ++ String.join (d.notes.map ("\n  note: " ++ ·))

end Diagnostic

end ScriptEngine
