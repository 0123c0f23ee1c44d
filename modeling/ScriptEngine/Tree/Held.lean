import ScriptEngine.Ledger
import ScriptEngine.Tree.Parser

namespace ScriptEngine

structure SyntaxTree where
  name : String
  items : List Stmt

namespace SyntaxTree

def acquire (name source : String) (l : Ledger) : Except Diagnostic SyntaxTree × Ledger :=
  let held := l.acquire .syntaxTree
  match parse source with
  | .ok items => (.ok ⟨name, items⟩, held)
  | .error d => (.error (d.inFile name), held.release .syntaxTree)

def release (l : Ledger) : Ledger :=
  l.release .syntaxTree

end SyntaxTree

end ScriptEngine
