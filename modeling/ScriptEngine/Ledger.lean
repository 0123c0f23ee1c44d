namespace ScriptEngine

inductive Resource where
  | syntaxTree | sourceBuffer | fileHandle
deriving DecidableEq, Repr

structure Ledger where
  syntaxTrees : Nat
  sourceBuffers : Nat
  openFiles : Nat
  filesClosed : Nat
deriving DecidableEq, Repr

namespace Ledger

def empty : Ledger := ⟨0, 0, 0, 0⟩

def held (l : Ledger) : Resource → Nat
  | .syntaxTree => l.syntaxTrees
  | .sourceBuffer => l.sourceBuffers
  | .fileHandle => l.openFiles

def acquire (l : Ledger) : Resource → Ledger
  | .syntaxTree => { l with syntaxTrees := l.syntaxTrees + 1 }
  | .sourceBuffer => { l with sourceBuffers := l.sourceBuffers + 1 }
  | .fileHandle => { l with openFiles := l.openFiles + 1 }

def release (l : Ledger) : Resource → Ledger
  | .syntaxTree => { l with syntaxTrees := l.syntaxTrees - 1 }
  | .sourceBuffer => { l with sourceBuffers := l.sourceBuffers - 1 }
  | .fileHandle => { l with openFiles := l.openFiles - 1, filesClosed := l.filesClosed + 1 }

end Ledger

end ScriptEngine
