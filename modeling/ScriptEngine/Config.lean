namespace ScriptEngine

structure Flags where
  strict : Bool
deriving DecidableEq, Repr

namespace Flags

def none : Flags := ⟨false⟩

def strictOnly : Flags := ⟨true⟩

def union (a b : Flags) : Flags := ⟨a.strict || b.strict⟩

def contains (a b : Flags) : Bool := a.strict || !b.strict

end Flags

/-- Capacities that stay fixed: slots of the value stack, entries of the call trace, protected
scopes open at a time, and how often the instruction loop may be entered from outside. -/
structure Limits where
  stackSize : Nat := 256
  traceLimit : Nat := 128
  tryLimit : Nat := 64
  reentryLimit : Nat := 24
deriving DecidableEq, Repr

namespace Limits

def withTraceLimit (n : Nat) (l : Limits) : Limits :=
  { l with traceLimit := max n 1 }

def words : Nat := 0x10000000000000000

def slotBytes : Nat := 24

def storageEnd : Nat := 0x8000000000000000

def stackFits (l : Limits) : Bool :=
  (l.stackSize + 1) % words * slotBytes < storageEnd

end Limits

end ScriptEngine
