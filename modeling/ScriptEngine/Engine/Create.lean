import ScriptEngine.Engine

namespace ScriptEngine.Engine

def install (owner : Handle) (h : Heap) (f : Builtin) : Heap :=
  let (a, h) := h.allocObject (.of (.native f))
  (h.insertProperty? owner f.name (.object a)).getD h

def setGlobal (owner : Handle) (h : Heap) (entry : String × Value) : Heap :=
  (h.insertProperty? owner entry.1 entry.2).getD h

def populate (global : Handle) (h : Heap) : Heap :=
  let h := Builtin.globals.foldl (install global) h
  let (math, h) := h.allocObject (.of .plain)
  let h := Builtin.mathMembers.foldl (install math) h
  let h := setGlobal math h ("PI", .number pi)
  [("Math", .object math), ("NaN", .number Decimal.notANumber),
    ("Infinity", .number Decimal.infinite), ("undefined", .undefined)].foldl (setGlobal global) h

def create? (flags : Flags) (limits : Limits) : Option Engine :=
  if limits.stackFits then
    let (registry, h) := Heap.empty.allocObject (.of .plain)
    let (global, h) := h.allocObject (.of .plain)
    let (globalEnv, h) := Environment.alloc h (some global) none
    some
      { strict := flags.strict, limits, stack := #[], trace := #[.bottom], frames := []
        nextSerial := 0, heap := populate global h, nextRef := 0, registry, global, globalEnv
        env := globalEnv, scopes := #[], loops := 0, ledger := .empty
        output := .capture "", diagnostics := .capture "" }
  else none

end ScriptEngine.Engine
