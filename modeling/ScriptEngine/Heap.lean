import ScriptEngine.Builtin
import ScriptEngine.Code
import ScriptEngine.PropertyMap

/-!
The heap: numbered slots that hold objects and environments. Freed slots are used again, the one
freed last first. Each cell keeps the number of cells made before it, its birth.
-/

namespace ScriptEngine

inductive ObjectClass where
  | plain
  | error
  | closure (unit : CodeUnit) (env : Handle)
  | native (function : Builtin)

structure Object where
  kind : ObjectClass
  parent : Option Handle
  properties : PropertyMap Value

namespace Object

def of (c : ObjectClass) : Object :=
  ⟨c, none, []⟩

def isCallable (o : Object) : Bool :=
  match o.kind with
  | .closure _ _ | .native _ => true
  | .plain | .error => false

end Object

structure Environment where
  names : Handle
  outer : Option Handle
deriving DecidableEq, Repr

inductive Cell where
  | object (object : Object)
  | environment (environment : Environment)

/-- The mark is the number of the collection that last reached the cell. -/
structure Slot where
  mark : UInt32
  born : Nat
  cell : Cell

structure Heap where
  slots : Array (Option Slot)
  free : List Nat
  epoch : UInt32
  born : Nat
  live : Nat

namespace Heap

def empty : Heap :=
  ⟨#[], [], 1, 0, 0⟩

def slot? (h : Heap) (a : Handle) : Option Slot :=
  h.slots[a.index]?.join

def cell? (h : Heap) (a : Handle) : Option Cell :=
  (h.slot? a).map (·.cell)

def object? (h : Heap) (a : Handle) : Option Object :=
  match h.cell? a with
  | some (.object o) => some o
  | _ => none

def environment? (h : Heap) (a : Handle) : Option Environment :=
  match h.cell? a with
  | some (.environment e) => some e
  | _ => none

def contains (h : Heap) (a : Handle) : Bool :=
  (h.slot? a).isSome

def alloc (h : Heap) (cell : Cell) : Handle × Heap :=
  let slot := some ⟨h.epoch, h.born, cell⟩
  match h.free with
  | i :: free =>
    (⟨i⟩, { h with slots := h.slots.setIfInBounds i slot, free, born := h.born + 1, live := h.live + 1 })
  | [] =>
    (⟨h.slots.size⟩, { h with slots := h.slots.push slot, born := h.born + 1, live := h.live + 1 })

def allocObject (h : Heap) (o : Object) : Handle × Heap :=
  h.alloc (.object o)

def setSlot (h : Heap) (a : Handle) (s : Slot) : Heap :=
  { h with slots := h.slots.setIfInBounds a.index (some s) }

def insertProperty? (h : Heap) (a : Handle) (name : String) (value : Value) : Option Heap :=
  match h.slot? a with
  | some ⟨mark, born, .object o⟩ =>
    some (h.setSlot a ⟨mark, born, .object { o with properties := o.properties.insert name value }⟩)
  | _ => none

def eraseProperty (h : Heap) (a : Handle) (name : String) : Heap :=
  match h.slot? a with
  | some ⟨mark, born, .object o⟩ =>
    h.setSlot a ⟨mark, born, .object { o with properties := o.properties.erase name }⟩
  | _ => h

/-- Longer than every chain of links that visits no cell twice: no more cells were ever made. -/
def chainLimit (h : Heap) : Nat :=
  h.born + 1

end Heap

end ScriptEngine
