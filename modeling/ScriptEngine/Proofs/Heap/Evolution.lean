import ScriptEngine.Heap.Property
import ScriptEngine.Proofs.Code.Compiled
import ScriptEngine.Proofs.Heap.Closures

namespace ScriptEngine

def Cell.OnlyCompiled : Cell → Prop
  | .object ⟨.closure u _, _, _⟩ => u.Compiled
  | _ => True

theorem Cell.onlyCompiled_iff (cell : Cell) : cell.OnlyCompiled ↔ cell.ClosesOver CodeUnit.Compiled := by
  cases cell with
  | environment env => exact Iff.rfl
  | object o =>
    obtain ⟨kind, _, _⟩ := o
    cases kind <;> exact Iff.rfl

namespace Heap

inductive Evolves (h : Heap) : Nat → Heap → Prop
  | refl {n : Nat} : Evolves h n h
  | alloc {n : Nat} {h' : Heap} {cell : Cell} :
      Evolves h n h' → cell.OnlyCompiled → Evolves h n (h'.alloc cell).2
  | write {n : Nat} {h' : Heap} {a : Handle} {mark : UInt32} {born : Nat} {o : Object}
      (properties : PropertyMap Value) :
      Evolves h n h' → h'.slot? a = some ⟨mark, born, .object o⟩ →
        Evolves h n (h'.setSlot a ⟨mark, born, .object { o with properties }⟩)
  | collect {n : Nat} {h' : Heap} (since : Nat) (roots : List Handle) :
      Evolves h n h' → Evolves h (n + 1) (h'.collectSince since roots).2

namespace Evolves

variable {h h' h'' : Heap} {m n : Nat}

theorem mono (hh : h.Evolves m h') (hmn : m ≤ n) : h.Evolves n h' := by
  induction hh generalizing n with
  | refl => exact .refl
  | alloc _ hc ih => exact (ih hmn).alloc hc
  | write properties _ hs ih => exact (ih hmn).write properties hs
  | collect since roots _ ih =>
    cases n with
    | zero => omega
    | succ n => exact (ih (by omega)).collect since roots

theorem trans (hh : h.Evolves m h') (hh' : h'.Evolves n h'') : h.Evolves (m + n) h'' := by
  induction hh' with
  | refl => exact hh.mono (by omega)
  | alloc _ hc ih => exact ih.alloc hc
  | write properties _ hs ih => exact ih.write properties hs
  | collect since roots _ ih => exact ih.collect since roots

theorem allocObject {o : Object} (hh : h.Evolves n h') (ho : (Cell.object o).OnlyCompiled) :
    h.Evolves n (h'.allocObject o).2 := hh.alloc ho

theorem insertProperty? {a : Handle} {name : String} {value : Value} (hh : h.Evolves n h')
    (hi : h'.insertProperty? a name value = some h'') : h.Evolves n h'' := by
  obtain ⟨mark, born, o, hs, rfl⟩ := insertProperty?_eq_some hi
  exact hh.write _ hs

theorem eraseProperty (hh : h.Evolves n h') (a : Handle) (name : String) :
    h.Evolves n (h'.eraseProperty a name) := by
  simp only [Heap.eraseProperty]
  split
  · rename_i hs
    exact hh.write _ hs
  · exact hh

theorem setProperty {target value : Value} {name : String} (hh : h.Evolves n h')
    (hs : h'.setProperty target name value = .ok h'') : h.Evolves n h'' := by
  cases target with
  | object a =>
    simp only [Heap.setProperty] at hs
    split at hs
    · rename_i hi
      cases hs
      exact hh.insertProperty? hi
    · cases hs
  | string | boolean | number => cases hs; exact hh
  | undefined | null => cases hs

variable {env : Handle} {name : String} {value : Value}

theorem environment (hh : h.Evolves n h') (names outer : Option Handle) :
    h.Evolves n (Environment.alloc h' names outer).2 := by
  cases names with
  | some v => exact hh.alloc trivial
  | none =>
    have hp : h.Evolves n (h'.allocObject (.of .plain)).2 := hh.allocObject trivial
    exact hp.alloc trivial

theorem define (hh : h.Evolves n h') (hd : Environment.define h' env name value = .ok h'') :
    h.Evolves n h'' := by
  simp only [Environment.define, bind_eq_ok] at hd
  obtain ⟨v, _, hv⟩ := hd
  split at hv
  · rename_i hi
    cases hv
    exact hh.insertProperty? hi
  · exact absurd hv throw_ne_ok

theorem declare (hh : h.Evolves n h') (hd : Environment.declare h' env name = .ok h'') :
    h.Evolves n h'' := by
  simp only [Environment.declare, bind_eq_ok] at hd
  obtain ⟨own, _, ho⟩ := hd
  split at ho
  · cases ho; exact hh
  · exact hh.define ho

theorem assign {strict : Bool} (hh : h.Evolves n h')
    (ha : Environment.assign h' env name value strict = .ok h'') : h.Evolves n h'' := by
  simp only [Environment.assign, bind_eq_ok] at ha
  obtain ⟨binder, _, hb⟩ := ha
  cases binder with
  | bound scope => exact hh.define hb
  | outermost scope =>
    simp only at hb
    split at hb
    · exact absurd hb throw_ne_ok
    · exact hh.define hb

end Evolves

def OnlyCompiled (h : Heap) : Prop :=
  ∀ a s, h.slot? a = some s → s.cell.OnlyCompiled

namespace OnlyCompiled

variable {h h' : Heap}

theorem iff_closesOver : h.OnlyCompiled ↔ h.ClosesOver CodeUnit.Compiled := by
  simp only [OnlyCompiled, ClosesOver, Cell.onlyCompiled_iff]

theorem unit (hh : h.OnlyCompiled) {a : Handle} {u : CodeUnit} {env : Handle}
    {parent : Option Handle} {properties : PropertyMap Value}
    (ha : h.object? a = some ⟨.closure u env, parent, properties⟩) : u.Compiled :=
  (iff_closesOver.mp hh).unit ha

theorem alloc (hh : h.OnlyCompiled) {cell : Cell} (hc : cell.OnlyCompiled) : (h.alloc cell).2.OnlyCompiled :=
  iff_closesOver.mpr ((iff_closesOver.mp hh).alloc (cell.onlyCompiled_iff.mp hc))

theorem write (hh : h.OnlyCompiled) {a : Handle} {mark : UInt32} {born : Nat} {o : Object}
    (properties : PropertyMap Value) (hs : h.slot? a = some ⟨mark, born, .object o⟩) :
    (h.setSlot a ⟨mark, born, .object { o with properties }⟩).OnlyCompiled :=
  iff_closesOver.mpr ((iff_closesOver.mp hh).write properties hs)

theorem collectSince (hh : h.OnlyCompiled) (since : Nat) (roots : List Handle) :
    (h.collectSince since roots).2.OnlyCompiled :=
  iff_closesOver.mpr ((iff_closesOver.mp hh).collectSince since roots)

theorem evolves {n : Nat} (hh : h.OnlyCompiled) (he : h.Evolves n h') : h'.OnlyCompiled := by
  induction he with
  | refl => exact hh
  | alloc _ hc ih => exact ih.alloc hc
  | write properties _ hs ih => exact ih.write properties hs
  | collect since roots _ ih => exact ih.collectSince since roots

end OnlyCompiled

end Heap

end ScriptEngine
