import ScriptEngine.Proofs.Heap.Cells

namespace ScriptEngine

variable {P Q : CodeUnit → Prop}

def Cell.ClosesOver (P : CodeUnit → Prop) : Cell → Prop
  | .object ⟨.closure u _, _, _⟩ => P u
  | _ => True

theorem Cell.ClosesOver.mono {cell : Cell} (hc : cell.ClosesOver P) (hpq : ∀ u, P u → Q u) : cell.ClosesOver Q := by
  cases cell with
  | environment env => trivial
  | object o =>
    obtain ⟨kind, _, _⟩ := o
    cases kind with
    | closure u env => exact hpq u hc
    | plain | error | native => trivial

namespace Heap

def ClosesOver (P : CodeUnit → Prop) (h : Heap) : Prop :=
  ∀ a s, h.slot? a = some s → s.cell.ClosesOver P

namespace ClosesOver

variable {h h' : Heap}

theorem empty : Heap.empty.ClosesOver P := by
  intro a s hs
  simp [slot?, Heap.empty] at hs

theorem unit (hh : h.ClosesOver P) {a : Handle} {u : CodeUnit} {env : Handle} {parent : Option Handle}
    {properties : PropertyMap Value} (ha : h.object? a = some ⟨.closure u env, parent, properties⟩) : P u := by
  cases hs : h.slot? a with
  | none => simp [object?, cell?, hs] at ha
  | some s =>
    have hc := hh a s hs
    cases hcell : s.cell with
    | environment e => simp [object?, cell?, hs, hcell] at ha
    | object o =>
      simp only [object?, cell?, hs, hcell, Option.map_some, Option.some.injEq] at ha
      subst ha
      rw [hcell] at hc
      exact hc

theorem alloc (hh : h.ClosesOver P) {cell : Cell} (hc : cell.ClosesOver P) : (h.alloc cell).2.ClosesOver P := by
  intro a s hs
  rw [slot?_alloc] at hs
  split at hs
  · cases hs; exact hc
  · exact hh a s hs

theorem write (hh : h.ClosesOver P) {a : Handle} {mark : UInt32} {born : Nat} {o : Object}
    (properties : PropertyMap Value) (hs : h.slot? a = some ⟨mark, born, .object o⟩) :
    (h.setSlot a ⟨mark, born, .object { o with properties }⟩).ClosesOver P := by
  intro b r hr
  rw [slot?_setSlot] at hr
  split at hr
  · cases hr
    have ho := hh a _ hs
    obtain ⟨kind, _, _⟩ := o
    cases kind <;> exact ho
  · exact hh b r hr

theorem insertProperty? (hh : h.ClosesOver P) {a : Handle} {name : String} {value : Value}
    (hi : h.insertProperty? a name value = some h') : h'.ClosesOver P := by
  obtain ⟨mark, born, o, hs, rfl⟩ := insertProperty?_eq_some hi
  exact hh.write _ hs

theorem collectSince (hh : h.ClosesOver P) (since : Nat) (roots : List Handle) :
    (h.collectSince since roots).2.ClosesOver P := by
  intro a s hs
  have hc := content_of_collectSince hs
  cases hr : h.slot? a with
  | none => simp [hr] at hc
  | some r =>
    simp only [hr, Option.map_some, Option.some.injEq, Slot.content, Prod.mk.injEq] at hc
    rw [← hc.2]
    exact hh a r hr

theorem environment (hh : h.ClosesOver P) (names outer : Option Handle) :
    (Environment.alloc h names outer).2.ClosesOver P := by
  cases names with
  | some v => exact hh.alloc trivial
  | none =>
    have hp : (h.allocObject (.of .plain)).2.ClosesOver P := hh.alloc trivial
    exact hp.alloc trivial

end ClosesOver

end Heap

end ScriptEngine
