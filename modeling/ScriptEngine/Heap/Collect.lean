import ScriptEngine.Heap

namespace ScriptEngine

def ObjectClass.links : ObjectClass → List Handle
  | .closure _ env => [env]
  | .plain | .error | .native _ => []

def Cell.links : Cell → List Handle
  | .object o => o.parent.toList ++ o.properties.filterMap (·.2.handle?) ++ o.kind.links
  | .environment e => e.names :: e.outer.toList

namespace Heap

def unmarked (epoch : UInt32) : List (Option Slot) → Nat
  | [] => 0
  | none :: slots => unmarked epoch slots
  | some s :: slots => if s.mark = epoch then unmarked epoch slots else s.cell.links.length + 1 + unmarked epoch slots

theorem unmarked_set_lt {epoch : UInt32} {slots : List (Option Slot)} {i : Nat} {s : Slot} (hs : slots[i]? = some (some s))
    (hm : s.mark ≠ epoch) :
    s.cell.links.length + unmarked epoch (slots.set i (some { s with mark := epoch })) < unmarked epoch slots := by
  induction slots generalizing i with
  | nil => cases hs
  | cons slot slots ih =>
    cases i with
    | zero =>
      obtain rfl := Option.some.inj hs
      simp only [List.set_cons_zero, unmarked, hm, if_true, if_false]
      omega
    | succ i =>
      have hrest := ih hs
      cases slot with
      | none => exact hrest
      | some s' =>
        simp only [List.set_cons_succ, unmarked]
        split <;> omega

def mark (epoch : UInt32) (slots : Array (Option Slot)) (pending : List Handle) :
    Array (Option Slot) :=
  match pending with
  | [] => slots
  | a :: rest =>
    if hi : a.index < slots.size then
      match hs : slots[a.index] with
      | none => mark epoch slots rest
      | some s =>
        if hm : s.mark = epoch then mark epoch slots rest
        else mark epoch (slots.set a.index (some { s with mark := epoch })) (s.cell.links ++ rest)
    else mark epoch slots rest
termination_by unmarked epoch slots.toList + pending.length
decreasing_by
  · simp
  · simp
  · have hat : slots.toList[a.index]? = some (some s) := by simp [hi, hs]
    have hlt := unmarked_set_lt hat hm
    simp only [Array.toList_set, List.length_append, List.length_cons]
    omega
  · simp

def isGarbage (epoch : UInt32) (since : Nat) : Option Slot → Bool
  | some s => s.mark ≠ epoch ∧ since ≤ s.born
  | none => false

def garbage (epoch : UInt32) (since : Nat) (slots : Array (Option Slot)) : List Nat :=
  (List.range slots.size).filter fun i => isGarbage epoch since slots[i]?.join

/-- The number of the next collection; zero is left out when the numbers start over. -/
def nextEpoch (epoch : UInt32) : UInt32 :=
  max (epoch + 1) 1

/-- Frees the cells born at `since` or later that the roots do not reach, and counts them. -/
def collectSince (h : Heap) (since : Nat) (roots : List Handle) : Nat × Heap :=
  let epoch := nextEpoch h.epoch
  let marked := mark epoch h.slots roots
  let freed := garbage epoch since marked
  (freed.length,
    { h with
      slots := marked.map fun s => if isGarbage epoch since s then none else s
      free := freed.reverse ++ h.free
      epoch
      live := h.live - freed.length })

def collect (h : Heap) (roots : List Handle) : Nat × Heap :=
  h.collectSince 0 roots

end Heap

end ScriptEngine
