import ScriptEngine.Environment
import ScriptEngine.Heap.Collect

namespace ScriptEngine

def Slot.content (s : Slot) : Nat × Cell := (s.born, s.cell)

namespace Heap

theorem slot?_setSlot (h : Heap) (a b : Handle) (s : Slot) :
    (h.setSlot a s).slot? b = if a = b ∧ b.index < h.slots.size then some s else h.slot? b := by
  obtain ⟨i⟩ := a
  obtain ⟨j⟩ := b
  simp only [slot?, setSlot, Array.getElem?_setIfInBounds, Handle.mk.injEq]
  by_cases hij : i = j
  · subst hij
    by_cases hi : i < h.slots.size <;> simp [hi]
  · simp [hij]

theorem index_lt_of_slot? {h : Heap} {a : Handle} {s : Slot} (hs : h.slot? a = some s) :
    a.index < h.slots.size := by
  rcases Nat.lt_or_ge a.index h.slots.size with hlt | hge
  · exact hlt
  · simp [slot?, Array.getElem?_eq_none hge] at hs

theorem object?_of_slot? {h : Heap} {a : Handle} {s : Slot} {o : Object} (hs : h.slot? a = some s)
    (hc : s.cell = .object o) : h.object? a = some o := by
  simp [object?, cell?, hs, hc]

theorem born_alloc (h : Heap) (cell : Cell) : (h.alloc cell).2.born = h.born + 1 := by
  simp only [alloc]
  split <;> rfl

theorem slot?_alloc (h : Heap) (cell : Cell) (b : Handle) :
    (h.alloc cell).2.slot? b =
      if (h.alloc cell).1 = b ∧ b.index < (h.alloc cell).2.slots.size then
        some ⟨h.epoch, h.born, cell⟩ else h.slot? b := by
  obtain ⟨j⟩ := b
  cases hf : h.free with
  | nil =>
    simp only [alloc, hf, slot?, Array.getElem?_push, Array.size_push, Handle.mk.injEq]
    by_cases hj : j = h.slots.size
    · subst hj; simp
    · simp [hj, Ne.symm hj]
  | cons i free =>
    simp only [alloc, hf, slot?, Array.getElem?_setIfInBounds, Array.size_setIfInBounds,
      Handle.mk.injEq]
    by_cases hij : i = j
    · subst hij
      by_cases hi : i < h.slots.size <;> simp [hi]
    · simp [hij]

theorem insertProperty?_eq_some {h h' : Heap} {a : Handle} {name : String} {value : Value}
    (hi : h.insertProperty? a name value = some h') :
    ∃ mark born o, h.slot? a = some ⟨mark, born, .object o⟩ ∧
      h' = h.setSlot a ⟨mark, born, .object { o with properties := o.properties.insert name value }⟩ := by
  simp only [insertProperty?] at hi
  split at hi
  · rename_i mark born o hs
    exact ⟨mark, born, o, hs, (Option.some.inj hi).symm⟩
  · cases hi

theorem content_mark (epoch : UInt32) (slots : Array (Option Slot)) (pending : List Handle) (i : Nat) :
    (mark epoch slots pending)[i]?.map (·.map Slot.content) = slots[i]?.map (·.map Slot.content) := by
  fun_induction mark epoch slots pending with
  | case1 => rfl
  | case2 slots a rest hi hs ih => exact ih
  | case3 slots a rest hi s hs hm ih => exact ih
  | case4 slots a rest hi s hs hm ih =>
    rw [ih, Array.getElem?_set]
    split
    · rename_i hai
      subst hai
      simp [Array.getElem?_eq_getElem hi, hs, Slot.content]
    · rfl
  | case5 slots a rest hi ih => exact ih

theorem slot?_collectSince (h : Heap) (since : Nat) (roots : List Handle) (a : Handle) :
    (h.collectSince since roots).2.slot? a =
      ((mark (nextEpoch h.epoch) h.slots roots)[a.index]?.join).filter
        fun s => !isGarbage (nextEpoch h.epoch) since (some s) := by
  simp only [collectSince, slot?, Array.getElem?_map]
  cases (mark (nextEpoch h.epoch) h.slots roots)[a.index]? with
  | none => rfl
  | some entry =>
    cases entry with
    | none => simp [isGarbage]
    | some s =>
      cases hg : isGarbage (nextEpoch h.epoch) since (some s) <;> simp [Option.filter, hg]

theorem content_of_collectSince {h : Heap} {since : Nat} {roots : List Handle} {a : Handle} {s : Slot}
    (hs : (h.collectSince since roots).2.slot? a = some s) :
    (h.slot? a).map Slot.content = some s.content := by
  rw [slot?_collectSince, Option.filter_eq_some_iff] at hs
  have hc := content_mark (nextEpoch h.epoch) h.slots roots a.index
  have hj := congrArg Option.join hc
  have hmarked : ((mark (nextEpoch h.epoch) h.slots roots)[a.index]?.join).map Slot.content =
      (h.slot? a).map Slot.content := by
    simpa [slot?, Option.join_map_eq_map_join] using hj
  rw [← hmarked, hs.1]
  rfl

end Heap

end ScriptEngine
