import Mathlib.Data.List.Count
import ScriptEngine.Proofs.Heap.Display

namespace ScriptEngine.Heap

variable {h h' : Heap} {n since : Nat} {roots : List Handle} {a : Handle}

/-- The heaps that can be made from the empty one, with the number of collections on the way. An object
can be changed in every respect. -/
inductive Made : Nat → Heap → Prop
  | empty : Made 0 .empty
  | alloc {n : Nat} {h : Heap} (cell : Cell) : Made n h → Made n (h.alloc cell).2
  | change {n : Nat} {h : Heap} {a : Handle} {mark : UInt32} {born : Nat} {o : Object} (o' : Object) : Made n h →
      h.slot? a = some ⟨mark, born, .object o⟩ → Made n (h.setSlot a ⟨mark, born, .object o'⟩)
  | collect {n : Nat} {h : Heap} (since : Nat) (roots : List Handle) : Made n h →
      Made (n + 1) (h.collectSince since roots).2

def handles (h : Heap) : List Handle :=
  ((List.range h.slots.size).map Handle.mk).filter h.contains

theorem contains_iff : h.contains a = true ↔ ∃ s, h.slot? a = some s := by
  rw [contains, Option.isSome_iff_exists]

theorem contains_of_collectSince (hc : (h.collectSince since roots).2.contains a = true) : h.contains a = true := by
  obtain ⟨s, hs⟩ := contains_iff.mp hc
  obtain ⟨t, ht, -⟩ := Option.map_eq_some_iff.mp (content_of_collectSince hs)
  exact contains_iff.mpr ⟨t, ht⟩

section Upkeep

theorem Made.tidy (hm : h.Made n) : h.Tidy := by
  induction hm with
  | empty => exact tidy_empty
  | alloc cell _ ih => exact ih.alloc cell
  | change o' _ hs ih => exact ih.write hs
  | collect since roots _ ih => exact ih.collectSince since roots

theorem Made.dated (hm : h.Made n) (hn : n + 1 < 2 ^ 32) : h.Dated n := by
  induction hm with
  | empty => exact dated_empty
  | alloc cell _ ih => exact (ih hn).alloc cell
  | change o' _ hs ih => exact (ih hn).write hs rfl
  | collect since roots _ ih => exact (ih (by omega)).collectSince (by omega) since roots

end Upkeep

section Numbers

theorem length_handles (h : Heap) : h.handles.length = h.slots.countP Option.isSome := by
  have hslots : h.slots.toList = (List.range h.slots.size).map fun i => h.slots[i]?.join := by
    refine List.ext_getElem (by simp) fun i hi _ => ?_
    have hlt : i < h.slots.size := by simpa using hi
    simp [hlt]
  rw [← Array.countP_toList, hslots, List.countP_map, handles, ← List.countP_eq_length_filter, List.countP_map]
  rfl

theorem length_handles_alloc (ht : h.Tidy) (cell : Cell) : (h.alloc cell).2.handles.length = h.handles.length + 1 := by
  rw [length_handles, length_handles]
  cases hf : h.free with
  | nil => simp [Heap.alloc, hf]
  | cons i free =>
    have hempty : h.slots[i]? = some none := (ht.empty i).mp (by rw [hf]; exact .head _)
    obtain ⟨hi, hnone⟩ := Array.getElem?_eq_some_iff.mp hempty
    simp [Heap.alloc, hf, Array.setIfInBounds, hi, Array.countP_set, hnone]

theorem length_handles_setSlot {s t : Slot} (hs : h.slot? a = some s) :
    (h.setSlot a t).handles.length = h.handles.length := by
  have hi := index_lt_of_slot? hs
  have hfull : h.slots[a.index].isSome = true := by
    simp only [slot?, Array.getElem?_eq_getElem hi, Option.join_some] at hs
    rw [hs]
    rfl
  have hpos : 0 < h.slots.countP Option.isSome := Array.countP_pos_iff.mpr ⟨_, Array.getElem_mem hi, hfull⟩
  rw [length_handles, length_handles]
  simp only [setSlot, Array.setIfInBounds, hi, dif_pos, Array.countP_set, hfull, if_true, Option.isSome_some]
  omega

theorem isGarbage_iff (h : Heap) (since : Nat) (roots : List Handle) (i : Nat) :
    isGarbage (nextEpoch h.epoch) since (mark (nextEpoch h.epoch) h.slots roots)[i]?.join = true ↔
      h.contains ⟨i⟩ = true ∧ (h.collectSince since roots).2.contains ⟨i⟩ = false := by
  have hcontent := congrArg (·.join.isSome) (content_mark (nextEpoch h.epoch) h.slots roots i)
  have hsome : (mark (nextEpoch h.epoch) h.slots roots)[i]?.join.isSome = h.contains ⟨i⟩ := by
    simpa [contains, slot?, Option.join_map_eq_map_join] using hcontent
  rw [← hsome, contains, slot?_collectSince]
  cases (mark (nextEpoch h.epoch) h.slots roots)[i]?.join with
  | none => simp [isGarbage]
  | some s =>
    cases hg : isGarbage (nextEpoch h.epoch) since (some s) <;> simp [Option.filter, hg]

theorem freed_collectSince (h : Heap) (since : Nat) (roots : List Handle) :
    (h.collectSince since roots).1 =
      (h.handles.filter fun a => !(h.collectSince since roots).2.contains a).length := by
  have hsize := size_mark (nextEpoch h.epoch) h.slots roots
  show (garbage (nextEpoch h.epoch) since (mark (nextEpoch h.epoch) h.slots roots)).length = _
  rw [garbage, hsize, handles, List.filter_filter, ← List.countP_eq_length_filter, ← List.countP_eq_length_filter,
    List.countP_map]
  refine List.countP_congr fun i _ => ?_
  rw [isGarbage_iff]
  simp [and_comm]

theorem handles_collectSince (h : Heap) (since : Nat) (roots : List Handle) :
    (h.collectSince since roots).2.handles = h.handles.filter (h.collectSince since roots).2.contains := by
  have hsize : (h.collectSince since roots).2.slots.size = h.slots.size := by simp [collectSince, size_mark]
  rw [handles, handles, hsize, List.filter_filter]
  refine List.filter_congr fun a _ => ?_
  cases hc : (h.collectSince since roots).2.contains a with
  | false => rfl
  | true =>
    rw [contains_of_collectSince hc]
    rfl

theorem length_handles_collectSince (h : Heap) (since : Nat) (roots : List Handle) :
    (h.collectSince since roots).2.handles.length + (h.collectSince since roots).1 = h.handles.length := by
  rw [handles_collectSince, freed_collectSince]
  exact (List.length_eq_length_filter_add _).symm

theorem Made.live_eq (hm : h.Made n) : h.live = h.handles.length := by
  induction hm with
  | empty => rfl
  | @alloc _ h cell hm ih =>
    rw [length_handles_alloc hm.tidy cell, ← ih]
    simp only [Heap.alloc]
    split <;> rfl
  | change o' _ hs ih => exact ih.trans (length_handles_setSlot hs).symm
  | @collect _ h since roots _ ih =>
    have hlength := length_handles_collectSince h since roots
    show h.live - (h.collectSince since roots).1 = _
    omega

end Numbers

/-- In a heap that was made with so few collections that their numbers have not started over, a
collection leaves a cell if and only if it was born before `since` or can be reached from the roots. What
is left stands in the same slot, with the same contents and the same birth. The count is that of the
cells that are gone, and by it the number of live cells goes down. -/
theorem collection_exact (hm : h.Made n) (hn : n < 2 ^ 32 - 2) (since : Nat) (roots : List Handle) :
    (∀ a, (h.collectSince since roots).2.contains a = true ↔
      ∃ s, h.slot? a = some s ∧ (s.born < since ∨ h.Reaches roots a)) ∧
    (∀ a s', (h.collectSince since roots).2.slot? a = some s' →
      ∃ s, h.slot? a = some s ∧ s'.born = s.born ∧ s'.cell = s.cell) ∧
    (h.collectSince since roots).1 =
      (h.handles.filter fun a => !(h.collectSince since roots).2.contains a).length ∧
    h.live = h.handles.length ∧
    (h.collectSince since roots).2.live + (h.collectSince since roots).1 = h.live ∧
    h.collect roots = h.collectSince 0 roots := by
  have hu : h.Unnumbered := (hm.dated (by omega)).unnumbered (by omega)
  refine ⟨fun a => ?_, fun a s' hs' => ?_, freed_collectSince h since roots, hm.live_eq, ?_, rfl⟩
  · rw [contains_iff]
    by_cases ha : h.Reaches roots a
    · rw [slot?_collected_of_reaches hu ha]
      simp [ha]
    · rw [slot?_collected_of_not_reaches hu ha]
      simp [Option.filter_eq_some_iff, ha]
  · obtain ⟨s, hs, hcontent⟩ := Option.map_eq_some_iff.mp (content_of_collectSince hs')
    obtain ⟨hborn, hcell⟩ := Prod.mk.inj hcontent
    exact ⟨s, hs, hborn.symm, hcell.symm⟩
  · rw [(hm.collect since roots).live_eq, hm.live_eq]
    exact length_handles_collectSince h since roots

def knot : Heap :=
  let referring (b : Handle) : Cell := .object ⟨.plain, none, [("other", .object b)]⟩
  let h := (Heap.empty.alloc (.object (.of .plain))).2
  let h := (h.alloc (referring ⟨2⟩)).2
  let h := (h.alloc (referring ⟨1⟩)).2
  let h := (h.alloc (.object (.of .plain))).2
  (h.collectSince 4 [⟨0⟩]).2

theorem collection_exact_of_knot :
    knot.Made 1 ∧ (knot.collectSince 1 [⟨2⟩, ⟨2⟩, ⟨9⟩]).1 = 1 ∧ (knot.collectSince 1 [⟨2⟩, ⟨2⟩, ⟨9⟩]).2.live = 3 ∧
      (knot.collectSince 1 [⟨2⟩, ⟨2⟩, ⟨9⟩]).2.contains ⟨1⟩ = true ∧ ¬ knot.Reaches [⟨2⟩, ⟨2⟩, ⟨9⟩] ⟨3⟩ := by
  have hm : knot.Made 1 := .collect _ _ (.alloc _ (.alloc _ (.alloc _ (.alloc _ .empty))))
  obtain ⟨hkept, -, -, -, hcount, -⟩ := collection_exact hm (by decide) 1 [⟨2⟩, ⟨2⟩, ⟨9⟩]
  have hone : (knot.collectSince 1 [⟨2⟩, ⟨2⟩, ⟨9⟩]).1 = 1 := by decide +kernel
  have hlive : knot.live = 4 := by decide +kernel
  have hfreed : (knot.collectSince 1 [⟨2⟩, ⟨2⟩, ⟨9⟩]).2.contains ⟨3⟩ = false := by decide +kernel
  have hroot : knot.Reaches [⟨2⟩, ⟨2⟩, ⟨9⟩] ⟨2⟩ := .root (.head _)
  have hlink : (knot.slot? ⟨2⟩).any (fun s => decide (⟨1⟩ ∈ s.cell.links)) = true := by decide +kernel
  obtain ⟨s, hs, hl⟩ := (Option.any_eq_true _ _).mp hlink
  obtain ⟨first, hfirst⟩ := contains_iff.mp (show knot.contains ⟨1⟩ = true by decide +kernel)
  obtain ⟨alone, halone⟩ := contains_iff.mp (show knot.contains ⟨3⟩ = true by decide +kernel)
  have hreached := hroot.link hs (of_decide_eq_true hl)
  refine ⟨hm, hone, by omega, (hkept ⟨1⟩).mpr ⟨first, hfirst, .inr hreached⟩, fun hreached => ?_⟩
  rw [(hkept ⟨3⟩).mpr ⟨alone, halone, .inr hreached⟩] at hfreed
  cases hfreed

end ScriptEngine.Heap
