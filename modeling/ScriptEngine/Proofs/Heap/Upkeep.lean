import Mathlib.Algebra.Group.Nat.Defs
import ScriptEngine.Proofs.Heap.Evolution
import ScriptEngine.Proofs.Heap.Reachability

namespace ScriptEngine.Heap

structure Tidy (h : Heap) : Prop where
  nodup : h.free.Nodup
  empty : ∀ i, i ∈ h.free ↔ h.slots[i]? = some none

/-- The heap after `n` collections in all. -/
structure Dated (n : Nat) (h : Heap) : Prop where
  epoch : h.epoch.toNat = n + 1
  marks : ∀ a s, h.slot? a = some s → s.mark.toNat ≤ n + 1

section Tidiness

variable {h h' : Heap}

theorem tidy_empty : Heap.empty.Tidy := by
  refine ⟨List.nodup_nil, ?_⟩
  intro i
  simp [Heap.empty]

theorem Tidy.alloc (ht : h.Tidy) (cell : Cell) : (h.alloc cell).2.Tidy := by
  cases hf : h.free with
  | nil =>
    refine ⟨by simp [Heap.alloc, hf], ?_⟩
    intro i
    have hn : h.slots[i]? ≠ some none := by
      intro hi
      have hmem := (ht.empty i).mpr hi
      rw [hf] at hmem
      cases hmem
    simp only [Heap.alloc, hf, Array.getElem?_push]
    split <;> simp [hn]
  | cons j free =>
    have hnodup := ht.nodup
    rw [hf, List.nodup_cons] at hnodup
    refine ⟨by simpa [Heap.alloc, hf] using hnodup.2, ?_⟩
    intro i
    have hi := ht.empty i
    rw [hf, List.mem_cons] at hi
    simp only [Heap.alloc, hf, Array.getElem?_setIfInBounds]
    by_cases hji : j = i
    · subst hji
      simp only [hnodup.1, if_true, false_iff]
      split <;> simp
    · rw [if_neg hji]
      simpa [Ne.symm hji] using hi

theorem Tidy.write (ht : h.Tidy) {a : Handle} {r s : Slot} (hr : h.slot? a = some r) :
    (h.setSlot a s).Tidy := by
  refine ⟨ht.nodup, ?_⟩
  intro i
  rw [show (h.setSlot a s).free = h.free from rfl, ht.empty i]
  simp only [setSlot, Array.getElem?_setIfInBounds]
  by_cases hai : a.index = i
  · subst hai
    have hlt := index_lt_of_slot? hr
    have hne : h.slots[a.index]? ≠ some none := by
      intro hn
      simp [slot?, hn] at hr
    simp [hlt] at hne ⊢
    exact hne
  · rw [if_neg hai]

theorem mark_eq_none_iff (epoch : UInt32) (slots : Array (Option Slot)) (roots : List Handle) (i : Nat) :
    (mark epoch slots roots)[i]? = some none ↔ slots[i]? = some none := by
  have hc := content_mark epoch slots roots i
  cases hm : (mark epoch slots roots)[i]? with
  | none =>
    rw [hm, Option.map_none] at hc
    simp [Option.map_eq_none_iff.mp hc.symm]
  | some entry =>
    rw [hm, Option.map_some] at hc
    obtain ⟨entry', he, hmap⟩ := Option.map_eq_some_iff.mp hc.symm
    rw [he]
    cases entry <;> cases entry' <;> simp at hmap ⊢

theorem mem_garbage {epoch : UInt32} {since : Nat} {slots : Array (Option Slot)} {i : Nat} :
    i ∈ garbage epoch since slots ↔ ∃ s, slots[i]? = some (some s) ∧ isGarbage epoch since (some s) = true := by
  simp only [garbage, List.mem_filter, List.mem_range]
  constructor
  · rintro ⟨hi, hg⟩
    rw [Array.getElem?_eq_getElem hi] at hg ⊢
    cases he : slots[i] with
    | none => rw [he] at hg; cases hg
    | some s => rw [he] at hg; exact ⟨s, rfl, hg⟩
  · rintro ⟨s, hs, hg⟩
    have hi : i < slots.size := (Array.getElem?_eq_some_iff.mp hs).1
    exact ⟨hi, by rw [hs]; exact hg⟩

theorem Tidy.collectSince (ht : h.Tidy) (since : Nat) (roots : List Handle) :
    (h.collectSince since roots).2.Tidy := by
  refine ⟨?_, ?_⟩
  · have hg : (garbage (nextEpoch h.epoch) since (mark (nextEpoch h.epoch) h.slots roots)).Nodup :=
      List.nodup_range.sublist List.filter_sublist
    have hr := List.pairwise_reverse.mpr (hg.imp Ne.symm)
    refine List.nodup_append.mpr ⟨hr, ht.nodup, ?_⟩
    rintro i hi j hj rfl
    obtain ⟨s, hs, -⟩ := mem_garbage.mp (List.mem_reverse.mp hi)
    have hn := (mark_eq_none_iff (nextEpoch h.epoch) h.slots roots i).mpr ((ht.empty i).mp hj)
    rw [hs] at hn
    cases hn
  · intro i
    simp only [Heap.collectSince, List.mem_append, List.mem_reverse, mem_garbage, ht.empty,
      ← mark_eq_none_iff (nextEpoch h.epoch) h.slots roots i, Array.getElem?_map]
    cases (mark (nextEpoch h.epoch) h.slots roots)[i]? with
    | none => simp
    | some entry =>
      cases entry with
      | none => simp [isGarbage]
      | some s => cases hg : isGarbage (nextEpoch h.epoch) since (some s) <;> simp [hg]

theorem Tidy.evolves {n : Nat} (ht : h.Tidy) (he : h.Evolves n h') : h'.Tidy := by
  induction he with
  | refl => exact ht
  | alloc _ _ ih => exact ih.alloc _
  | write properties _ hs ih => exact ih.write hs
  | collect since roots _ ih => exact ih.collectSince since roots

theorem slot?_alloc_new (ht : h.Tidy) (cell : Cell) :
    (h.alloc cell).2.slot? (h.alloc cell).1 = some ⟨h.epoch, h.born, cell⟩ := by
  rw [slot?_alloc, if_pos]
  refine ⟨rfl, ?_⟩
  cases hf : h.free with
  | nil => simp [Heap.alloc, hf]
  | cons i free =>
    have hi : h.slots[i]? = some none := (ht.empty i).mp (by rw [hf]; exact .head _)
    have hlt : i < h.slots.size := (Array.getElem?_eq_some_iff.mp hi).1
    simpa [Heap.alloc, hf] using hlt

theorem slot?_alloc_of_live (ht : h.Tidy) (cell : Cell) {a : Handle} {s : Slot} (hs : h.slot? a = some s) :
    (h.alloc cell).2.slot? a = some s := by
  rw [slot?_alloc, if_neg, hs]
  rintro ⟨rfl, -⟩
  cases hf : h.free with
  | nil =>
    have hlt := index_lt_of_slot? hs
    simp [Heap.alloc, hf] at hlt
  | cons i free =>
    have hi : h.slots[i]? = some none := (ht.empty i).mp (by rw [hf]; exact .head _)
    simp [slot?, Heap.alloc, hf, hi] at hs

end Tidiness

section Numbers

theorem toNat_nextEpoch (epoch : UInt32) :
    (nextEpoch epoch).toNat = if epoch.toNat + 1 < 2 ^ 32 then epoch.toNat + 1 else 1 := by
  have hadd : (epoch + 1).toNat = (epoch.toNat + 1) % 2 ^ 32 := by simp [UInt32.toNat_add]
  have hlt := epoch.toNat_lt
  have hmax : (nextEpoch epoch).toNat = max (epoch + 1).toNat 1 := by
    show (if epoch + 1 ≤ 1 then 1 else epoch + 1 : UInt32).toNat = _
    have hone : (1 : UInt32).toNat = 1 := rfl
    by_cases hle : epoch + 1 ≤ 1
    · rw [if_pos hle, Nat.max_eq_right (by rwa [UInt32.le_iff_toNat_le] at hle), hone]
    · rw [if_neg hle, Nat.max_eq_left]
      rw [UInt32.le_iff_toNat_le, hone] at hle
      omega
  rw [hmax, hadd]
  split <;> omega

def epochAfter (epoch : UInt32) : Nat → UInt32
  | 0 => epoch
  | k + 1 => nextEpoch (epochAfter epoch k)

theorem le_epochAfter_sub {epoch : UInt32} {k : Nat} (he : 1 ≤ epoch.toNat) (hk : k ≤ 2) :
    k ≤ (epochAfter epoch k - epoch).toNat := by
  have hlt := epoch.toNat_lt
  match k with
  | 0 => exact Nat.zero_le _
  | 1 =>
    simp only [epochAfter, UInt32.toNat_sub, toNat_nextEpoch]
    split <;> omega
  | 2 =>
    simp only [epochAfter, UInt32.toNat_sub, toNat_nextEpoch]
    split
    · split <;> omega
    · split <;> omega

/-- By how much the number of the collections has moved on. -/
def collectionsTo (h h' : Heap) : Nat :=
  (h'.epoch - h.epoch).toNat

variable {h h' : Heap} {n : Nat}

theorem Dated.alloc (hd : h.Dated n) (cell : Cell) : (h.alloc cell).2.Dated n := by
  have hepoch : (h.alloc cell).2.epoch = h.epoch := by
    simp only [Heap.alloc]
    split <;> rfl
  refine ⟨by rw [hepoch, hd.epoch], ?_⟩
  intro a s hs
  rw [slot?_alloc] at hs
  split at hs
  · obtain rfl := Option.some.inj hs
    exact Nat.le_of_eq hd.epoch
  · exact hd.marks a s hs

theorem Dated.write (hd : h.Dated n) {a : Handle} {r s : Slot} (hr : h.slot? a = some r)
    (hm : s.mark = r.mark) : (h.setSlot a s).Dated n := by
  refine ⟨hd.epoch, ?_⟩
  intro b t ht
  rw [slot?_setSlot] at ht
  split at ht
  · obtain rfl := Option.some.inj ht
    rw [hm]
    exact hd.marks a r hr
  · exact hd.marks b t ht

theorem Dated.collectSince (hd : h.Dated n) (hn : n + 2 < 2 ^ 32) (since : Nat) (roots : List Handle) :
    (h.collectSince since roots).2.Dated (n + 1) := by
  have hepoch : (nextEpoch h.epoch).toNat = n + 1 + 1 := by
    rw [toNat_nextEpoch, hd.epoch, if_pos (by omega)]
  refine ⟨hepoch, ?_⟩
  intro a s hs
  rw [slot?_collectSince, Option.filter_eq_some_iff] at hs
  rcases mark_or_not (nextEpoch h.epoch) h.slots roots a with he | ⟨t, _, he⟩
  · have hle := hd.marks a s (he.symm.trans hs.1)
    omega
  · obtain rfl : _ = s := Option.some.inj (he.symm.trans hs.1)
    exact Nat.le_of_eq hepoch

theorem Dated.unnumbered (hd : h.Dated n) (hn : n + 2 < 2 ^ 32) : h.Unnumbered := by
  intro a s hs hm
  have hle := hd.marks a s hs
  rw [hm, toNat_nextEpoch, hd.epoch, if_pos (by omega)] at hle
  omega

theorem Evolves.numbers {k : Nat} (he : h.Evolves k h') :
    ∃ j ≤ k, h'.epoch = epochAfter h.epoch j ∧
      ∀ n, h.Dated n → n + j + 1 < 2 ^ 32 → h'.Dated (n + j) := by
  induction he with
  | refl => exact ⟨0, Nat.zero_le _, rfl, fun n hd _ => hd⟩
  | @alloc k h' cell _ _ ih =>
    obtain ⟨j, hj, he, hd⟩ := ih
    refine ⟨j, hj, ?_, fun n h₀ hn => (hd n h₀ hn).alloc cell⟩
    rw [← he]
    simp only [Heap.alloc]
    split <;> rfl
  | write properties _ hs ih =>
    obtain ⟨j, hj, he, hd⟩ := ih
    exact ⟨j, hj, he, fun n h₀ hn => (hd n h₀ hn).write hs rfl⟩
  | collect since roots _ ih =>
    obtain ⟨j, hj, he, hd⟩ := ih
    refine ⟨j + 1, by omega, ?_, fun n h₀ hn => ?_⟩
    · rw [epochAfter, ← he]
      rfl
    · exact (hd n h₀ (by omega)).collectSince (by omega) since roots

theorem Dated.evolves (hd : h.Dated n) (he : h.Evolves 2 h') (hn : n + h.collectionsTo h' + 1 < 2 ^ 32) :
    h'.Dated (n + h.collectionsTo h') := by
  obtain ⟨j, hj, hepoch, hdate⟩ := he.numbers
  have hle : j ≤ h.collectionsTo h' := by
    rw [collectionsTo, hepoch]
    exact le_epochAfter_sub (by rw [hd.epoch]; omega) hj
  have hd' := hdate n hd (by omega)
  have heq : h.collectionsTo h' = j := by
    have h₁ := hd'.epoch
    have h₀ := hd.epoch
    have hlt := h'.epoch.toNat_lt
    rw [collectionsTo, UInt32.toNat_sub, h₁, h₀]
    omega
  rw [heq]
  exact hd'

theorem dated_empty : Heap.empty.Dated 0 := by
  refine ⟨rfl, ?_⟩
  intro a s hs
  simp [slot?, Heap.empty] at hs

end Numbers

structure Sound (n : Nat) (h : Heap) : Prop where
  compiled : h.OnlyCompiled
  tidy : h.Tidy
  dated : h.Dated n

theorem Sound.evolves {h h' : Heap} {n : Nat} (hs : h.Sound n) (he : h.Evolves 2 h')
    (hn : n + h.collectionsTo h' + 1 < 2 ^ 32) : h'.Sound (n + h.collectionsTo h') :=
  ⟨hs.compiled.evolves he, hs.tidy.evolves he, hs.dated.evolves he hn⟩

theorem Sound.evolves_zero {h h' : Heap} {n : Nat} (hs : h.Sound n) (he : h.Evolves 0 h') : h'.Sound n := by
  obtain ⟨j, hj, -, hdate⟩ := he.numbers
  obtain rfl : j = 0 := by omega
  have hlt := h.epoch.toNat_lt
  rw [hs.dated.epoch] at hlt
  exact ⟨hs.compiled.evolves he, hs.tidy.evolves he, hdate n hs.dated hlt⟩

end ScriptEngine.Heap
