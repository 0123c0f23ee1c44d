import ScriptEngine.Proofs.Heap.Exactness

namespace ScriptEngine.Heap

variable {h h' : Heap} {n : Nat}

structure Stamped (h : Heap) : Prop where
  below : ∀ a s, h.slot? a = some s → s.born < h.born
  distinct : ∀ a b s t, h.slot? a = some s → h.slot? b = some t → s.born = t.born → a = b

structure Balanced (h : Heap) : Prop extends h.Tidy, h.Stamped where
  live : h.live = h.slots.countP Option.isSome

section Births

theorem stamped_empty : Heap.empty.Stamped := by
  constructor
  · intro a s hs
    simp [slot?, Heap.empty] at hs
  · intro a b s t hs
    simp [slot?, Heap.empty] at hs

theorem Stamped.alloc (hh : h.Stamped) (cell : Cell) : (h.alloc cell).2.Stamped := by
  constructor
  · intro a s hs
    rw [slot?_alloc] at hs
    rw [born_alloc]
    split at hs
    · obtain rfl := Option.some.inj hs
      exact Nat.lt_succ_self h.born
    · exact Nat.lt_succ_of_lt (hh.below a s hs)
  · intro a b s t hs ht hst
    rw [slot?_alloc] at hs ht
    split at hs <;> split at ht
    · rename_i ha hb
      exact ha.1.symm.trans hb.1
    -- The new cell bears the number of all cells before it, so no older one shares it.
    · obtain rfl := Option.some.inj hs
      exact absurd hst (Nat.ne_of_gt (hh.below b t ht))
    · obtain rfl := Option.some.inj ht
      exact absurd hst (Nat.ne_of_lt (hh.below a s hs))
    · exact hh.distinct a b s t hs ht hst

theorem Stamped.of_older (hh : h.Stamped) (hborn : h'.born = h.born)
    (holder : ∀ a s', h'.slot? a = some s' → ∃ s, h.slot? a = some s ∧ s.born = s'.born) : h'.Stamped := by
  constructor
  · intro a s' hs'
    obtain ⟨s, hs, hb⟩ := holder a s' hs'
    rw [hborn, ← hb]
    exact hh.below a s hs
  · intro a b s' t' hs' ht' hst
    obtain ⟨s, hs, hb⟩ := holder a s' hs'
    obtain ⟨t, ht, hc⟩ := holder b t' ht'
    apply hh.distinct a b s t hs ht
    rw [hb, hc, hst]

theorem Made.stamped (hm : h.Made n) : h.Stamped := by
  induction hm with
  | empty => exact stamped_empty
  | alloc cell _ ih => exact ih.alloc cell
  | @change _ h a mark born o o' _ hs ih =>
    refine ih.of_older rfl ?_
    intro b s' hs'
    rw [slot?_setSlot] at hs'
    split at hs'
    · rename_i hb
      obtain rfl := Option.some.inj hs'
      rw [← hb.1]
      exact ⟨⟨mark, born, .object o⟩, hs, rfl⟩
    · exact ⟨s', hs', rfl⟩
  | collect since roots _ ih =>
    refine ih.of_older rfl ?_
    intro a s' hs'
    obtain ⟨s, hs, hcontent⟩ := Option.map_eq_some_iff.mp (content_of_collectSince hs')
    exact ⟨s, hs, congrArg Prod.fst hcontent⟩

end Births

theorem Evolves.made {k : Nat} (hm : h.Made n) (he : h.Evolves k h') : ∃ m, h'.Made m := by
  induction he with
  | refl => exact ⟨n, hm⟩
  | alloc _ _ ih =>
    obtain ⟨m, hm⟩ := ih
    exact ⟨m, hm.alloc _⟩
  | @write _ _ _ _ _ o properties _ hs ih =>
    obtain ⟨m, hm⟩ := ih
    exact ⟨m, hm.change { o with properties } hs⟩
  | collect since roots _ ih =>
    obtain ⟨m, hm⟩ := ih
    exact ⟨m + 1, hm.collect since roots⟩

theorem Made.balanced (hm : h.Made n) : h.Balanced where
  toTidy := hm.tidy
  toStamped := hm.stamped
  live := by rw [hm.live_eq, length_handles]

theorem contains_alloc_before (ht : h.Tidy) (cell : Cell) : h.contains (h.alloc cell).1 = false := by
  have hcell := cell?_alloc_before ht cell
  rw [cell?, Option.map_eq_none_iff] at hcell
  rw [contains, hcell]
  rfl

theorem slot?_alloc_other (h : Heap) (cell : Cell) {b : Handle} (hb : b ≠ (h.alloc cell).1) :
    (h.alloc cell).2.slot? b = h.slot? b := by
  rw [slot?_alloc, if_neg]
  rintro ⟨rfl, -⟩
  exact hb rfl

/-- The books of every heap that can be made are balanced. A new cell has a handle that led to no cell
before, is born after all others, and leaves what every other handle leads to as it is. A collection frees
no more cells than are counted. -/
theorem made_balanced (hm : h.Made n) :
    h.Balanced ∧
    (∀ cell,
      h.contains (h.alloc cell).1 = false ∧
      (h.alloc cell).2.slot? (h.alloc cell).1 = some ⟨h.epoch, h.born, cell⟩ ∧
      (∀ b, b ≠ (h.alloc cell).1 → (h.alloc cell).2.slot? b = h.slot? b) ∧
      (∀ b s, h.slot? b = some s → b ≠ (h.alloc cell).1 ∧ (h.alloc cell).2.slot? b = some s)) ∧
    (∀ since roots,
      (h.collectSince since roots).1 ≤ h.live ∧
      (h.collectSince since roots).2.live + (h.collectSince since roots).1 = h.live) := by
  refine ⟨hm.balanced, ?_, ?_⟩
  · intro cell
    have hfree := contains_alloc_before hm.tidy cell
    refine ⟨hfree, slot?_alloc_new hm.tidy cell, fun b => slot?_alloc_other h cell, ?_⟩
    intro b s hs
    refine ⟨?_, slot?_alloc_of_live hm.tidy cell hs⟩
    rintro rfl
    rw [contains_iff.mpr ⟨s, hs⟩] at hfree
    cases hfree
  · intro since roots
    have hlength := length_handles_collectSince h since roots
    rw [← (hm.collect since roots).live_eq, ← hm.live_eq] at hlength
    exact ⟨by omega, hlength⟩

def patched : Heap :=
  let plain : Cell := .object (.of .plain)
  let h := (Heap.empty.alloc plain).2
  let h := (h.alloc plain).2
  let h := (h.alloc plain).2
  let h := (h.alloc plain).2
  let h := (h.alloc plain).2
  let h := (h.collectSince 2 [⟨3⟩]).2
  let h := (h.collectSince 0 [⟨1⟩, ⟨3⟩]).2
  (h.alloc (.environment ⟨⟨1⟩, none⟩)).2

theorem made_balanced_of_patched :
    patched.Made 2 ∧ patched.free = [4, 2] ∧ patched.live = 3 ∧ patched.born = 6 ∧
      patched.contains ⟨4⟩ = false ∧ (patched.alloc (.object (.of .error))).1 = ⟨4⟩ ∧
      (patched.alloc (.object (.of .error))).2.slot? ⟨0⟩ = patched.slot? ⟨0⟩ ∧
      (patched.collectSince 0 []).1 ≤ 3 := by
  have hm : patched.Made 2 :=
    .alloc _ (.collect _ _ (.collect _ _ (.alloc _ (.alloc _ (.alloc _ (.alloc _ (.alloc _ .empty)))))))
  obtain ⟨-, halloc, hcollect⟩ := made_balanced hm
  have hlive : patched.live = 3 := by decide +kernel
  have hnew : (patched.alloc (.object (.of .error))).1 = ⟨4⟩ := by decide +kernel
  obtain ⟨hfree, -, hother, -⟩ := halloc (.object (.of .error))
  refine ⟨hm, by decide +kernel, hlive, by decide +kernel, hnew ▸ hfree, hnew, ?_, hlive ▸ (hcollect 0 []).1⟩
  apply hother
  rw [hnew]
  decide

end ScriptEngine.Heap
