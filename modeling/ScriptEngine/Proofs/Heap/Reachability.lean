import ScriptEngine.Proofs.Heap.Cells

namespace ScriptEngine.Heap

inductive Reaches (h : Heap) (roots : List Handle) : Handle → Prop
  | root {a : Handle} : a ∈ roots → Reaches h roots a
  | link {a b : Handle} {s : Slot} :
      Reaches h roots a → h.slot? a = some s → b ∈ s.cell.links → Reaches h roots b

def slotAt (slots : Array (Option Slot)) (a : Handle) : Option Slot :=
  slots[a.index]?.join

theorem slotAt_set {slots : Array (Option Slot)} {i : Nat} (hi : i < slots.size) (s : Slot) (b : Handle) :
    slotAt (slots.set i (some s)) b = if i = b.index then some s else slotAt slots b := by
  simp only [slotAt, Array.getElem?_set]
  split <;> rfl

theorem slotAt_of_lt {slots : Array (Option Slot)} {a : Handle} {entry : Option Slot}
    (hi : a.index < slots.size) (he : slots[a.index] = entry) : slotAt slots a = entry := by
  simp [slotAt, Array.getElem?_eq_getElem hi, he]

section Marking

variable {epoch : UInt32} {slots : Array (Option Slot)} {pending : List Handle}

theorem mark_or_not (epoch : UInt32) (slots : Array (Option Slot)) (pending : List Handle) (b : Handle) :
    slotAt (mark epoch slots pending) b = slotAt slots b ∨
      ∃ s, slotAt slots b = some s ∧
        slotAt (mark epoch slots pending) b = some { s with mark := epoch } := by
  fun_induction mark epoch slots pending with
  | case1 => exact .inl rfl
  | case2 slots a rest hi hs ih => exact ih
  | case3 slots a rest hi s hs hm ih => exact ih
  | case4 slots a rest hi s hs hm ih =>
    rw [slotAt_set] at ih
    by_cases hab : a.index = b.index
    · have hb : slotAt slots b = some s := by
        rw [show slotAt slots b = slotAt slots a by simp only [slotAt, hab], slotAt_of_lt hi hs]
      rw [if_pos hab] at ih
      refine .inr ⟨s, hb, ?_⟩
      rcases ih with h | ⟨t, ht, h⟩
      · exact h
      · rw [h, ← Option.some.inj ht]
    · rwa [if_neg hab] at ih
  | case5 slots a rest hi ih => exact ih

def Marked (epoch : UInt32) (slots : Array (Option Slot)) (a : Handle) : Prop :=
  ∀ s, slotAt slots a = some s → s.mark = epoch

theorem Marked.mark {a : Handle} (h : Marked epoch slots a) : Marked epoch (mark epoch slots pending) a := by
  intro s hs
  rcases mark_or_not epoch slots pending a with he | ⟨t, _, he⟩
  · exact h s (he ▸ hs)
  · rw [he, Option.some.injEq] at hs
    rw [← hs]

theorem marked_set {i : Nat} (hi : i < slots.size) {s : Slot} {a : Handle}
    (h : i = a.index ∨ Marked epoch slots a) :
    Marked epoch (slots.set i (some { s with mark := epoch })) a := by
  intro t ht
  rw [slotAt_set] at ht
  split at ht
  · rw [← Option.some.inj ht]
  · rename_i hne
    exact h.resolve_left hne t ht

theorem marked_pending (epoch : UInt32) (slots : Array (Option Slot)) (pending : List Handle) :
    ∀ a ∈ pending, Marked epoch (mark epoch slots pending) a := by
  fun_induction mark epoch slots pending with
  | case1 => intro a ha; cases ha
  | case2 slots a rest hi hs ih =>
    intro b hb
    rcases List.mem_cons.mp hb with rfl | hb
    · exact Marked.mark fun s h => by rw [slotAt_of_lt hi hs] at h; cases h
    · exact ih b hb
  | case3 slots a rest hi s hs hm ih =>
    intro b hb
    rcases List.mem_cons.mp hb with rfl | hb
    · refine Marked.mark fun t h => ?_
      rw [slotAt_of_lt hi hs, Option.some.injEq] at h
      rw [← h, hm]
    · exact ih b hb
  | case4 slots a rest hi s hs hm ih =>
    intro b hb
    rcases List.mem_cons.mp hb with rfl | hb
    · exact Marked.mark (marked_set hi (.inl rfl))
    · exact ih b (List.mem_append_right _ hb)
  | case5 slots a rest hi ih =>
    intro b hb
    rcases List.mem_cons.mp hb with rfl | hb
    · refine Marked.mark fun s h => ?_
      simp [slotAt, Array.getElem?_eq_none (Nat.le_of_not_lt hi)] at h
    · exact ih b hb

/-- The invariant of the work list: what a marked cell refers to is marked or still to come. Only the
cells in `R` matter: a cell that bears the number by chance is not followed. -/
def Followed (R : Handle → Prop) (epoch : UInt32) (slots : Array (Option Slot)) (pending : List Handle) : Prop :=
  ∀ a s, R a → slotAt slots a = some s → s.mark = epoch → ∀ b ∈ s.cell.links, b ∈ pending ∨ Marked epoch slots b

section Following

variable {R : Handle → Prop}

theorem Followed.drop {a : Handle} {rest : List Handle} (h : Followed R epoch slots (a :: rest))
    (ha : Marked epoch slots a) : Followed R epoch slots rest := by
  intro c s hc hs hm b hb
  rcases h c s hc hs hm b hb with hp | hb
  · rcases List.mem_cons.mp hp with rfl | hr
    · exact .inr ha
    · exact .inl hr
  · exact .inr hb

theorem Followed.visit {a : Handle} {rest : List Handle} {s : Slot} (h : Followed R epoch slots (a :: rest))
    (hi : a.index < slots.size) :
    Followed R epoch (slots.set a.index (some { s with mark := epoch })) (s.cell.links ++ rest) := by
  intro c t hc ht hm b hb
  rw [slotAt_set] at ht
  split at ht
  · obtain rfl := Option.some.inj ht
    exact .inl (List.mem_append_left _ hb)
  · rcases h c t hc ht hm b hb with hp | hb
    · rcases List.mem_cons.mp hp with rfl | hr
      · exact .inr (marked_set hi (.inl rfl))
      · exact .inl (List.mem_append_right _ hr)
    · exact .inr (marked_set hi (.inr hb))

theorem Followed.mark (h : Followed R epoch slots pending) : Followed R epoch (mark epoch slots pending) [] := by
  fun_induction Heap.mark epoch slots pending with
  | case1 => exact h
  | case2 slots a rest hi hs ih =>
    exact ih (h.drop fun s hs' => by rw [slotAt_of_lt hi hs] at hs'; cases hs')
  | case3 slots a rest hi s hs hm ih =>
    refine ih (h.drop fun t ht => ?_)
    rw [slotAt_of_lt hi hs, Option.some.injEq] at ht
    rw [← ht, hm]
  | case4 slots a rest hi s hs hm ih => exact ih (h.visit hi)
  | case5 slots a rest hi ih =>
    refine ih (h.drop fun s hs => ?_)
    simp [slotAt, Array.getElem?_eq_none (Nat.le_of_not_lt hi)] at hs

end Following

theorem mark_eq_or {R : Handle → Prop} (hlink : ∀ a s, slotAt slots a = some s → R a → ∀ b ∈ s.cell.links, R b)
    (hpending : ∀ a ∈ pending, R a) (b : Handle) : slotAt (mark epoch slots pending) b = slotAt slots b ∨ R b := by
  fun_induction mark epoch slots pending with
  | case1 => exact .inl rfl
  | case2 slots a rest hi hs ih => exact ih hlink fun c hc => hpending c (.tail _ hc)
  | case3 slots a rest hi s hs hm ih => exact ih hlink fun c hc => hpending c (.tail _ hc)
  | case4 slots a rest hi s hs hm ih =>
    have ha : R a := hpending a (.head _)
    have hsame {c : Handle} (hc : a.index = c.index) : c = a := by
      cases a; cases c; exact congrArg Handle.mk hc.symm
    have hrest := ih ?_ ?_
    · rw [slotAt_set] at hrest
      split at hrest
      · rename_i hab
        exact .inr (hsame hab ▸ ha)
      · exact hrest
    · intro c t ht hc d hd
      rw [slotAt_set] at ht
      split at ht
      · obtain rfl := Option.some.inj ht
        exact hlink a s (slotAt_of_lt hi hs) ha d hd
      · exact hlink c t ht hc d hd
    · intro c hc
      rcases List.mem_append.mp hc with hc | hc
      · exact hlink a s (slotAt_of_lt hi hs) ha c hc
      · exact hpending c (.tail _ hc)
  | case5 slots a rest hi ih => exact ih hlink fun c hc => hpending c (.tail _ hc)

end Marking

def Unnumbered (h : Heap) : Prop :=
  ∀ a s, h.slot? a = some s → s.mark ≠ nextEpoch h.epoch

section Collection

variable {h : Heap} {roots : List Handle} {since : Nat} {a : Handle} {s : Slot}

theorem marked_of_reaches (hu : ∀ b t, h.Reaches roots b → h.slot? b = some t → t.mark ≠ nextEpoch h.epoch)
    (ha : h.Reaches roots a) : Marked (nextEpoch h.epoch) (mark (nextEpoch h.epoch) h.slots roots) a := by
  have hstart : Followed (h.Reaches roots) (nextEpoch h.epoch) h.slots roots :=
    fun c t hc ht hm => absurd hm (hu c t hc ht)
  induction ha with
  | root ha => exact marked_pending _ _ _ _ ha
  | @link c b t hreached ht hb ih =>
    have hc : ∃ t', slotAt (mark (nextEpoch h.epoch) h.slots roots) c = some t' ∧ t'.cell = t.cell := by
      rcases mark_or_not (nextEpoch h.epoch) h.slots roots c with he | ⟨t', ht', he⟩
      · exact ⟨t, he.trans ht, rfl⟩
      · have htt : t' = t := Option.some.inj (ht'.symm.trans ht)
        exact ⟨_, he, by rw [htt]⟩
    obtain ⟨t', ht', hcell⟩ := hc
    rcases hstart.mark c t' hreached ht' (ih t' ht') b (hcell ▸ hb) with hn | hb
    · cases hn
    · exact hb

theorem slotAt_mark_of_not_reaches (ha : ¬ h.Reaches roots a) :
    slotAt (mark (nextEpoch h.epoch) h.slots roots) a = h.slot? a := by
  refine (mark_eq_or (R := h.Reaches roots) ?_ ?_ a).resolve_right ha
  · intro c t ht hc b hb
    exact hc.link ht hb
  · intro c hc
    exact .root hc

theorem slot?_collected_of_unmarked
    (hu : ∀ b t, h.Reaches roots b → h.slot? b = some t → t.mark ≠ nextEpoch h.epoch) (ha : h.Reaches roots a) :
    (h.collectSince since roots).2.slot? a =
      (h.slot? a).map fun s => { s with mark := nextEpoch h.epoch } := by
  have hm := marked_of_reaches hu ha
  rw [slot?_collectSince]
  rcases mark_or_not (nextEpoch h.epoch) h.slots roots a with he | ⟨t, ht, he⟩
  · cases hs : h.slot? a with
    | none =>
      have hn : slotAt (mark (nextEpoch h.epoch) h.slots roots) a = none := he.trans hs
      simp only [slotAt] at hn
      simp [hn]
    | some s =>
      exact absurd (hm s (he.trans hs)) (hu a s ha hs)
  · have ht : h.slot? a = some t := ht
    simp only [slotAt] at he
    simp [he, ht, isGarbage, Option.filter]

theorem slot?_collected_of_reaches (hu : h.Unnumbered) (ha : h.Reaches roots a) :
    (h.collectSince since roots).2.slot? a =
      (h.slot? a).map fun s => { s with mark := nextEpoch h.epoch } :=
  slot?_collected_of_unmarked (fun b t _ => hu b t) ha

theorem slot?_collected_of_missed (ha : ¬ h.Reaches roots a) :
    (h.collectSince since roots).2.slot? a =
      (h.slot? a).filter fun s => !isGarbage (nextEpoch h.epoch) since (some s) := by
  rw [slot?_collectSince]
  exact congrArg _ (slotAt_mark_of_not_reaches ha)

theorem slot?_collected_of_not_reaches (hu : h.Unnumbered) (ha : ¬ h.Reaches roots a) :
    (h.collectSince since roots).2.slot? a = (h.slot? a).filter fun s => s.born < since := by
  rw [slot?_collected_of_missed ha]
  cases hs : h.slot? a with
  | none => rfl
  | some s => simp [isGarbage, Option.filter, hu a s hs]

theorem Reaches.collected (hu : h.Unnumbered) (ha : h.Reaches roots a) :
    (h.collectSince since roots).2.Reaches roots a := by
  induction ha with
  | root ha => exact .root ha
  | @link c b t hc ht hb ih =>
    refine ih.link (s := { t with mark := nextEpoch h.epoch }) ?_ hb
    rw [slot?_collected_of_reaches hu hc, ht]
    rfl

theorem reaches_of_kept (hu : h.Unnumbered) (hs : (h.collectSince since roots).2.slot? a = some s)
    (hb : since ≤ s.born) : (h.collectSince since roots).2.Reaches roots a := by
  by_cases ha : h.Reaches roots a
  · exact ha.collected hu
  · rw [slot?_collected_of_not_reaches hu ha, Option.filter_eq_some_iff] at hs
    have hlt : s.born < since := by simpa using hs.2
    omega

theorem content_collected_of_old (hs : h.slot? a = some s) (hb : s.born < since) :
    ((h.collectSince since roots).2.slot? a).map Slot.content = some s.content := by
  have hold (t : Slot) (ht : t.born = s.born) : isGarbage (nextEpoch h.epoch) since (some t) = false := by
    simp [isGarbage, ht, hb]
  rw [slot?_collectSince]
  rcases mark_or_not (nextEpoch h.epoch) h.slots roots a with he | ⟨t, ht, he⟩
  · have he : (mark (nextEpoch h.epoch) h.slots roots)[a.index]?.join = some s := he.trans hs
    simp [he, Option.filter, hold s rfl]
  · obtain rfl : t = s := Option.some.inj (ht.symm.trans hs)
    have he : (mark (nextEpoch h.epoch) h.slots roots)[a.index]?.join = some _ := he
    rw [he]
    simp [Option.filter, hold, Slot.content]

end Collection

end ScriptEngine.Heap
