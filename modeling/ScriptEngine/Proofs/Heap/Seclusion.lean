import ScriptEngine.Proofs.Heap.Currency
import ScriptEngine.Proofs.Heap.Likeness

namespace ScriptEngine

namespace Heap

variable {r a b : Handle} {h h' h'' : Heap} {s : Slot} {roots : List Handle} {since : Nat} {value target : Value}
  {name : String} {cell : Cell}

def Apart (r : Handle) (h : Heap) (a : Handle) : Prop :=
  ¬ h.Reaches [a] r

theorem Apart.ne (ha : h.Apart r a) : a ≠ r := by
  rintro rfl
  exact ha (.root (.head _))

theorem closed_apart (r : Handle) (h : Heap) : h.Closed (h.Apart r) := by
  intro a s ha hs b hb hreached
  have hfrom {c : Handle} (hc : h.Reaches [b] c) : h.Reaches [a] c := by
    induction hc with
    | root hc =>
      obtain rfl := List.mem_singleton.mp hc
      exact .link (.root (.head _)) hs hb
    | link _ ht hd ih => exact ih.link ht hd
  exact ha (hfrom hreached)

theorem apart_of_closed (held : Handle → Prop) (hc : h.Closed held) (hr : ¬ held r) (ha : held a) : h.Apart r a := by
  have hheld {b : Handle} (hb : h.Reaches [a] b) : held b := by
    induction hb with
    | root hb =>
      obtain rfl := List.mem_singleton.mp hb
      exact ha
    | link _ hs hb ih => exact hc _ _ ih hs _ hb
  exact fun hreached => hr (hheld hreached)

theorem apart_of_empty (ha : h.slot? a = none) (hne : a ≠ r) : h.Apart r a := by
  refine apart_of_closed (· = a) ?_ hne.symm rfl
  rintro b s rfl hs
  rw [ha] at hs
  cases hs

theorem reaches_iff_exists (h : Heap) (roots : List Handle) : h.Reaches roots r ↔ ∃ a ∈ roots, h.Reaches [a] r := by
  constructor
  · intro hr
    induction hr with
    | root ha => exact ⟨_, ha, .root (.head _)⟩
    | link _ hs hb ih =>
      obtain ⟨a, ha, hreached⟩ := ih
      exact ⟨a, ha, hreached.link hs hb⟩
  · rintro ⟨a, ha, hreached⟩
    exact hreached.mono fun b hb => List.mem_singleton.mp hb ▸ ha

structure Rooted (r : Handle) (s : Slot) (h : Heap) : Prop where
  tidy : h.Tidy
  slot : h.slot? r = some s
  mark : s.mark = h.epoch

/-- The cell stays as it is, and the cells that it refers to stay. -/
def Anchors (r : Handle) (h h' : Heap) : Prop :=
  ∀ s, h.Rooted r s → ∃ s', h'.Rooted r s' ∧ s'.content = s.content ∧ h.Spares (· ∈ s.cell.links) h'

namespace Anchors

theorem refl (r : Handle) (h : Heap) : h.Anchors r h := fun s hs => ⟨s, hs, rfl, .refl _ h⟩

theorem trans (hh : h.Anchors r h') (hh' : h'.Anchors r h'') : h.Anchors r h'' := by
  intro s hs
  obtain ⟨s', hs', hc, hspares⟩ := hh s hs
  obtain ⟨s'', hs'', hc', hspares'⟩ := hh' s' hs'
  rw [show s'.cell = s.cell from congrArg Prod.snd hc] at hspares'
  exact ⟨s'', hs'', hc'.trans hc, hspares.trans hspares'⟩

theorem rooted (hh : h.Anchors r h') (hr : ∃ s, h.Rooted r s) : ∃ s, h'.Rooted r s := by
  obtain ⟨s, hs⟩ := hr
  obtain ⟨s', hs', -⟩ := hh s hs
  exact ⟨s', hs'⟩

theorem alloc (r : Handle) (h : Heap) (cell : Cell) : h.Anchors r (h.alloc cell).2 := by
  intro s hs
  refine ⟨s, ⟨hs.tidy.alloc cell, slot?_alloc_of_live hs.tidy cell hs.slot, ?_⟩, rfl, fun b t _ ht => ?_⟩
  · rw [epoch_alloc]
    exact hs.mark
  · exact ⟨t, slot?_alloc_of_live hs.tidy cell ht, rfl⟩

theorem insertProperty? (ha : a ≠ r) (hi : h.insertProperty? a name value = some h') : h.Anchors r h' := by
  obtain ⟨mark, born, o, hslot, rfl⟩ := insertProperty?_eq_some hi
  intro s hs
  refine ⟨s, ⟨hs.tidy.write hslot, ?_, hs.mark⟩, rfl, fun b t _ ht => ?_⟩
  · rw [slot?_setSlot, if_neg fun hh => ha hh.1]
    exact hs.slot
  · rw [slot?_setSlot]
    split
    · rename_i hab
      obtain ⟨rfl, -⟩ := hab
      obtain rfl := Option.some.inj (hslot.symm.trans ht)
      exact ⟨_, rfl, rfl⟩
    · exact ⟨t, ht, rfl⟩

end Anchors

section Collection

theorem slot?_collected_of_marked (ha : Marked (nextEpoch h.epoch) (mark (nextEpoch h.epoch) h.slots roots) a)
    (hs : h.slot? a = some s) :
    (h.collectSince since roots).2.slot? a = some { s with mark := nextEpoch h.epoch } := by
  have hmarked : slotAt (mark (nextEpoch h.epoch) h.slots roots) a = some { s with mark := nextEpoch h.epoch } := by
    rcases mark_or_not (nextEpoch h.epoch) h.slots roots a with he | ⟨t, ht, he⟩
    · have hsame : slotAt (mark (nextEpoch h.epoch) h.slots roots) a = some s := he.trans hs
      rw [hsame, ← ha s hsame]
    · obtain rfl : t = s := Option.some.inj (ht.symm.trans hs)
      exact he
  rw [slot?_collectSince, show (mark _ h.slots roots)[a.index]?.join = _ from hmarked]
  simp [Option.filter, isGarbage]

theorem Anchors.collectSince (hr : r ∈ roots) : h.Anchors r (h.collectSince since roots).2 := by
  intro s hs
  have hunmarked : s.mark ≠ nextEpoch h.epoch := by
    rw [hs.mark]
    exact nextEpoch_ne h.epoch
  have hroot := marked_pending (nextEpoch h.epoch) h.slots roots r hr
  have hstart : Followed (· = r) (nextEpoch h.epoch) h.slots roots := by
    rintro _ t rfl ht hm
    obtain rfl : t = s := Option.some.inj (ht.symm.trans hs.slot)
    exact absurd hm hunmarked
  have hlinks : ∀ b ∈ s.cell.links, Marked (nextEpoch h.epoch) (mark (nextEpoch h.epoch) h.slots roots) b := by
    intro b hb
    rcases mark_or_not (nextEpoch h.epoch) h.slots roots r with he | ⟨t, ht, he⟩
    · exact absurd (hroot s (he.trans hs.slot)) hunmarked
    · obtain rfl : t = s := Option.some.inj (ht.symm.trans hs.slot)
      exact (hstart.mark r _ rfl he rfl b hb).resolve_left fun hn => by cases hn
  refine ⟨_, ⟨hs.tidy.collectSince since roots, slot?_collected_of_marked hroot hs.slot, rfl⟩, rfl, fun b t hb ht => ?_⟩
  exact ⟨_, slot?_collected_of_marked (hlinks b hb) ht, rfl⟩

end Collection

structure Guards (r : Handle) (h h' : Heap) : Prop where
  anchors : h.Anchors r h'
  apart : ∀ a, h.Apart r a → h'.Apart r a

end Heap

def Value.Apart (r : Handle) (v : Value) (h : Heap) : Prop :=
  v.Among (h.Apart r)

namespace Heap

variable {r a b : Handle} {h h' h'' : Heap} {s : Slot} {roots : List Handle} {value target : Value} {name : String}
  {cell : Cell}

namespace Guards

theorem refl (r : Handle) (h : Heap) : h.Guards r h := ⟨.refl r h, fun _ ha => ha⟩

theorem trans (hh : h.Guards r h') (hh' : h'.Guards r h'') : h.Guards r h'' :=
  ⟨hh.anchors.trans hh'.anchors, fun a ha => hh'.apart a (hh.apart a ha)⟩

theorem among {v : Value} (hh : h.Guards r h') (hv : v.Apart r h) : v.Apart r h' :=
  hv.mono hh.apart

theorem of_closed (hh : h.Anchors r h') (hc : h'.Closed (h.Apart r)) : h.Guards r h' :=
  ⟨hh, fun _ ha => apart_of_closed (h.Apart r) hc (fun hr => hr.ne rfl) ha⟩

theorem alloc (hc : ∀ b ∈ cell.links, h.Apart r b) : h.Guards r (h.alloc cell).2 := by
  refine of_closed (.alloc r h cell) fun b t hb ht c hlink => ?_
  rw [slot?_alloc] at ht
  split at ht
  · obtain rfl := Option.some.inj ht
    exact hc c hlink
  · exact closed_apart r h b t hb ht c hlink

theorem insertProperty? (ha : h.Apart r a) (hv : value.Apart r h) (hi : h.insertProperty? a name value = some h') :
    h.Guards r h' :=
  of_closed (.insertProperty? ha.ne hi) ((closed_apart r h).insertProperty? hv hi)

theorem puts (hs : h.Puts (h.Apart r) value h') (hv : value.Apart r h) : h.Guards r h' := by
  rcases hs with rfl | ⟨a, name, ha, hi⟩
  · exact .refl r h'
  · exact .insertProperty? ha hv hi

theorem collectSince (hr : r ∈ roots) (since : Nat) : h.Guards r (h.collectSince since roots).2 := by
  refine of_closed (.collectSince hr) fun b t hb ht c hlink => ?_
  obtain ⟨s, hs, hcontent⟩ := Option.map_eq_some_iff.mp (content_of_collectSince ht)
  rw [← show s.cell = t.cell from congrArg Prod.snd hcontent] at hlink
  exact closed_apart r h b s hb hs c hlink

end Guards

theorem apart_alloc (hr : h.Rooted r s) (hc : ∀ b ∈ cell.links, h.Apart r b) :
    (h.alloc cell).2.Apart r (h.alloc cell).1 := by
  have hempty : h.slot? (h.alloc cell).1 = none := Option.map_eq_none_iff.mp (cell?_alloc_before hr.tidy cell)
  refine (Guards.alloc hc).apart _ (apart_of_empty hempty fun heq => ?_)
  rw [heq, hr.slot] at hempty
  cases hempty

theorem apart_object (hr : h.Rooted r s) {o : Object} (ho : (Cell.object o).links = []) :
    h.Guards r (h.allocObject o).2 ∧ (h.allocObject o).2.Apart r (h.allocObject o).1 := by
  have hlinks : ∀ b ∈ (Cell.object o).links, h.Apart r b := by
    rw [ho]
    exact List.forall_mem_nil _
  exact ⟨.alloc hlinks, apart_alloc hr hlinks⟩

section Owner

theorem rewrite_apart (hr : h.slot? r = some s) {t : Slot} (ht : t.born = s.born) :
    (∀ a, h.Apart r a → (h.setSlot r t).Apart r a) ∧ ∀ held, h.Spares held (h.setSlot r t) := by
  refine ⟨fun a ha => apart_of_closed (h.Apart r) (fun b u hb hu c hlink => ?_) (fun hr => hr.ne rfl) ha,
    fun held b u _ hu => ?_⟩
  · rw [slot?_setSlot, if_neg fun hh => hb.ne hh.1.symm] at hu
    exact closed_apart r h b u hb hu c hlink
  · rw [slot?_setSlot]
    split
    · rename_i hh
      obtain ⟨rfl, -⟩ := hh
      obtain rfl := Option.some.inj (hr.symm.trans hu)
      exact ⟨t, rfl, ht⟩
    · exact ⟨u, hu, rfl⟩

theorem Rooted.rewrite (hr : h.Rooted r s) (cell : Cell) :
    (h.setSlot r { s with cell }).Rooted r { s with cell } := by
  refine ⟨hr.tidy.write hr.slot, ?_, hr.mark⟩
  rw [slot?_setSlot, if_pos ⟨rfl, index_lt_of_slot? hr.slot⟩]

end Owner

end Heap

end ScriptEngine
