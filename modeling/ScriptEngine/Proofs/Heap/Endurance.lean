import ScriptEngine.Proofs.Heap.Upkeep

namespace ScriptEngine.Heap

variable {h h' h'' : Heap} {roots roots' : List Handle} {held : Handle → Prop} {a : Handle}

def Spares (held : Handle → Prop) (h h' : Heap) : Prop :=
  ∀ a s, held a → h.slot? a = some s → ∃ s', h'.slot? a = some s' ∧ s'.born = s.born

def Thins (h h' : Heap) : Prop :=
  ∀ a s', h'.slot? a = some s' → ∃ s, h.slot? a = some s ∧ s'.born = s.born

def Steady (held : Handle → Prop) (h h' : Heap) : Prop :=
  ∃ mid, h.Spares held mid ∧ mid.Thins h'

/-- The cells that the roots reach are kept as they are. -/
def Preserves (roots : List Handle) (h h' : Heap) : Prop :=
  ∀ a s, h.Reaches roots a → h.slot? a = some s → ∃ s', h'.slot? a = some s' ∧ s'.content = s.content

theorem Tidy.environment (ht : h.Tidy) (names outer : Option Handle) : (Environment.alloc h names outer).2.Tidy :=
  ht.evolves (Evolves.environment (n := 0) .refl names outer)

theorem Reaches.mono (ha : h.Reaches roots a) (hr : roots ⊆ roots') : h.Reaches roots' a := by
  induction ha with
  | root ha => exact .root (hr ha)
  | link _ hs hb ih => exact ih.link hs hb

namespace Spares

theorem refl (held : Handle → Prop) (h : Heap) : h.Spares held h := fun _ s _ hs => ⟨s, hs, rfl⟩

theorem trans (hh : h.Spares held h') (hh' : h'.Spares held h'') : h.Spares held h'' := by
  intro a s ha hs
  obtain ⟨s', hs', hb⟩ := hh a s ha hs
  obtain ⟨s'', hs'', hb'⟩ := hh' a s' ha hs'
  exact ⟨s'', hs'', hb'.trans hb⟩

theorem of_evolves (ht : h.Tidy) (he : h.Evolves 0 h') : h.Spares held h' := by
  generalize hn : 0 = n at he
  induction he with
  | refl => exact .refl held h
  | @alloc _ h₁ cell he _ ih =>
    intro a s ha hs
    obtain ⟨s₁, hs₁, hb⟩ := ih hn a s ha hs
    exact ⟨s₁, slot?_alloc_of_live (ht.evolves he) cell hs₁, hb⟩
  | @write _ h₁ b mark born o properties _ hw ih =>
    intro a s ha hs
    obtain ⟨s₁, hs₁, hb⟩ := ih hn a s ha hs
    rw [slot?_setSlot]
    split
    · rename_i hab
      obtain rfl := hab.1
      obtain rfl : _ = s₁ := Option.some.inj (hw.symm.trans hs₁)
      exact ⟨_, rfl, hb⟩
    · exact ⟨s₁, hs₁, hb⟩
  | collect => cases hn

theorem steady (hh : h.Spares held h') : h.Steady held h' := ⟨h', hh, fun _ s hs => ⟨s, hs, rfl⟩⟩

end Spares

theorem Thins.collectSince (h : Heap) (since : Nat) (roots : List Handle) : h.Thins (h.collectSince since roots).2 := by
  intro a s' hs'
  have hc := content_of_collectSince hs'
  obtain ⟨s, hs, hcontent⟩ := Option.map_eq_some_iff.mp hc
  exact ⟨s, hs, (congrArg Prod.fst hcontent).symm⟩

theorem Steady.born_eq {s s' : Slot} (hh : h.Steady held h') (ha : held a) (hs : h.slot? a = some s)
    (hs' : h'.slot? a = some s') : s'.born = s.born := by
  obtain ⟨mid, hspares, hthins⟩ := hh
  obtain ⟨t, ht, hb⟩ := hspares a s ha hs
  obtain ⟨t', ht', hb'⟩ := hthins a s' hs'
  obtain rfl : t = t' := Option.some.inj (ht.symm.trans ht')
  exact hb'.trans hb

namespace Preserves

theorem refl (roots : List Handle) (h : Heap) : h.Preserves roots h := fun _ s _ hs => ⟨s, hs, rfl⟩

theorem reaches (hh : h.Preserves roots h') (ha : h.Reaches roots a) : h'.Reaches roots a := by
  induction ha with
  | root ha => exact .root ha
  | @link b c s hb hs hc ih =>
    obtain ⟨s', hs', hcontent⟩ := hh b s hb hs
    refine ih.link hs' ?_
    rw [show s'.cell = s.cell from congrArg Prod.snd hcontent]
    exact hc

theorem trans (hh : h.Preserves roots h') (hh' : h'.Preserves roots h'') : h.Preserves roots h'' := by
  intro a s ha hs
  obtain ⟨s', hs', hc⟩ := hh a s ha hs
  obtain ⟨s'', hs'', hc'⟩ := hh' a s' (hh.reaches ha) hs'
  exact ⟨s'', hs'', hc'.trans hc⟩

theorem fewer (hh : h.Preserves roots' h') (hr : roots ⊆ roots') : h.Preserves roots h' :=
  fun a s ha hs => hh a s (ha.mono hr) hs

theorem alloc (ht : h.Tidy) (cell : Cell) : h.Preserves roots (h.alloc cell).2 :=
  fun _ s _ hs => ⟨s, slot?_alloc_of_live ht cell hs, rfl⟩

theorem environment (ht : h.Tidy) (names outer : Option Handle) : h.Preserves roots (Environment.alloc h names outer).2 := by
  cases names with
  | some names => exact .alloc ht _
  | none => exact (alloc ht _).trans (.alloc (ht.alloc _) _)

theorem collectSince (hu : h.Unnumbered) (since : Nat) (hr : roots ⊆ roots') :
    h.Preserves roots (h.collectSince since roots').2 := by
  intro a s ha hs
  refine ⟨{ s with mark := nextEpoch h.epoch }, ?_, rfl⟩
  rw [slot?_collected_of_reaches hu (ha.mono hr), hs]
  rfl

theorem spares (hh : h.Preserves roots h') (hheld : ∀ a, held a → h.Reaches roots a) : h.Spares held h' := by
  intro a s ha hs
  obtain ⟨s', hs', hc⟩ := hh a s (hheld a ha) hs
  exact ⟨s', hs', congrArg Prod.fst hc⟩

end Preserves

end ScriptEngine.Heap
