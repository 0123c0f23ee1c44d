import ScriptEngine.Proofs.Heap.Endurance
import ScriptEngine.Proofs.Heap.Likeness
import ScriptEngine.Proofs.Host.Protection

namespace ScriptEngine

/-- No rethrown error stands directly around another one. -/
def Error.Flat : Error → Prop
  | .rethrown _ (.rethrown _ _) => False
  | .rethrown _ inner | .uncaught inner => inner.Flat
  | .reading _ | .parsing _ | .compiling _ | .fault _ | .thrown _ _ | .unbalancedScope => True

theorem Error.Flat.carrying {error : Error} (h : error.Flat) (v : Value) : (error.carrying v).Flat := by
  cases error with
  | rethrown w inner =>
    cases inner with
    | rethrown => exact h.elim
    | _ => exact h
  | _ => exact h

structure Error.Recasts (error error' : Error) : Prop where
  root : error'.root = error.root
  flat : error.Flat → error'.Flat
  uncaught : error.isUncaught = false → error'.isUncaught = false

namespace Error.Recasts

variable {error error' error'' : Error}

theorem refl (error : Error) : error.Recasts error := ⟨rfl, fun h => h, fun h => h⟩

theorem trans (h : error.Recasts error') (h' : error'.Recasts error'') : error.Recasts error'' :=
  ⟨h'.root.trans h.root, fun hf => h'.flat (h.flat hf), fun hu => h'.uncaught (h.uncaught hu)⟩

theorem carrying (error : Error) (v : Value) : error.Recasts (error.carrying v) := by
  refine ⟨root_carrying v error, fun h => h.carrying v, fun _ => ?_⟩
  cases error <;> rfl

end Error.Recasts

namespace Heap

def Retains (v : Value) (h h' : Heap) : Prop :=
  ∀ a s, v = .object a → h.slot? a = some s → ∃ t, h'.slot? a = some t ∧ t.content = s.content

variable {h h' h'' : Heap} {v : Value}

namespace Retains

theorem refl (v : Value) (h : Heap) : h.Retains v h := fun _ s _ hs => ⟨s, hs, rfl⟩

theorem trans (hh : h.Retains v h') (hh' : h'.Retains v h'') : h.Retains v h'' := by
  intro a s ha hs
  obtain ⟨t, ht, hc⟩ := hh a s ha hs
  obtain ⟨u, hu, hc'⟩ := hh' a t ha ht
  exact ⟨u, hu, hc'.trans hc⟩

theorem alloc (ht : h.Tidy) (v : Value) (cell : Cell) : h.Retains v (h.alloc cell).2 :=
  fun _ s _ hs => ⟨s, slot?_alloc_of_live ht cell hs, rfl⟩

theorem collectSince (hu : h.Unnumbered) {roots : List Handle} (hv : ∀ a, v = .object a → a ∈ roots) (since : Nat) :
    h.Retains v (h.collectSince since roots).2 := by
  intro a s ha hs
  exact Preserves.collectSince hu since (List.Subset.refl roots) a s (.root (hv a ha)) hs

theorem object? {a : Handle} {o : Object} (hh : h.Retains (.object a) h') (ho : h.object? a = some o) :
    h'.object? a = some o := by
  cases hs : h.slot? a with
  | none => simp [Heap.object?, cell?, hs] at ho
  | some s =>
    obtain ⟨t, ht, hc⟩ := hh a s rfl hs
    have hcell : t.cell = s.cell := congrArg Prod.snd hc
    simpa only [Heap.object?, cell?, hs, ht, Option.map_some, hcell] using ho

theorem shows {error : Error} (hh : h.Retains v h') (hs : h.Shows error v) : h'.Shows error v := by
  unfold Shows at hs ⊢
  cases hc : error.carried? with
  | some w => simpa only [hc] using hs
  | none =>
    simp only [hc] at hs ⊢
    obtain ⟨name, message, trace, a, hd, rfl, ho⟩ := hs
    exact ⟨name, message, trace, a, hd, rfl, hh.object? ho⟩

end Retains

theorem Dated.collectionsTo_collectSince {n : Nat} (hd : h.Dated n) (hd' : h'.Dated n) (hn : n + 2 < 2 ^ 32)
    (since : Nat) (roots : List Handle) : h.collectionsTo (h'.collectSince since roots).2 = 1 := by
  have hlast := (hd'.collectSince hn since roots).epoch
  have hfirst := hd.epoch
  have hlt := (h'.collectSince since roots).2.epoch.toNat_lt
  rw [collectionsTo, UInt32.toNat_sub, hlast, hfirst]
  omega

end Heap

namespace Engine

variable {e e₁ e₂ : Engine} {error : Error} {v : Value} {id : ScopeId} {frame : ProtectedFrame}
  {frames : List ProtectedFrame} {n : Nat}

/-- The value that an error of the state `e` has come to on top of the stack of `e'`: the one that the
error carries, with no cell made, or else a new error object, with no other cell made. -/
structure Delivers (e : Engine) (error : Error) (v : Value) (e' : Engine) : Prop where
  top : e'.stack.back? = some v
  carried : ∀ w, error.carried? = some w → v = w ∧ e'.heap.born = e.heap.born ∧ e.heap.Retains v e'.heap
  made : error.carried? = none → e'.heap.born = e.heap.born + 1 ∧ e'.heap.Shows error v ∧
    ∃ a, v = .object a ∧ e.heap.slot? a = none

theorem Delivers.handed (h : e.Delivers error v e₁) (htop : e₂.stack.back? = some v) (hborn : e₂.heap.born = e₁.heap.born)
    (hv : e₁.heap.Retains v e₂.heap) : e.Delivers error v e₂ := by
  refine ⟨htop, fun w hw => ?_, fun hw => ?_⟩
  · obtain ⟨hvw, hb, hr⟩ := h.carried w hw
    exact ⟨hvw, hborn.trans hb, hr.trans hv⟩
  · obtain ⟨hb, hs, hfresh⟩ := h.made hw
    exact ⟨hborn.trans hb, hv.shows hs, hfresh⟩

theorem Delivers.live (h : e.Delivers error v e₁)
    (hlive : ∀ a, error.carried? = some (.object a) → ∃ s, e.heap.slot? a = some s) {a : Handle} (ha : v = .object a) :
    ∃ s, e₁.heap.slot? a = some s := by
  subst ha
  cases hc : error.carried? with
  | some w =>
    obtain ⟨rfl, -, hr⟩ := h.carried w hc
    obtain ⟨s, hs⟩ := hlive a hc
    obtain ⟨t, ht, -⟩ := hr a s rfl hs
    exact ⟨t, ht⟩
  | none =>
    obtain ⟨-, hs, -⟩ := h.made hc
    simp only [Heap.Shows, hc] at hs
    obtain ⟨name, message, trace, b, -, hb, ho⟩ := hs
    cases hb
    cases hslot : e₁.heap.slot? a with
    | none => simp [Heap.object?, Heap.cell?, hslot] at ho
    | some s => exact ⟨s, rfl⟩

theorem exceptionValue_delivers (ht : e.heap.Tidy) (error : Error) :
    e.Delivers error (e.exceptionValue error).1 (pushThrown (e.exceptionValue error).1 (e.exceptionValue error).2) := by
  refine ⟨by simp [pushThrown], fun w hw => ?_, fun hw => ?_⟩
  · have hv : e.exceptionValue error = (w, e) := by simp only [exceptionValue, hw]
    rw [hv]
    exact ⟨rfl, rfl, .refl _ _⟩
  · have hshows := exceptionValue_shows ht error
    obtain ⟨name, message, hd⟩ := Error.exists_description hw
    simp only [exceptionValue, hw, hd] at hshows ⊢
    refine ⟨Heap.born_alloc _ _, hshows, _, rfl, ?_⟩
    exact Option.map_eq_none_iff.mp (Heap.cell?_alloc_before ht _)

theorem unwind_delivers (hf : findFrame id e.frames = some (frame, frames)) (hs : e.heap.Sound n) (hn : n + 2 < 2 ^ 32)
    (error : Error) :
    ∃ v e', e.unwind id error = (error, e') ∧ e'.frames = frames ∧ e.Delivers error v e' ∧
      e.heap.collectionsTo e'.heap = 1 := by
  have hthrown := exceptionValue_delivers (e := { e with frames }) hs.tidy error
  obtain ⟨v, h, hh, hv⟩ := exceptionValue_spec error { e with frames }
  simp only [hv] at hthrown
  have hthrown : e.Delivers error v (pushThrown v { e with frames, heap := h }) :=
    ⟨hthrown.top, hthrown.carried, hthrown.made⟩
  have hu : h.Unnumbered := (hs.evolves_zero hh).dated.unnumbered hn
  let back : Engine := restore frame v { e with frames, heap := h }
  have hroot : ∀ a, v = .object a → a ∈ back.roots := by
    rintro a rfl
    refine List.mem_append_right _ (List.mem_filterMap.mpr ⟨.object a, ?_, rfl⟩)
    simp [back, restore]
  refine ⟨v, back.collectSince frame.heapMark, ?_, rfl, ?_, ?_⟩
  · simp only [unwind, hf, hv]
    rfl
  · refine hthrown.handed ?_ rfl (Heap.Retains.collectSince hu hroot frame.heapMark)
    simp [back, restore, collectSince]
  · exact hs.dated.collectionsTo_collectSince (hs.evolves_zero hh).dated hn _ _

end Engine

end ScriptEngine
