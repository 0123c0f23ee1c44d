import ScriptEngine.Engine.Create
import ScriptEngine.Proofs.Heap.Evolution

namespace ScriptEngine

open Heap

structure Heap.Furnishing (Q : Heap → Prop) : Prop where
  alloc : ∀ (h : Heap) (cell : Cell), cell.ClosesOver (fun _ => False) → Q h → Q (h.alloc cell).2
  insert : ∀ (h h' : Heap) (a : Handle) (name : String) (value : Value), h.insertProperty? a name value = some h' →
    Q h → Q h'

namespace Heap.Furnishing

open Engine

variable {Q : Heap → Prop} {h : Heap}

theorem insert_getD (hq : Furnishing Q) (hh : Q h) (a : Handle) (name : String) (value : Value) :
    Q ((h.insertProperty? a name value).getD h) := by
  cases hi : h.insertProperty? a name value with
  | none => exact hh
  | some h' => exact hq.insert h h' a name value hi hh

theorem installs (hq : Furnishing Q) (hh : Q h) (owner : Handle) (fs : List Builtin) :
    Q (fs.foldl (install owner) h) := by
  induction fs generalizing h with
  | nil => exact hh
  | cons f fs ih => exact ih (hq.insert_getD (hq.alloc h (.object (.of (.native f))) trivial hh) owner _ _)

theorem setGlobals (hq : Furnishing Q) (hh : Q h) (owner : Handle) (entries : List (String × Value)) :
    Q (entries.foldl (setGlobal owner) h) := by
  induction entries generalizing h with
  | nil => exact hh
  | cons entry entries ih => exact ih (hq.insert_getD hh owner entry.1 entry.2)

theorem populate (hq : Furnishing Q) (hh : Q h) (global : Handle) : Q (populate global h) := by
  delta Engine.populate
  dsimp only
  have hi := hq.installs hh global Builtin.globals
  generalize Builtin.globals.foldl (install global) h = h₁ at hi ⊢
  have hm : Q (h₁.allocObject (.of .plain)).2 := hq.alloc h₁ _ trivial hi
  generalize h₁.allocObject (.of .plain) = made at hm ⊢
  have hf := hq.installs hm made.1 Builtin.mathMembers
  generalize Builtin.mathMembers.foldl (install made.1) made.2 = h₂ at hf ⊢
  exact hq.setGlobals (hq.insert_getD hf made.1 "PI" (.number pi)) global _

theorem create {flags : Flags} {limits : Limits} {e : Engine} (hq : Furnishing Q) (hh : Q .empty)
    (hc : create? flags limits = some e) : Q e.heap := by
  simp only [create?] at hc
  split at hc
  · have hr : Q (Heap.empty.allocObject (.of .plain)).2 := hq.alloc _ _ trivial hh
    generalize Heap.empty.allocObject (.of .plain) = registry at hc hr
    obtain ⟨registry, h₁⟩ := registry
    have hg : Q (h₁.allocObject (.of .plain)).2 := hq.alloc _ _ trivial hr
    generalize h₁.allocObject (.of .plain) = global at hc hg
    obtain ⟨global, h₂⟩ := global
    have he : Q (Environment.alloc h₂ (some global) none).2 := hq.alloc _ _ trivial hg
    generalize Environment.alloc h₂ (some global) none = env at hc he
    have hp := hq.populate he global
    generalize Engine.populate global env.2 = h₃ at hc hp
    obtain rfl := Option.some.inj hc
    exact hp
  · cases hc

end Heap.Furnishing

theorem Heap.onlyCompiled_empty : Heap.empty.OnlyCompiled :=
  OnlyCompiled.iff_closesOver.mpr .empty

namespace Engine

theorem evolves_create {flags : Flags} {limits : Limits} {e : Engine} (hc : create? flags limits = some e) :
    Heap.empty.Evolves 0 e.heap := by
  refine Furnishing.create ⟨fun h cell hcell hh => ?_, fun h h' a name value hi hh => hh.insertProperty? hi⟩ .refl hc
  exact hh.alloc (cell.onlyCompiled_iff.mpr (hcell.mono fun _ hu => hu.elim))

theorem closesOver_create {P : CodeUnit → Prop} {flags : Flags} {limits : Limits} {e : Engine}
    (hc : create? flags limits = some e) : e.heap.ClosesOver P := by
  refine Furnishing.create ⟨fun h cell hcell hh => ?_, fun h h' a name value hi hh => hh.insertProperty? hi⟩ .empty hc
  exact hh.alloc (hcell.mono fun _ hu => hu.elim)

theorem onlyCompiled_create {flags : Flags} {limits : Limits} {e : Engine}
    (hc : create? flags limits = some e) : e.heap.OnlyCompiled :=
  onlyCompiled_empty.evolves (evolves_create hc)

theorem create_frames {flags : Flags} {limits : Limits} {e : Engine} (hc : create? flags limits = some e) :
    e.trace = #[.bottom] ∧ e.frames = [] := by
  simp only [create?] at hc
  split at hc
  · obtain rfl := Option.some.inj hc
    exact ⟨rfl, rfl⟩
  · cases hc

end Engine

end ScriptEngine
