import ScriptEngine.Proofs.Machine.Soundness

/-!
The levels that the layers of a machine wait at. Each layer knows how deep the level below it is, so
the level of every layer can be read off the state. A step works at the innermost layers only: the
layers below it wait at the same levels as before.
-/

namespace ScriptEngine

def TraceEntry.place (t : TraceEntry) : String × String := (t.name, t.file)

namespace Level

def chain (L : Level) : List Handle := L.scopes ++ [L.env]

def places (L : Level) : List (String × String) := L.trace.map TraceEntry.place

end Level

def Layer.below : Layer → Level → Level
  | .guard _, M =>
    match M.frames with
    | [] => M
    | f :: frames => { M with stack := M.stack.take f.stackDepth, frames }
  | .native base, M => { M with stack := M.stack.take base, trace := M.trace.dropLast }
  | .entry x, M => { M with stack := M.stack.take x.base, loops := M.loops - 1 }
  | .frame g, M =>
    ⟨M.stack.take g.base, M.trace.dropLast, M.scopes.take g.savedScope, M.scopes[g.savedScope]?.getD M.env,
      M.frames.drop g.handlers.length, M.loops⟩

def Level.under (M : Level) : List Layer → Level
  | [] => M
  | l :: ls => (l.below M).under ls

def tower : List Layer → Level → List (Layer × Level)
  | [], _ => []
  | l :: ls, M => (l, M) :: tower ls (l.below M)

theorem map_tower (ls : List Layer) (M : Level) : (tower ls M).map (·.1) = ls := by
  induction ls generalizing M with
  | nil => rfl
  | cons l ls ih => rw [tower, List.map_cons, ih]

theorem tower_append (as bs : List Layer) (M : Level) :
    tower (as ++ bs) M = tower as M ++ tower bs (M.under as) := by
  induction as generalizing M with
  | nil => rfl
  | cons a as ih => rw [List.cons_append, tower, ih, tower, List.cons_append, Level.under]

theorem CallFrame.Sits.below {frame : CallFrame} {σ : Nat → Shape} {floor : Nat} {s : Shape} {L M : Level}
    (h : frame.Sits σ floor s L M) : Layer.below (.frame frame) M = L := by
  obtain ⟨t, ht⟩ := h.trace
  obtain ⟨cs, -, hcs⟩ := h.scopes
  obtain ⟨fs, hfs, hcov⟩ := h.tries
  have hlen : fs.length = frame.handlers.length := by
    simpa using congrArg List.length hcov.ids
  obtain ⟨above, habove⟩ := h.stack
  simp only [Layer.below, h.base, h.saved, hcs, hfs, ← hlen, ht, ← habove, h.loops, List.take_left,
    List.drop_left, List.dropLast_concat, List.getElem?_append_right (Nat.le_refl _),
    Nat.sub_self, List.getElem?_cons_zero, Option.getD_some]

theorem Stacked.lower {L₀ M : Level} {l : Layer} {ls : List Layer} {fl : List Nat} (h : Stacked L₀ (l :: ls) fl M) :
    ∃ fl', Stacked L₀ ls fl' (l.below M) := by
  cases h with
  | @guard _ _ L f hst hm =>
    refine ⟨fl, ?_⟩
    rw [show Layer.below (.guard f.id) { L with frames := f :: L.frames } = L by simp [Layer.below, hm.stackDepth]]
    exact hst
  | @native _ _ L values t hst =>
    refine ⟨fl, ?_⟩
    rw [show Layer.below (.native L.stack.length) { L with stack := L.stack ++ values, trace := L.trace ++ [t] } = L
      by simp [Layer.below]]
    exact hst
  | @entry _ _ L hst =>
    refine ⟨fl, ?_⟩
    rw [show Layer.below (.entry ⟨L.stack.length, L.scopes.length, L.trace.length⟩) { L with loops := L.loops + 1 } = L
      by simp [Layer.below]]
    exact hst
  | frame hst hs hw =>
    rw [← hs.below] at hst
    exact ⟨_, hst⟩

theorem Stacked.under {L₀ M : Level} {ls : List Layer} {fl : List Nat} (h : Stacked L₀ ls fl M) :
    M.under ls = L₀ := by
  induction ls generalizing fl M with
  | nil =>
    cases h
    rfl
  | cons l ls ih =>
    obtain ⟨fl', h'⟩ := h.lower
    exact ih h'

theorem Stacked.sits {L₀ M : Level} {ls : List Layer} {fl : List Nat} (h : Stacked L₀ ls fl M) :
    ∀ g N, (.frame g, N) ∈ tower ls M → ∃ σ floor s L, g.Sits σ floor s L N := by
  intro g N hmem
  induction ls generalizing fl M with
  | nil => cases hmem
  | cons l ls ih =>
    rcases List.mem_cons.mp hmem with heq | hmem
    · obtain ⟨rfl, rfl⟩ := Prod.mk.inj heq
      cases h with
      | frame hst hs hw => exact ⟨_, _, _, _, hs⟩
    · obtain ⟨fl', h'⟩ := h.lower
      exact ih h' hmem

theorem Stacked.standing_above {L₀ M : Level} {l : Layer} {ls : List Layer} {fl : List Nat}
    (h : Stacked L₀ ls fl (l.below M)) (hl : ∀ g, l = .frame g → ∃ σ floor s L, g.Sits σ floor s L M) :
    M.under (l :: ls) = L₀ ∧ ∀ g N, (.frame g, N) ∈ tower (l :: ls) M → ∃ σ floor s L, g.Sits σ floor s L N := by
  refine ⟨h.under, ?_⟩
  intro g N hmem
  rcases List.mem_cons.mp hmem with heq | hmem
  · obtain ⟨hg, rfl⟩ := Prod.mk.inj heq
    exact hl g hg.symm
  · exact h.sits g N hmem

namespace Machine

open Engine

def tower (m : Machine) : List (Layer × Level) :=
  ScriptEngine.tower m.allLayers m.engine.level

variable {L₀ : Level} {fl : List Nat} {m : Machine}

theorem Fits.standing (h : Fits L₀ fl m) :
    m.engine.level.under m.allLayers = L₀ ∧
      ∀ g N, (.frame g, N) ∈ m.tower → ∃ σ floor s L, g.Sits σ floor s L N := by
  obtain ⟨e, tasks, control⟩ := m
  cases control with
  | running entry frames =>
    simp only [tower, allLayers, Control.layers, List.append_assoc, List.singleton_append]
    cases h with
    | @intro _ frame callers fl L σ floor s hst hs hw =>
      rw [← hs.below] at hst
      refine hst.standing_above ?_
      intro g hg
      cases hg
      exact ⟨_, _, _, _, hs⟩
    | @idle _ _ L extra hst he =>
      cases hst with
      | @entry _ _ L hst =>
        have hb : Layer.below (.entry ⟨L.stack.length, L.scopes.length, L.trace.length⟩) e.level = L := by
          rw [he]
          simp [Layer.below]
        rw [← hb] at hst
        exact hst.standing_above fun _ hg => by cases hg
  | calling receiver callee args => exact ⟨h.under, h.sits⟩
  | returning result =>
    cases result with
    | ok v => exact ⟨h.under, h.sits⟩
    | error error =>
      obtain ⟨-, L, extra, hst, he, hx⟩ := h
      rcases hx with rfl | ⟨scope, rest, rfl⟩
      · rw [List.append_nil] at he
        have hst' : Stacked L₀ (layers tasks) fl e.level := by
          rw [he]
          exact hst
        exact ⟨hst'.under, hst'.sits⟩
      · simp only [layers, List.flatMap_cons, Task.layers, List.singleton_append] at hst
        cases hst with
        | @guard _ _ L f hst hm =>
          have hb : Layer.below (.guard f.id) e.level = L := by
            rw [he]
            simp [Layer.below, hm.stackDepth]
          rw [← hb] at hst
          exact hst.standing_above fun _ hg => by cases hg

end Machine

end ScriptEngine
