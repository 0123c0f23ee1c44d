import ScriptEngine.Proofs.Engine.Aside
import ScriptEngine.Proofs.Host.Discipline
import ScriptEngine.Proofs.Host.Session

namespace ScriptEngine

open Engine

inductive Loading where
  | text (name source : String) (mode : LoadMode)
  | file (path : String) (stream : Option Stream)

def Loading.load : Loading → EngineM Value
  | .text name source mode => Engine.load name source mode
  | .file path stream => Engine.loadFile path stream

namespace Engine

variable {α : Type} {e e' : Engine} {n : Nat}

def Binds (v : Value) (e : Engine) : Prop :=
  ∃ unit env, e.callee v = .ok (.closure unit env)

theorem binds_of_heap {v : Value} (h : e.Binds v) (hh : e'.heap = e.heap) : e'.Binds v := by
  obtain ⟨unit, env, hc⟩ := h
  refine ⟨unit, env, ?_⟩
  simpa only [callee, display, hh] using hc

theorem callee_closureOf (ht : e.heap.Tidy) (unit : CodeUnit) (env : Handle) :
    (e.closureOf unit env).2.callee (e.closureOf unit env).1 = .ok (.closure unit env) := by
  have hobject := Heap.object?_of_slot? (Heap.slot?_alloc_new ht (.object (.of (.closure unit env)))) rfl
  simp only [callee, closureOf, newObject, alloc, Value.handle?, Option.bind_some, hobject]
  rfl

theorem closureOf_binds (ht : e.heap.Tidy) (unit : CodeUnit) (env : Handle) :
    (e.closureOf unit env).2.Binds (e.closureOf unit env).1 :=
  ⟨unit, env, callee_closureOf ht unit env⟩

theorem guarding_eq_ok {body : EngineM α} {a : α} (h : guarding body e = .ok a e') :
    ∃ id e₁ e₂, beginProtected e = .ok id e₁ ∧ body e₁ = .ok a e₂ ∧ e'.heap = e₂.heap := by
  simp only [guarding, protect] at h
  cases hb : beginProtected e with
  | error error e₁ =>
    rw [hb] at h
    cases h
  | ok id e₁ =>
    simp only [hb] at h
    cases hbody : body e₁ with
    | error error e₂ =>
      simp only [hbody, endProtected, carried] at h
      cases h
    | ok b e₂ =>
      simp only [hbody, endProtected] at h
      cases hl : leaveProtected id e₂ with
      | error error e₃ =>
        simp only [hl, carried] at h
        cases h
      | ok _ e₃ =>
        obtain ⟨frame, frames, -, -, rfl⟩ := (leaveProtected_ensures id e₂).ok hl
        simp only [hl, carried] at h
        cases h
        exact ⟨id, e₁, e₂, rfl, hbody, rfl⟩

theorem target_tidy (mode : LoadMode) (ht : e.heap.Tidy) : (target mode e).2.heap.Tidy := by
  simp only [target]
  split
  · exact ht.environment _ _
  · exact ht

theorem compile_state (name source : String) (e : Engine) :
    Ensures (compile name source) (fun _ e' => e' = e) (fun _ e' => e' = e) e := by
  simp only [Ensures, compile_eq]
  cases parse source with
  | error d => rfl
  | ok items =>
    dsimp only
    cases SyntaxTree.compile ⟨name, items⟩ e.strict <;> rfl

theorem load_eq_ok {name source : String} {mode : LoadMode} {v : Value} (hl : load name source mode e = .ok v e') :
    ∃ id e₁ u, beginProtected e = .ok id e₁ ∧ compile name source e₁ = .ok u e₁ ∧
      v = ((target mode e₁).2.closureOf u (target mode e₁).1).1 ∧
      e'.heap = ((target mode e₁).2.closureOf u (target mode e₁).1).2.heap := by
  obtain ⟨id, e₁, e₂, hb, hbody, hh⟩ := guarding_eq_ok hl
  have hbinds : Ensures (bindSource name source mode)
      (fun v e' => ∃ u, compile name source e₁ = .ok u e₁ ∧
        v = ((target mode e₁).2.closureOf u (target mode e₁).1).1 ∧
        e' = ((target mode e₁).2.closureOf u (target mode e₁).1).2) (fun _ _ => True) e₁ := by
    cases hc : compile name source e₁ with
    | error error e₃ => exact .bind (.of_error hc trivial)
    | ok u e₃ =>
      obtain rfl : e₃ = e₁ := (compile_state name source e₁).ok hc
      exact .bind (.of_ok hc (.bind (.modifyGet (.modifyGet ⟨u, rfl, rfl, rfl⟩))))
  obtain ⟨u, hu, hv, rfl⟩ := hbinds.ok hbody
  exact ⟨id, e₁, u, hb, hu, hv, hh⟩

theorem loadFile_eq_ok {path : String} {file : Option Stream} {v : Value} (hl : loadFile path file e = .ok v e') :
    ∃ e₁ e₂ ledger buffer, e₁.heap = e.heap ∧ (SourceBuffer.ofFile path file ledger).1 = .ok buffer ∧
      load path buffer.text .program e₁ = .ok v e₂ ∧ e'.heap = e₂.heap := by
  obtain ⟨id, e₁, e₃, hb, hbody, hh⟩ := guarding_eq_ok hl
  have hloads : Ensures (readFile path file >>= loadBuffer path)
      (fun v e' => ∃ e₁ e₂ ledger buffer, e₁.heap = e.heap ∧ (SourceBuffer.ofFile path file ledger).1 = .ok buffer ∧
        load path buffer.text .program e₁ = .ok v e₂ ∧ e'.heap = e₂.heap) (fun _ _ => True) e₁ := by
    have hheap := beginProtected_heap hb
    refine .bind (.get ?_)
    cases hfile : SourceBuffer.ofFile path file e₁.ledger with
    | mk read ledger =>
      refine .bind (.set ?_)
      cases read with
      | error error => exact .throw trivial
      | ok buffer =>
        refine .pure ?_
        simp only [Ensures, loadBuffer]
        cases hload : load path buffer.text .program { e₁ with ledger } with
        | error error e₂ => trivial
        | ok w e₂ => exact ⟨{ e₁ with ledger }, e₂, e₁.ledger, buffer, hheap, congrArg (·.1) hfile, hload, rfl⟩
  obtain ⟨e₁, e₂, ledger, buffer, hheap, hfile, hload, hh'⟩ := hloads.ok hbody
  exact ⟨e₁, e₂, ledger, buffer, hheap, hfile, hload, hh.trans hh'⟩

theorem load_binds {name source : String} {mode : LoadMode} {v : Value} (ht : e.heap.Tidy)
    (hl : load name source mode e = .ok v e') : e'.Binds v := by
  obtain ⟨id, e₁, u, hb, -, rfl, hh'⟩ := load_eq_ok hl
  exact binds_of_heap (closureOf_binds (target_tidy mode (beginProtected_heap hb ▸ ht)) u _) hh'

theorem loadFile_binds {path : String} {file : Option Stream} {v : Value} (ht : e.heap.Tidy)
    (hl : loadFile path file e = .ok v e') : e'.Binds v := by
  obtain ⟨e₁, e₂, -, buffer, hh, -, hload, hh'⟩ := loadFile_eq_ok hl
  exact binds_of_heap (load_binds (hh ▸ ht) hload) hh'

end Engine

namespace Loading

variable {e e' : Engine} {n : Nat} {silent : Bool}

theorem load_ensures (l : Loading) (e : Engine) : Ensures l.load (fun _ => e.Keeps 2) (e.KeepsFailing 2) e := by
  cases l with
  | text name source mode =>
    exact (Engine.load_ensures name source mode e).mono (fun _ _ h => h.mono (by omega))
      fun _ _ h => ⟨h.1, h.2.mono (by omega)⟩
  | file path stream => exact Engine.loadFile_ensures path stream e

theorem load_keeps (l : Loading) (e : Engine) : e.Keeps 2 (stateOf (l.load e)) :=
  ((l.load_ensures e).mono (fun _ _ h => h) fun _ _ h => h.2).state

theorem load_proceeds (l : Loading) : Proceeding silent id l.load := by
  cases l with
  | text name source mode => exact Engine.load_proceeds name source mode
  | file path stream => exact Engine.loadFile_proceeds path stream

theorem load_binds {l : Loading} {v : Value} (ht : e.heap.Tidy) (hl : l.load e = .ok v e') : e'.Binds v := by
  cases l with
  | text name source mode => exact Engine.load_binds ht hl
  | file path stream => exact Engine.loadFile_binds ht hl

theorem load_preserves (l : Loading) (ht : e.heap.Tidy) (hd : e.heap.Dated n)
    (hn : n + e.heap.collectionsTo (stateOf (l.load e)).heap + 2 < 2 ^ 32) :
    e.heap.Preserves e.roots (stateOf (l.load e)).heap := by
  cases l with
  | text name source mode => exact Engine.load_preserves name source mode ht hd (by omega)
  | file path stream => exact (Script.file path stream).load_preserves ht hd hn

end Loading

namespace Engine

variable {α : Type} {e e₁ e₂ : Engine} {n : Nat}

end Engine

section Frames

theorem Layer.frames_below (l : Layer) (M : Level) : (l.below M).frames <:+ M.frames := by
  cases l with
  | guard scope =>
    simp only [below]
    split
    · exact List.suffix_rfl
    · rename_i hf
      rw [hf]
      exact List.suffix_cons _ _
  | native base => exact List.suffix_rfl
  | entry x => exact List.suffix_rfl
  | frame g => exact List.drop_suffix _ _

theorem Level.frames_under (M : Level) (ls : List Layer) : (M.under ls).frames <:+ M.frames := by
  induction ls generalizing M with
  | nil => exact List.suffix_rfl
  | cons l ls ih => exact (ih (l.below M)).trans (l.frames_below M)

namespace Machine

variable {L : Level} {fl : List Nat} {m : Machine}

theorem Fits.frames (h : Fits L fl m) : L.frames <:+ m.engine.frames := by
  rw [← h.standing.1]
  exact Level.frames_under _ _

theorem Fits.steps (hh : m.engine.heap.OnlyCompiled) (h : Fits L fl m) (k : Nat) :
    ∃ fl', Fits L fl' (Machine.step^[k] m) := by
  induction k generalizing m fl with
  | zero => exact ⟨fl, h⟩
  | succ k ih => exact ih (hh.evolves (steps_step hh h).1.heap) (h.step hh)

end Machine

end Frames

namespace Engine

variable {e e' : Engine} {n fuel : Nat} {l : Loading} {r : EStateM.Result Error Engine Value}

end Engine

namespace Host

variable {κ χ α : Type} {panics : Panics κ χ} {h : Host κ χ}

theorem surface_open {r : EStateM.Result Error Engine α} (hf : (stateOf r).frames ≠ []) (handlers : Handlers κ χ)
    (h : Host κ χ) : surface handlers h r = some (h.receive r) := by
  cases r with
  | ok a e => rfl
  | error error e =>
    have hopen : e.frames.isEmpty = false := List.isEmpty_eq_false_iff.mpr hf
    simp only [surface, throw, hopen]
    rfl

theorem surfaceCollections_open {r : EStateM.Result Error Engine α} (hf : (stateOf r).frames ≠ []) :
    surfaceCollections panics h r = 0 := by
  cases r with
  | ok a e => rfl
  | error error e =>
    have hopen : e.frames.isEmpty = false := List.isEmpty_eq_false_iff.mpr hf
    simp only [surfaceCollections, throwCollections, hopen]
    rfl

end Host

open Host

variable {κ χ : Type} {h : Host κ χ}

def Loading.action : Loading → Action κ χ
  | .text name source mode => .load name source mode
  | .file path stream => .loadFile path stream

namespace Program

def evaluates (l : Loading) : Program κ χ Value :=
  .act l.action fun answer h =>
    match answer with
    | .ok (.value closure) =>
      .act (.call (.object h.engine.global) closure []) fun answer _ =>
        match answer with
        | .ok (.value v) => .done (.ok v)
        | .ok _ => .done (.ok .undefined)
        | .error error => .done (.error error)
    | .ok _ => .done (.ok .undefined)
    | .error error => .done (.error error)

def replied : Except Error Reply → Program κ χ Value
  | .ok (.value v) => .done (.ok v)
  | .ok _ => .done (.ok .undefined)
  | .error error => .done (.error error)

def calls (receiver callee : Value) (args : List Value) : Program κ χ Value :=
  .act (.call receiver callee args) fun answer _ => replied answer

theorem calls_run (panics : Panics κ χ) (fuel : Nat) (hh : h.engine.heap.OnlyCompiled) (hf : h.engine.frames ≠ [])
    (receiver callee : Value) (args : List Value) :
    ((calls receiver callee args).run panics fuel h).map (fun r => (r.outcome, r.collections)) =
      (h.engine.call fuel receiver callee args).map fun r =>
        (h.receive r, Machine.collections fuel ⟨h.engine, [], .calling receiver callee args⟩) := by
  simp only [calls, run, Action.perform, Action.collections, Host.call]
  cases hc : h.engine.call fuel receiver callee args with
  | none => rfl
  | some r =>
    have hopen : (stateOf r).frames ≠ [] := by
      rw [show (stateOf r).frames = h.engine.frames from congrArg Level.frames (Engine.call_level hh hc).1]
      exact hf
    simp only [Option.bind_some, surface_open hopen, surfaceCollections_open hopen, Option.map_some, Option.getD_some]
    cases r <;> rfl

end Program

namespace Host

variable {n : Nat}

end Host

end ScriptEngine
