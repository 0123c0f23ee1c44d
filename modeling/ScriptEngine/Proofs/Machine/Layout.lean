import Mathlib.Data.List.Basic
import ScriptEngine.Machine
import ScriptEngine.Proofs.Engine.Native

/-!
How running code lies on an instance. Each frame stands on the level that its call was made at, with
its operands above a floor, and with one protected scope for each of its open try statements. The
frames, the loops around them and the calls that wait for a result are stacked on one another.
-/

namespace ScriptEngine

inductive Covers (u : CodeUnit) (σ : Nat → Shape) (floor traceDepth scopeDepth : Nat) :
    Nat → List Handler → List OpenTry → List ProtectedFrame → Prop
  | nil {c : Nat} : Covers u σ floor traceDepth scopeDepth c [] [] []
  | cons {c : Nat} {t : OpenTry} {f : ProtectedFrame} {hs : List Handler} {ts : List OpenTry}
      {fs : List ProtectedFrame} :
      t.catches ≤ c → f.stackDepth = floor → f.traceDepth = traceDepth →
      f.scopeDepth = scopeDepth + t.catches → t.catchAt ≤ u.code.size →
      σ t.catchAt = ⟨1, ts, t.catches⟩ →
      Covers u σ floor traceDepth scopeDepth t.catches hs ts fs →
      Covers u σ floor traceDepth scopeDepth c (⟨f.id, t.catchAt, t.exitAt⟩ :: hs) (t :: ts) (f :: fs)

namespace Covers

variable {u : CodeUnit} {σ : Nat → Shape} {floor traceDepth scopeDepth c d : Nat}
  {hs : List Handler} {ts : List OpenTry} {fs : List ProtectedFrame}

theorem rebound (h : Covers u σ floor traceDepth scopeDepth c hs ts fs)
    (hd : ∀ t ∈ ts, t.catches ≤ d) : Covers u σ floor traceDepth scopeDepth d hs ts fs := by
  cases h with
  | nil => exact .nil
  | cons _ h2 h3 h4 h5 h6 h7 => exact .cons (hd _ List.mem_cons_self) h2 h3 h4 h5 h6 h7

theorem nested (h : Covers u σ floor traceDepth scopeDepth c hs ts fs) : ∀ t ∈ ts, t.catches ≤ c := by
  induction h with
  | nil => simp
  | cons hc _ _ _ _ _ _ ih =>
    intro t ht
    rcases List.mem_cons.mp ht with rfl | ht
    · exact hc
    · exact Nat.le_trans (ih t ht) hc

theorem ids (h : Covers u σ floor traceDepth scopeDepth c hs ts fs) :
    fs.map (·.id) = hs.map (·.scope) := by
  induction h with
  | nil => rfl
  | cons _ _ _ _ _ _ _ ih => simp [ih]

end Covers

/-- A frame called at level `L`, with the shape of its code, at the level `M`. The floor is the
stack depth above the callee, the receiver, the arguments and the completion value. -/
structure CallFrame.Sits (frame : CallFrame) (σ : Nat → Shape) (floor : Nat) (s : Shape) (L M : Level) :
    Prop where
  compiled : frame.unit.Compiled
  shaped : frame.unit.Shaped σ
  base : frame.base = L.stack.length
  call : ∃ argc, floor = frame.base + 2 + argc + if frame.unit.isScript then 1 else 0
  completion : frame.completion = if frame.unit.isScript then some (floor - 1) else none
  stack : L.stack <+: M.stack
  floor_le : floor ≤ M.stack.length
  trace : ∃ t, M.trace = L.trace ++ [t]
  saved : frame.savedScope = L.scopes.length
  scopes : ∃ catches, catches.length = s.catches ∧ M.scopes = L.scopes ++ L.env :: catches
  tries : ∃ fs, M.frames = fs ++ L.frames ∧
    Covers frame.unit σ floor M.trace.length (L.scopes.length + 1) s.catches frame.handlers s.tries fs
  loops : M.loops = L.loops

structure CallFrame.Awaits (frame : CallFrame) (σ : Nat → Shape) (floor : Nat) (s : Shape) (n : Nat)
    (M : Level) : Prop where
  next_le : frame.next ≤ frame.unit.code.size
  shape : σ frame.next = s.push n
  height : M.stack.length = floor + s.height

inductive Layer where
  | guard (scope : ScopeId)
  | native (base : Nat)
  | entry (entry : Entry)
  | frame (frame : CallFrame)

def Task.layers : Task → List Layer
  | .guard scope => [.guard scope]
  | .native base => [.native base]
  | .loop entry frames => frames.map .frame ++ [.entry entry]

inductive Stacked (L₀ : Level) : List Layer → List Nat → Level → Prop
  | host : Stacked L₀ [] [] L₀
  | guard {ls : List Layer} {fl : List Nat} {L : Level} {f : ProtectedFrame} :
      Stacked L₀ ls fl L → f.Marks L →
        Stacked L₀ (.guard f.id :: ls) fl { L with frames := f :: L.frames }
  | native {ls : List Layer} {fl : List Nat} {L : Level} (values : List Value) (t : TraceEntry) :
      Stacked L₀ ls fl L → Stacked L₀ (.native L.stack.length :: ls) fl
        { L with stack := L.stack ++ values, trace := L.trace ++ [t] }
  | entry {ls : List Layer} {fl : List Nat} {L : Level} :
      Stacked L₀ ls fl L →
        Stacked L₀ (.entry ⟨L.stack.length, L.scopes.length, L.trace.length⟩ :: ls) fl
          { L with loops := L.loops + 1 }
  | frame {ls : List Layer} {fl : List Nat} {L M : Level} {frame : CallFrame} {σ : Nat → Shape}
      {floor : Nat} {s : Shape} :
      Stacked L₀ ls fl L → frame.Sits σ floor s L M → frame.Awaits σ floor s 1 M →
        Stacked L₀ (.frame frame :: ls) (floor :: fl) M

namespace CallFrame.Sits

variable {frame : CallFrame} {σ : Nat → Shape} {floor : Nat} {s : Shape} {L M : Level}

theorem goto (h : frame.Sits σ floor s L M) (target : Nat) :
    { frame with next := target }.Sits σ floor s L M :=
  ⟨h.compiled, h.shaped, h.base, h.call, h.completion, h.stack, h.floor_le, h.trace, h.saved, h.scopes,
    h.tries, h.loops⟩

theorem base_le (h : frame.Sits σ floor s L M) : L.stack.length ≤ floor := by
  obtain ⟨argc, hf⟩ := h.call
  rw [← h.base]
  omega

theorem restack (h : frame.Sits σ floor s L M) {low : List Value} (hp : low <+: M.stack)
    (hl : floor ≤ low.length) (out : List Value) (r : Shape) (ht : r.tries = s.tries) (hc : r.catches = s.catches) :
    frame.Sits σ floor r L { M with stack := low ++ out } where
  compiled := h.compiled
  shaped := h.shaped
  base := h.base
  call := h.call
  completion := h.completion
  stack := (List.prefix_of_prefix_length_le h.stack hp (Nat.le_trans h.base_le hl)).trans
    (List.prefix_append low out)
  floor_le := by simp only [List.length_append]; omega
  trace := h.trace
  saved := h.saved
  scopes := by rw [hc]; exact h.scopes
  tries := by rw [ht, hc]; exact h.tries
  loops := h.loops

theorem rescope (h : frame.Sits σ floor s L M) {r : Shape} (catches : List Handle) (env : Handle)
    (hl : catches.length = r.catches) (ht : r.tries = s.tries) (hc : ∀ t ∈ s.tries, t.catches ≤ r.catches) :
    frame.Sits σ floor r L { M with scopes := L.scopes ++ L.env :: catches, env } := by
  obtain ⟨fs, hfs, hcov⟩ := h.tries
  refine ⟨h.compiled, h.shaped, h.base, h.call, h.completion, h.stack, h.floor_le, h.trace, h.saved,
    ⟨catches, hl, rfl⟩, ⟨fs, hfs, ?_⟩, h.loops⟩
  rw [ht]
  exact hcov.rebound hc

theorem beneath (h : frame.Sits σ floor s L M) (hh : frame.handlers = []) : L.Beneath M := by
  obtain ⟨t, ht⟩ := h.trace
  obtain ⟨cs, _, hcs⟩ := h.scopes
  obtain ⟨fs, hfs, hcov⟩ := h.tries
  have hnil : fs = [] := by simpa [hh] using hcov.ids
  refine ⟨h.stack, ?_, ?_, by simpa [hnil] using hfs, h.loops⟩
  · rw [ht]
    exact List.prefix_append ..
  · rw [hcs]
    exact ⟨cs ++ [M.env], by simp⟩

end CallFrame.Sits

def Layer.scopes : Layer → List ScopeId
  | .guard scope => [scope]
  | .native _ | .entry _ => []
  | .frame f => f.handlers.map (·.scope)

def Layer.isFrame : Layer → Bool
  | .frame _ => true
  | _ => false

namespace Stacked

variable {L₀ L : Level} {ls : List Layer} {fl : List Nat}

theorem ids (h : Stacked L₀ ls fl L) :
    L.frames.map (·.id) = ls.flatMap Layer.scopes ++ L₀.frames.map (·.id) := by
  induction h with
  | host => rfl
  | guard _ _ ih => simp [Layer.scopes, ih]
  | native _ _ _ ih => simpa [Layer.scopes] using ih
  | entry _ ih => simpa [Layer.scopes] using ih
  | frame _ hs _ ih =>
    obtain ⟨fs, hfs, hcov⟩ := hs.tries
    simp [hfs, Layer.scopes, ih, hcov.ids]

theorem length_floors (h : Stacked L₀ ls fl L) : fl.length = ls.countP Layer.isFrame := by
  induction h with
  | host => rfl
  | guard _ _ ih => simpa [Layer.isFrame] using ih
  | native _ _ _ ih => simpa [Layer.isFrame] using ih
  | entry _ ih => simpa [Layer.isFrame] using ih
  | frame _ _ _ ih => rw [List.length_cons, List.countP_cons_of_pos rfl, ih]

end Stacked

end ScriptEngine
