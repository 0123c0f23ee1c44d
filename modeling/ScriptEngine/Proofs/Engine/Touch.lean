import ScriptEngine.Proofs.Engine.Likeness
import ScriptEngine.Proofs.Heap.Currency

namespace ScriptEngine

namespace Engine

inductive Touches (P : CodeUnit → Prop) (e : Engine) : Engine → Prop
  | push (v : Value) : e.stack.size < e.limits.stackSize → Touches P e { e with stack := e.stack.push v }
  | restack {stack : Array Value} : stack.size ≤ e.stack.size → Touches P e { e with stack }
  | enterTrace (entry : TraceEntry) :
      e.trace.size < e.limits.traceLimit → Touches P e { e with trace := e.trace.push entry }
  | retrace {trace : Array TraceEntry} : trace.size ≤ e.trace.size → Touches P e { e with trace }
  | enterProtected {frame : ProtectedFrame} :
      e.frames.length < e.limits.tryLimit → frame.id = ⟨e.frames.length, e.nextSerial⟩ →
        Touches P e { e with frames := frame :: e.frames, nextSerial := e.nextSerial + 1 }
  | leaveProtected {frames : List ProtectedFrame} : frames <:+ e.frames → Touches P e { e with frames }
  | rescope (env : Handle) (scopes : Array Handle) : Touches P e { e with env, scopes }
  | alloc {cell : Cell} : cell.ClosesOver P → Touches P e { e with heap := (e.heap.alloc cell).2 }
  | write {v : Value} {heap : Heap} : e.heap.Writes v heap → Touches P e { e with heap }

structure Allows (P : CodeUnit → Prop) (R : Engine → Engine → Prop) : Prop where
  refl : ∀ e, R e e
  trans : ∀ {e e' e''}, R e e' → R e' e'' → R e e''
  touches : ∀ {e e'}, e.Touches P e' → R e e'

namespace Allows

variable {P : CodeUnit → Prop} {R : Engine → Engine → Prop}

section Rules

variable {ε σ α β : Type} {view : σ → Engine} {x : EStateM ε σ α}

theorem pure (hR : Allows P R) (a : α) : Relates R view (Pure.pure a : EStateM ε σ α) := fun s => hR.refl (view s)

theorem throw (hR : Allows P R) (error : ε) : Relates R view (MonadExcept.throw error : EStateM ε σ α) :=
  fun s => hR.refl (view s)

theorem bind {f : α → EStateM ε σ β} (hR : Allows P R) (hx : Relates R view x) (hf : ∀ a, Relates R view (f a)) :
    Relates R view (x >>= f) :=
  Relates.bind hR.trans hx hf

end Rules

section Operations

variable {α : Type}

theorem push (hR : Allows P R) (v : Value) : Relates R id (push v) := by
  intro e
  rw [push_eq]
  split
  · exact hR.refl e
  · next hroom => exact hR.touches (.push v (Nat.lt_of_not_le hroom))

theorem popped (hR : Allows P R) : Relates R id popped :=
  fun _ => hR.touches (.restack (by rw [Array.size_pop]; exact Nat.sub_le _ _))

theorem peek (hR : Allows P R) : Relates R id peek := by
  intro e
  rw [peek_eq]
  split <;> exact hR.refl e

theorem ask (hR : Allows P R) (f : Heap → Except Fault α) : Relates R id (EngineM.ask f) := by
  intro e
  rw [ask_eq]
  split <;> exact hR.refl e

theorem write (hR : Allows P R) {f : Heap → Except Fault Heap} {v : Value} (hf : ∀ h, Speaks (h.Writes v) (f h)) :
    Relates R id (EngineM.change f) := by
  intro e
  rw [change_eq]
  have hwrites := hf e.heap
  cases hx : f e.heap with
  | ok heap =>
    rw [hx] at hwrites
    exact hR.touches (.write hwrites)
  | error fault => exact hR.refl e

theorem setProperty (hR : Allows P R) (target : Value) (name : String) (value : Value) :
    Relates R id (setProperty target name value) :=
  hR.write (v := value) fun h => h.setProperty_speaks target name value

theorem define (hR : Allows P R) (scope : Handle) (name : String) (value : Value) :
    Relates R id (EngineM.change (Environment.define · scope name value)) :=
  hR.write fun h => Environment.define_speaks h scope name value

theorem newObject (hR : Allows P R) {o : Object} (ho : (Cell.object o).ClosesOver P) :
    Relates R id (modifyGet (newObject o) : EngineM Value) :=
  fun _ => hR.touches (.alloc ho)

theorem environment (hR : Allows P R) (e : Engine) (outer : Option Handle) :
    R e { e with heap := (Environment.alloc e.heap none outer).2 } := by
  have hnames : e.Touches P { e with heap := (e.heap.alloc (.object (.of .plain))).2 } := .alloc trivial
  exact hR.trans (hR.touches hnames) (hR.touches (.alloc trivial))

theorem enterTrace (hR : Allows P R) (entry : TraceEntry) : Relates R id (enterTrace entry) := by
  intro e
  rw [enterTrace_eq]
  split
  · exact hR.refl e
  · next hroom => exact hR.touches (.enterTrace entry (Nat.lt_of_not_le hroom))

theorem enterProtected (hR : Allows P R) : Relates R id enterProtected := by
  intro e
  rw [enterProtected_eq]
  split
  · exact hR.refl e
  · next hroom => exact hR.touches (.enterProtected (Nat.lt_of_not_le hroom) rfl)

theorem leaveProtected (hR : Allows P R) (scope : ScopeId) : Relates R id (leaveProtected scope) := by
  intro e
  rw [leaveProtected_eq]
  cases hf : e.frames with
  | nil => exact hR.refl e
  | cons frame frames =>
    dsimp only
    split
    · exact hR.touches (.leaveProtected (hf ▸ List.suffix_cons frame frames))
    · exact hR.refl e

end Operations

end Allows

end Engine

end ScriptEngine
