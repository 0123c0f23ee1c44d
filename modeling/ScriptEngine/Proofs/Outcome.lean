import ScriptEngine.Engine

namespace ScriptEngine

theorem bind_eq_ok {ε α β : Type} {x : Except ε α} {f : α → Except ε β} {b : β} :
    x >>= f = .ok b ↔ ∃ a, x = .ok a ∧ f a = .ok b := by
  cases x with
  | error e =>
    constructor
    · intro h; cases h
    · rintro ⟨_, h, _⟩; cases h
  | ok a =>
    constructor
    · intro h; exact ⟨a, rfl, h⟩
    · rintro ⟨_, h, hb⟩; cases h; exact hb

theorem eq_ok_of_toOption {ε α : Type} {x : Except ε α} {a : α} (h : x.toOption = some a) : x = .ok a := by
  cases x with
  | error e => cases h
  | ok b => cases h; rfl

theorem pure_eq_ok {ε α : Type} {a b : α} : (pure a : Except ε α) = .ok b ↔ a = b := by
  constructor
  · intro h; cases h; rfl
  · rintro rfl; rfl

theorem throw_ne_ok {ε α : Type} {e : ε} {b : α} : (throw e : Except ε α) ≠ .ok b := by
  intro h; cases h

theorem bind_eq_error {ε α β : Type} {x : Except ε α} {f : α → Except ε β} {e : ε} :
    x >>= f = .error e ↔ x = .error e ∨ ∃ a, x = .ok a ∧ f a = .error e := by
  cases x with
  | error e' =>
    constructor
    · intro h; cases h; exact .inl rfl
    · rintro (h | ⟨_, h, _⟩) <;> cases h; rfl
  | ok a =>
    constructor
    · intro h; exact .inr ⟨a, rfl, h⟩
    · rintro (h | ⟨_, h, he⟩) <;> cases h; exact he

def stateOf {ε σ α : Type} : EStateM.Result ε σ α → σ
  | .ok _ s => s
  | .error _ s => s

def valueOf? {ε σ α : Type} : EStateM.Result ε σ α → Option (α × σ)
  | .ok a s => some (a, s)
  | .error _ _ => none

theorem eq_ok_of_valueOf? {ε σ α : Type} {r : EStateM.Result ε σ α} {a : α} {s : σ}
    (h : valueOf? r = some (a, s)) : r = .ok a s := by
  cases r with
  | ok b t => cases h; rfl
  | error e t => cases h

def failureOf? {ε σ α : Type} : EStateM.Result ε σ α → Option (ε × σ)
  | .ok _ _ => none
  | .error e s => some (e, s)

theorem eq_error_of_failureOf? {ε σ α : Type} {r : EStateM.Result ε σ α} {e : ε} {s : σ}
    (h : failureOf? r = some (e, s)) : r = .error e s := by
  cases r with
  | ok b t => cases h
  | error e' t => cases h; rfl

def answerOf {ε σ α : Type} : EStateM.Result ε σ α → Except ε α
  | .ok a _ => .ok a
  | .error e _ => .error e

section Bind

variable {ε σ α β : Type} {x : EStateM ε σ α} {f : α → EStateM ε σ β} {s t : σ}

theorem bind_of_ok {a : α} (h : x s = .ok a t) : (x >>= f) s = f a t := by
  show EStateM.bind x f s = _
  simp only [EStateM.bind, h]

theorem bind_of_error {e : ε} (h : x s = .error e t) : (x >>= f) s = .error e t := by
  show EStateM.bind x f s = _
  simp only [EStateM.bind, h]

theorem get_bind (k : σ → EStateM ε σ β) (s : σ) : (MonadState.get >>= k) s = k s s := rfl

end Bind

def Relates {ε σ τ α : Type} (R : τ → τ → Prop) (view : σ → τ) (x : EStateM ε σ α) : Prop :=
  ∀ s, R (view s) (view (stateOf (x s)))

namespace Relates

variable {ε σ τ α β : Type} {R : τ → τ → Prop} {view : σ → τ} {x : EStateM ε σ α} {s t : σ}

theorem returned {a : α} (hx : Relates R view x) (h : x s = .ok a t) : R (view s) (view t) := by
  have hs := hx s
  rwa [h] at hs

theorem failed {e : ε} (hx : Relates R view x) (h : x s = .error e t) : R (view s) (view t) := by
  have hs := hx s
  rwa [h] at hs

theorem bind {f : α → EStateM ε σ β} (ht : ∀ {a b c}, R a b → R b c → R a c) (hx : Relates R view x)
    (hf : ∀ a, Relates R view (f a)) : Relates R view (x >>= f) := by
  intro s
  cases hr : x s with
  | ok a t =>
    rw [bind_of_ok hr]
    exact ht (hx.returned hr) (hf a t)
  | error e t =>
    rw [bind_of_error hr]
    exact hx.failed hr

theorem get {f : σ → EStateM ε σ β} (hf : ∀ s, Relates R view (f s)) : Relates R view (MonadState.get >>= f) :=
  fun s => hf s s

end Relates

/-- From a state a computation comes to a value and a state in `Q`, or fails in `R`. -/
def Ensures {ε σ α : Type} (x : EStateM ε σ α) (Q : α → σ → Prop) (R : ε → σ → Prop) (s : σ) : Prop :=
  match x s with
  | .ok a t => Q a t
  | .error e t => R e t

namespace Ensures

section

variable {ε σ α β : Type} {x : EStateM ε σ α} {Q Q' : α → σ → Prop} {R R' : ε → σ → Prop} {s : σ}

theorem ok {a : α} {t : σ} (h : Ensures x Q R s) (hx : x s = .ok a t) : Q a t := by
  simpa [Ensures, hx] using h

theorem error {e : ε} {t : σ} (h : Ensures x Q R s) (hx : x s = .error e t) : R e t := by
  simpa [Ensures, hx] using h

theorem mono (h : Ensures x Q R s) (hQ : ∀ a t, Q a t → Q' a t) (hR : ∀ e t, R e t → R' e t) :
    Ensures x Q' R' s := by
  unfold Ensures at h ⊢
  split at h
  · exact hQ _ _ h
  · exact hR _ _ h

theorem of_ok {a : α} {t : σ} (hx : x s = .ok a t) (h : Q a t) : Ensures x Q R s := by
  simpa [Ensures, hx] using h

theorem of_error {e : ε} {t : σ} (hx : x s = .error e t) (h : R e t) : Ensures x Q R s := by
  simpa [Ensures, hx] using h

theorem state {P : σ → Prop} (h : Ensures x (fun _ => P) (fun _ => P) s) : P (stateOf (x s)) := by
  cases hx : x s with
  | ok a t => exact h.ok hx
  | error e t => exact h.error hx

theorem of_state {P : σ → Prop} (h : P (stateOf (x s))) : Ensures x (fun _ => P) (fun _ => P) s := by
  unfold Ensures
  split
  · rename_i hx
    rwa [hx] at h
  · rename_i hx
    rwa [hx] at h

theorem eq_ok {a : α} {t : σ} (h : Ensures x (fun b u => b = a ∧ u = t) (fun _ _ => False) s) : x s = .ok a t := by
  cases hx : x s with
  | ok b u =>
    obtain ⟨rfl, rfl⟩ := h.ok hx
    rfl
  | error e u => exact (h.error hx).elim

theorem pure {a : α} (h : Q a s) : Ensures (Pure.pure a) Q R s := h

theorem throw {e : ε} (h : R e s) : Ensures (MonadExcept.throw e) Q R s := h

theorem bind {f : α → EStateM ε σ β} {Q : β → σ → Prop}
    (h : Ensures x (fun a => Ensures (f a) Q R) R s) : Ensures (x >>= f) Q R s := by
  show Ensures (EStateM.bind x f) Q R s
  unfold Ensures at h ⊢
  unfold EStateM.bind
  split at h
  · rename_i hx
    simpa [hx] using h
  · rename_i hx
    simpa [hx] using h

theorem get {f : σ → EStateM ε σ β} {Q : β → σ → Prop} (h : Ensures (f s) Q R s) :
    Ensures (MonadState.get >>= f) Q R s := h

theorem modifyGet {f : σ → α × σ} (h : Q (f s).1 (f s).2) :
    Ensures (MonadStateOf.modifyGet f) Q R s := h

theorem set {t : σ} {Q : PUnit → σ → Prop} (h : Q ⟨⟩ t) : Ensures (MonadStateOf.set t) Q R s := h

theorem modified {f : σ → σ} {Q : PUnit → σ → Prop} (h : Q ⟨⟩ (f s)) :
    Ensures (modify f) Q R s := h

end

end Ensures

namespace Engine

def reset (e : Engine) (stack : List Value) (heap : Heap) : Engine :=
  { e with stack := stack.toArray, heap }

theorem reset_self (e : Engine) : e.reset e.stack.toList e.heap = e := rfl

end Engine

namespace Ensures

open Engine

variable {α : Type} {R : Error → Engine → Prop} {e : Engine} {l : List Value} {h : Heap} {v : Value}

theorem fault {f : Fault} {Q : α → Engine → Prop} (hR : R (.fault f) e) :
    Ensures (EngineM.fault f) Q R e := hR

theorem push {Q : PUnit → Engine → Prop} (hQ : Q ⟨⟩ (e.reset (l ++ [v]) h))
    (hR : R (.fault .stackOverflow) (e.reset l h)) : Ensures (Engine.push v) Q R (e.reset l h) := by
  refine get (get ?_)
  by_cases hs : (e.reset l h).limits.stackSize ≤ (e.reset l h).stack.size
  · rw [if_pos hs]
    exact bind (fault hR)
  · rw [if_neg hs]
    refine modified ?_
    simpa [reset] using hQ

theorem popped {Q : Value → Engine → Prop} (hQ : Q v (e.reset l h)) :
    Ensures Engine.popped Q R (e.reset (l ++ [v]) h) := by
  refine modifyGet ?_
  simpa [reset, pop] using hQ

theorem peek {Q : Value → Engine → Prop} (hQ : Q v (e.reset (l ++ [v]) h)) :
    Ensures Engine.peek Q R (e.reset (l ++ [v]) h) := by
  refine get ?_
  have hb : (e.reset (l ++ [v]) h).stack.back? = some v := by simp [reset]
  rw [hb]
  exact pure hQ

theorem ask {f : Heap → Except Fault α} {Q : α → Engine → Prop}
    (hQ : ∀ a, f h = .ok a → Q a (e.reset l h))
    (hR : ∀ fault, f h = .error fault → R (.fault fault) (e.reset l h)) :
    Ensures (EngineM.ask f) Q R (e.reset l h) := by
  refine get ?_
  have hh : (e.reset l h).heap = h := rfl
  cases hf : f h with
  | ok a =>
    simp only [hh, hf]
    exact pure (hQ a hf)
  | error e =>
    simp only [hh, hf]
    exact fault (hR e hf)

theorem change {f : Heap → Except Fault Heap} {Q : PUnit → Engine → Prop}
    (hQ : ∀ h', f h = .ok h' → Q ⟨⟩ (e.reset l h'))
    (hR : ∀ fault, f h = .error fault → R (.fault fault) (e.reset l h)) :
    Ensures (EngineM.change f) Q R (e.reset l h) := by
  refine get ?_
  have hh : (e.reset l h).heap = h := rfl
  cases hf : f h with
  | ok a =>
    simp only [hh, hf]
    exact modified (hQ a hf)
  | error e =>
    simp only [hh, hf]
    exact fault (hR e hf)

end Ensures

end ScriptEngine
