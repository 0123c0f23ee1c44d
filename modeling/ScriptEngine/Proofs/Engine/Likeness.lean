import ScriptEngine.Engine.Native
import ScriptEngine.Proofs.Heap.Likeness

/-!
Two instances that differ in the handles of their cells only. A computation comes to the same on
both: it fails on both or on neither, with like results, and leaves the two alike. Collections may
drop pairs of handles, but none that the instances still hold.
-/

namespace ScriptEngine

inductive Both {ε σ α β : Type} (Q : α → σ → β → σ → Prop) (R : ε → σ → ε → σ → Prop) :
    EStateM.Result ε σ α → EStateM.Result ε σ β → Prop
  | ok {a : α} {s : σ} {b : β} {t : σ} : Q a s b t → Both Q R (.ok a s) (.ok b t)
  | error {x : ε} {s : σ} {y : ε} {t : σ} : R x s y t → Both Q R (.error x s) (.error y t)

namespace Both

variable {ε σ α β γ δ : Type} {Q Q' : α → σ → β → σ → Prop} {R R' : ε → σ → ε → σ → Prop}
  {r : EStateM.Result ε σ α} {r' : EStateM.Result ε σ β} {s t : σ}

theorem mono (h : Both Q R r r') (hQ : ∀ a s b t, Q a s b t → Q' a s b t) (hR : ∀ x s y t, R x s y t → R' x s y t) :
    Both Q' R' r r' := by
  cases h with
  | ok h => exact .ok (hQ _ _ _ _ h)
  | error h => exact .error (hR _ _ _ _ h)

theorem bind {x : EStateM ε σ α} {y : EStateM ε σ β} {f : α → EStateM ε σ γ} {g : β → EStateM ε σ δ}
    {P : γ → σ → δ → σ → Prop} (h : Both Q R (x s) (y t)) (hf : ∀ a s b t, Q a s b t → Both P R' (f a s) (g b t))
    (hR : ∀ x s y t, R x s y t → R' x s y t) : Both P R' ((x >>= f) s) ((y >>= g) t) := by
  show Both P R' (EStateM.bind x f s) (EStateM.bind y g t)
  unfold EStateM.bind
  generalize x s = r at h
  generalize y t = r' at h
  cases h with
  | ok h => exact hf _ _ _ _ h
  | error h => exact .error (hR _ _ _ _ h)

theorem get {f : σ → EStateM ε σ α} {g : σ → EStateM ε σ β} (h : Both Q R (f s s) (g t t)) :
    Both Q R ((MonadState.get >>= f) s) ((MonadState.get >>= g) t) := h

theorem set {f : PUnit → EStateM ε σ α} {g : PUnit → EStateM ε σ β} {s' t' : σ} (h : Both Q R (f ⟨⟩ s') (g ⟨⟩ t')) :
    Both Q R ((MonadStateOf.set s' >>= f) s) ((MonadStateOf.set t' >>= g) t) := h

theorem modified {f : PUnit → EStateM ε σ α} {g : PUnit → EStateM ε σ β} {u v : σ → σ}
    (h : Both Q R (f ⟨⟩ (u s)) (g ⟨⟩ (v t))) : Both Q R ((modify u >>= f) s) ((modify v >>= g) t) := h

end Both

def Error.outline : Error → Error
  | .thrown _ text => .thrown .undefined text
  | .rethrown _ inner => .rethrown .undefined inner.outline
  | .uncaught inner => .uncaught inner.outline
  | e => e

def Error.isStale (e : Error) : Bool :=
  match e.root with
  | .fault f => f.isStale
  | _ => false

/-- Errors that differ in their values only. What an error was before it was rethrown does not
matter any more, apart from its texts. -/
structure Error.Alike (ρ : Renaming) (x y : Error) : Prop where
  outline : x.outline = y.outline
  value : Option.Rel (Value.Alike ρ) x.carried? y.carried?
  live : x.isStale = false

structure ProtectedFrame.Alike (ρ : Renaming) (f f' : ProtectedFrame) : Prop where
  rest : { f with env := f'.env } = f'
  env : ρ.scope f.env f'.env

theorem ProtectedFrame.Alike.mono {ρ ρ' : Renaming} {f f' : ProtectedFrame} (h : f.Alike ρ f') (hρ : ρ.Extends ρ') :
    f.Alike ρ' f' :=
  ⟨h.rest, hρ.scope h.env⟩

structure Engine.Akin (ρ : Renaming) (e e' : Engine) : Prop where
  strict : e.strict = e'.strict
  limits : e.limits = e'.limits
  trace : e.trace = e'.trace
  nextSerial : e.nextSerial = e'.nextSerial
  nextRef : e.nextRef = e'.nextRef
  loops : e.loops = e'.loops
  ledger : e.ledger = e'.ledger
  output : e.output = e'.output
  diagnostics : e.diagnostics = e'.diagnostics
  stack : List.Forall₂ (Value.Alike ρ) e.stack.toList e'.stack.toList
  frames : List.Forall₂ (ProtectedFrame.Alike ρ) e.frames e'.frames
  registry : ρ.object e.registry e'.registry
  global : ρ.object e.global e'.global
  globalEnv : ρ.scope e.globalEnv e'.globalEnv
  env : ρ.scope e.env e'.env
  scopes : List.Forall₂ ρ.scope e.scopes.toList e'.scopes.toList

structure Engine.Alike (k : Nat) (ρ : Renaming) (e e' : Engine) : Prop where
  akin : e.Akin ρ e'
  heap : e.heap.Alike k ρ e'.heap

inductive NativeResult.Alike (ρ : Renaming) : NativeResult → NativeResult → Prop
  | value {v v' : Value} : v.Alike ρ v' → Alike ρ (.value v) (.value v')
  | run {v v' : Value} : v.Alike ρ v' → Alike ρ (.run v) (.run v')

section Lists

variable {α β : Type} {R : α → β → Prop} {l : List α} {l' : List β}

theorem forall₂_concat {a : α} {b : β} (h : List.Forall₂ R l l') (hab : R a b) :
    List.Forall₂ R (l ++ [a]) (l' ++ [b]) :=
  List.rel_append h (.cons hab .nil)

theorem forall₂_dropLast (h : List.Forall₂ R l l') : List.Forall₂ R l.dropLast l'.dropLast := by
  rw [List.dropLast_eq_take, List.dropLast_eq_take, h.length_eq]
  exact List.forall₂_take _ h

theorem forall₂_getElem? (h : List.Forall₂ R l l') (i : Nat) : Option.Rel R l[i]? l'[i]? := by
  induction h generalizing i with
  | nil => exact .none
  | cons hab _ ih =>
    cases i with
    | zero => exact .some hab
    | succ i => exact ih i

theorem forall₂_getLast? (h : List.Forall₂ R l l') : Option.Rel R l.getLast? l'.getLast? := by
  rw [List.getLast?_eq_getElem?, List.getLast?_eq_getElem?, h.length_eq]
  exact forall₂_getElem? h _

theorem forall₂_set {a : α} {b : β} (h : List.Forall₂ R l l') (hab : R a b) (i : Nat) :
    List.Forall₂ R (l.set i a) (l'.set i b) := by
  induction h generalizing i with
  | nil => exact .nil
  | cons hcd hl ih =>
    cases i with
    | zero => exact .cons hab hl
    | succ i => exact .cons hcd (ih i)

theorem rel_getD {x : Option α} {y : Option β} {a : α} {b : β} (h : Option.Rel R x y) (hab : R a b) :
    R (x.getD a) (y.getD b) := by
  cases h with
  | some h => exact h
  | none => exact hab

end Lists

namespace Error

variable {ρ ρ' : Renaming} {x y : Error} {v v' : Value}

theorem description?_outline (x : Error) : x.outline.description? = x.description? := by
  induction x with
  | rethrown v inner ih => exact ih
  | uncaught inner ih => exact ih
  | reading | parsing | compiling | fault | thrown | unbalancedScope => rfl

theorem outline_carrying (v : Value) (x : Error) : (x.carrying v).outline = x.outline.carrying .undefined := by
  cases x <;> rfl

theorem isStale_carrying (v : Value) (x : Error) : (x.carrying v).isStale = x.isStale := by
  rw [isStale, root_carrying, isStale]

namespace Alike

theorem mono (h : x.Alike ρ y) (hρ : ρ.Extends ρ') : x.Alike ρ' y :=
  ⟨h.outline, rel_imp h.value fun _ _ hv => hv.mono hρ, h.live⟩

theorem description? (h : x.Alike ρ y) : x.description? = y.description? := by
  rw [← description?_outline x, h.outline, description?_outline]

theorem carrying (h : x.Alike ρ y) (hv : v.Alike ρ v') : (x.carrying v).Alike ρ (y.carrying v') := by
  refine ⟨?_, ?_, by rw [isStale_carrying, h.live]⟩
  · rw [outline_carrying, h.outline, outline_carrying]
  · rw [carried?_carrying, carried?_carrying]
    exact .some hv

theorem fault {f : Fault} (hf : f.isStale = false) : (Error.fault f).Alike ρ (.fault f) :=
  ⟨rfl, .none, hf⟩

theorem unbalanced : Error.unbalancedScope.Alike ρ .unbalancedScope :=
  ⟨rfl, .none, rfl⟩

theorem thrown (hv : v.Alike ρ v') (text : String) : (Error.thrown v text).Alike ρ (.thrown v' text) :=
  ⟨rfl, .some hv, rfl⟩

theorem rethrown (h : x.Alike ρ y) (hv : v.Alike ρ v') : (Error.rethrown v x).Alike ρ (.rethrown v' y) :=
  ⟨congrArg (Error.rethrown .undefined) h.outline, .some hv, h.live⟩

end Alike

end Error

namespace Engine

variable {k : Nat} {ρ ρ' : Renaming} {e e' : Engine} {v v' : Value} {x y : Error}

namespace Akin

theorem mono (h : e.Akin ρ e') (hρ : ρ.Extends ρ') : e.Akin ρ' e' :=
  { h with
    stack := h.stack.imp fun _ _ hv => hv.mono hρ
    frames := h.frames.imp fun _ _ hf => hf.mono hρ
    registry := hρ.object h.registry
    global := hρ.object h.global
    globalEnv := hρ.scope h.globalEnv
    env := hρ.scope h.env
    scopes := h.scopes.imp fun _ _ => hρ.scope }

theorem symm (h : e.Akin ρ e') : e'.Akin ρ.flip e where
  strict := h.strict.symm
  limits := h.limits.symm
  trace := h.trace.symm
  nextSerial := h.nextSerial.symm
  nextRef := h.nextRef.symm
  loops := h.loops.symm
  ledger := h.ledger.symm
  output := h.output.symm
  diagnostics := h.diagnostics.symm
  stack := (h.stack.imp fun _ _ hv => hv.symm).flip
  frames := by
    refine (h.frames.imp fun f f' hf => ?_).flip
    refine ⟨?_, hf.env⟩
    rw [← hf.rest]
  registry := h.registry
  global := h.global
  globalEnv := h.globalEnv
  env := h.env
  scopes := h.scopes.flip

theorem stack_size (h : e.Akin ρ e') : e.stack.size = e'.stack.size := by
  simpa using h.stack.length_eq

theorem scopes_size (h : e.Akin ρ e') : e.scopes.size = e'.scopes.size := by
  simpa using h.scopes.length_eq

theorem slot (h : e.Akin ρ e') (i : Nat) : Option.Rel (Value.Alike ρ) e.stack[i]? e'.stack[i]? := by
  simpa using forall₂_getElem? h.stack i

theorem top (h : e.Akin ρ e') : Option.Rel (Value.Alike ρ) e.stack.back? e'.stack.back? := by
  simpa using forall₂_getLast? h.stack

theorem restrict (h : e.Akin ρ e') : e.Akin (ρ.restrict (e'.heap.Reaches e'.roots)) e' := by
  have hroot {a : Handle} (ha : a ∈ e'.roots) : e'.heap.Reaches e'.roots a := .root ha
  have hvalue (v v' : Value) (hmem : v' ∈ e'.stack.toList) (hv : v.Alike ρ v') :
      v.Alike (ρ.restrict (e'.heap.Reaches e'.roots)) v' := by
    cases hv with
    | plain hv => exact .plain hv
    | object ha => exact .object ⟨ha, hroot (by simp only [roots, List.mem_append, List.mem_filterMap]; exact .inr ⟨_, hmem, rfl⟩)⟩
  exact
    { h with
      stack := Heap.Mirrors.forall₂_of_mem h.stack hvalue
      frames := Heap.Mirrors.forall₂_of_mem h.frames fun f f' hmem hf =>
        ⟨hf.rest, hf.env, hroot (by simp only [roots, List.mem_append, List.mem_map]; exact .inl (.inr ⟨_, hmem, rfl⟩))⟩
      registry := ⟨h.registry, hroot (by simp [roots])⟩
      global := ⟨h.global, hroot (by simp [roots])⟩
      globalEnv := ⟨h.globalEnv, hroot (by simp [roots])⟩
      env := ⟨h.env, hroot (by simp [roots])⟩
      scopes := Heap.Mirrors.forall₂_of_mem h.scopes fun a a' hmem ha =>
        ⟨ha, hroot (by simp only [roots, List.mem_append]; exact .inl (.inl (.inr hmem)))⟩ }

end Akin

namespace Alike

theorem less (h : e.Alike (k + 1) ρ e') : e.Alike k ρ e' := by
  obtain ⟨n, n', hle, hd, hd', hn⟩ := h.heap.numbers
  exact ⟨h.akin, h.heap.born, h.heap.tidy, ⟨n, n', hle, hd, hd', by omega⟩, h.heap.graph⟩

theorem withStack {l l' : Array Value} (h : e.Alike k ρ e') (hl : List.Forall₂ (Value.Alike ρ) l.toList l'.toList) :
    Alike k ρ { e with stack := l } { e' with stack := l' } :=
  ⟨{ h.akin with stack := hl }, h.heap⟩

theorem withHeap {heap heap' : Heap} (h : e.Alike k ρ e') (hρ : ρ.Extends ρ') (hh : heap.Alike k ρ' heap') :
    Alike k ρ' { e with heap } { e' with heap := heap' } :=
  ⟨{ h.akin.mono hρ with }, hh⟩

theorem display (h : e.Alike k ρ e') (hv : v.Alike ρ v') : e.display v = e'.display v' :=
  h.heap.display hv

end Alike

abbrev Same {α β : Type} (k : Nat) (ρ : Renaming) (V : α → β → Prop) :
    EStateM.Result Error Engine α → EStateM.Result Error Engine β → Prop :=
  Both (fun a e b e' => e.Alike k ρ e' ∧ V a b) (fun x e y e' => e.Alike k ρ e' ∧ x.Alike ρ y)

abbrev Like {α β : Type} (k : Nat) (V : Renaming → α → β → Prop) :
    EStateM.Result Error Engine α → EStateM.Result Error Engine β → Prop :=
  Both (fun a e b e' => ∃ ρ, e.Alike k ρ e' ∧ V ρ a b) (fun x e y e' => ∃ ρ, e.Alike k ρ e' ∧ x.Alike ρ y)

section Rules

variable {α β γ δ : Type} {V : α → β → Prop} {W : Renaming → γ → δ → Prop}

theorem Same.bind {f : EngineM α} {g : EngineM β} {f₁ : α → EngineM γ} {g₁ : β → EngineM δ}
    (h : Same k ρ V (f e) (g e'))
    (hf : ∀ a b e e', e.Alike k ρ e' → V a b → Like k W (f₁ a e) (g₁ b e')) : Like k W ((f >>= f₁) e) ((g >>= g₁) e') :=
  Both.bind h (fun _ _ _ _ hQ => hf _ _ _ _ hQ.1 hQ.2) fun _ _ _ _ hR => ⟨ρ, hR⟩

theorem Same.like {W : Renaming → α → β → Prop} {r : EStateM.Result Error Engine α} {r' : EStateM.Result Error Engine β}
    (h : Same k ρ V r r') (hW : ∀ a b, V a b → W ρ a b) : Like k W r r' :=
  Both.mono h (fun _ _ _ _ hQ => ⟨ρ, hQ.1, hW _ _ hQ.2⟩) fun _ _ _ _ hR => ⟨ρ, hR⟩

end Rules

section Equations

variable {α : Type}

theorem push_eq (v : Value) (e : Engine) : push v e =
    if e.limits.stackSize ≤ e.stack.size then .error (.fault .stackOverflow) e
    else .ok ⟨⟩ { e with stack := e.stack.push v } := by
  show (if _ then _ else _ : EngineM Unit) e = _
  split <;> rfl

theorem peek_eq (e : Engine) : peek e =
    match e.stack.back? with
    | some value => .ok value e
    | none => .error (.fault .stackUnderflow) e := by
  show (match e.stack.back? with | some value => _ | none => _ : EngineM Value) e = _
  cases e.stack.back? <;> rfl

theorem ask_eq (f : Heap → Except Fault α) (e : Engine) : EngineM.ask f e =
    match f e.heap with
    | .ok a => .ok a e
    | .error fault => .error (.fault fault) e := by
  show (match f e.heap with | .ok a => _ | .error fault => _ : EngineM α) e = _
  cases f e.heap <;> rfl

theorem change_eq (f : Heap → Except Fault Heap) (e : Engine) : EngineM.change f e =
    match f e.heap with
    | .ok heap => .ok ⟨⟩ { e with heap }
    | .error fault => .error (.fault fault) e := by
  show (match f e.heap with | .ok a => _ | .error fault => _ : EngineM Unit) e = _
  cases f e.heap <;> rfl

theorem enterTrace_eq (entry : TraceEntry) (e : Engine) : enterTrace entry e =
    if e.limits.traceLimit ≤ e.trace.size then .error (.fault .callStackOverflow) e
    else .ok ⟨⟩ { e with trace := e.trace.push entry } := by
  show (if _ then _ else _ : EngineM Unit) e = _
  split <;> rfl

theorem enterProtected_eq (e : Engine) : enterProtected e =
    if e.limits.tryLimit ≤ e.frames.length then .error (.fault .exceptionStackOverflow) e
    else .ok ⟨e.frames.length, e.nextSerial⟩
      { e with
        frames := ⟨⟨e.frames.length, e.nextSerial⟩, e.stack.size, e.trace.size, e.scopes.size, e.env, e.heap.born⟩ ::
          e.frames
        nextSerial := e.nextSerial + 1 } := by
  show (if _ then _ else _ : EngineM ScopeId) e = _
  split <;> rfl

theorem leaveProtected_eq (id : ScopeId) (e : Engine) : leaveProtected id e =
    match e.frames with
    | frame :: frames => if frame.id = id then .ok ⟨⟩ { e with frames } else .error .unbalancedScope e
    | [] => .error .unbalancedScope e := by
  show (match e.frames with | frame :: frames => _ | [] => _ : EngineM Unit) e = _
  cases e.frames with
  | nil => rfl
  | cons frame frames =>
    show (if _ then _ else _ : EngineM Unit) e = ite _ _ _
    split <;> rfl

end Equations

namespace Alike

section Operations

variable {α β : Type} {V : α → β → Prop}

theorem push (he : e.Alike k ρ e') (hv : v.Alike ρ v') : Same k ρ (fun _ _ => True) (push v e) (push v' e') := by
  have hfull : (e'.limits.stackSize ≤ e'.stack.size) = (e.limits.stackSize ≤ e.stack.size) := by
    rw [he.akin.limits, he.akin.stack_size]
  simp only [push_eq, hfull]
  split
  · exact .error ⟨he, .fault rfl⟩
  · exact .ok ⟨he.withStack (by simpa using forall₂_concat he.akin.stack hv), trivial⟩

theorem pushThrown (he : e.Alike k ρ e') (hv : v.Alike ρ v') : (e.pushThrown v).Alike k ρ (e'.pushThrown v') :=
  he.withStack (by simpa using forall₂_concat he.akin.stack hv)

theorem pop (he : e.Alike k ρ e') : e.pop.2.Alike k ρ e'.pop.2 ∧ e.pop.1.Alike ρ e'.pop.1 :=
  ⟨he.withStack (by simpa using forall₂_dropLast he.akin.stack), rel_getD he.akin.top (.plain rfl)⟩

theorem popped (he : e.Alike k ρ e') : Same k ρ (Value.Alike ρ) (popped e) (popped e') :=
  .ok he.pop

theorem peek (he : e.Alike k ρ e') : Same k ρ (Value.Alike ρ) (peek e) (peek e') := by
  have ht := he.akin.top
  rw [peek_eq, peek_eq]
  generalize e.stack.back? = top at ht ⊢
  generalize e'.stack.back? = top' at ht ⊢
  cases ht with
  | some hv => exact .ok ⟨he, hv⟩
  | none => exact .error ⟨he, .fault rfl⟩

theorem cutStack (he : e.Alike k ρ e') (depth : Nat) : (e.cutStack depth).Alike k ρ (e'.cutStack depth) :=
  he.withStack (by simpa using List.forall₂_take depth he.akin.stack)

theorem ask {f : Heap → Except Fault α} {g : Heap → Except Fault β} (he : e.Alike k ρ e')
    (h : Agree V (f e.heap) (g e'.heap)) : Same k ρ V (EngineM.ask f e) (EngineM.ask g e') := by
  rw [ask_eq, ask_eq]
  generalize f e.heap = r at h ⊢
  generalize g e'.heap = r' at h ⊢
  cases h with
  | ok hv => exact .ok ⟨he, hv⟩
  | error hf => exact .error ⟨he, .fault hf⟩

theorem change {f g : Heap → Except Fault Heap} (he : e.Alike k ρ e')
    (h : Agree (Heap.Alike k ρ) (f e.heap) (g e'.heap)) :
    Same k ρ (fun _ _ => True) (EngineM.change f e) (EngineM.change g e') := by
  rw [change_eq, change_eq]
  generalize f e.heap = r at h ⊢
  generalize g e'.heap = r' at h ⊢
  cases h with
  | ok hh => exact .ok ⟨he.withHeap (.refl ρ) hh, trivial⟩
  | error hf => exact .error ⟨he, .fault hf⟩

theorem withTrace (he : e.Alike k ρ e') (f : Array TraceEntry → Array TraceEntry) :
    Alike k ρ { e with trace := f e.trace } { e' with trace := f e'.trace } :=
  ⟨{ he.akin with trace := congrArg f he.akin.trace }, he.heap⟩

theorem withLoops (he : e.Alike k ρ e') (f : Nat → Nat) :
    Alike k ρ { e with loops := f e.loops } { e' with loops := f e'.loops } :=
  ⟨{ he.akin with loops := congrArg f he.akin.loops }, he.heap⟩

theorem enterTrace (he : e.Alike k ρ e') (entry : TraceEntry) :
    Same k ρ (fun _ _ => True) (enterTrace entry e) (enterTrace entry e') := by
  have hfull : (e'.limits.traceLimit ≤ e'.trace.size) = (e.limits.traceLimit ≤ e.trace.size) := by
    rw [he.akin.limits, he.akin.trace]
  simp only [enterTrace_eq, hfull]
  split
  · exact .error ⟨he, .fault rfl⟩
  · exact .ok ⟨he.withTrace (·.push entry), trivial⟩

theorem enterScope {env env' : Handle} (he : e.Alike k ρ e') (hs : ρ.scope env env') :
    (e.enterScope env).Alike k ρ (e'.enterScope env') :=
  ⟨{ he.akin with env := hs, scopes := by simpa [Engine.enterScope] using forall₂_concat he.akin.scopes he.akin.env },
    he.heap⟩

theorem leaveScope (he : e.Alike k ρ e') : e.leaveScope.Alike k ρ e'.leaveScope := by
  have hb : Option.Rel ρ.scope e.scopes.back? e'.scopes.back? := by
    simpa using forall₂_getLast? he.akin.scopes
  have hpop : List.Forall₂ ρ.scope e.scopes.pop.toList e'.scopes.pop.toList := by
    simpa using forall₂_dropLast he.akin.scopes
  simp only [Engine.leaveScope]
  generalize e.scopes.back? = top at hb ⊢
  generalize e'.scopes.back? = top' at hb ⊢
  cases hb with
  | some hs => exact ⟨{ he.akin with env := hs, scopes := hpop }, he.heap⟩
  | none => exact he

theorem cutScopes (he : e.Alike k ρ e') (depth : Nat) : (e.cutScopes depth).Alike k ρ (e'.cutScopes depth) := by
  have hs : Option.Rel ρ.scope e.scopes[depth]? e'.scopes[depth]? := by
    simpa using forall₂_getElem? he.akin.scopes depth
  refine ⟨{ he.akin with env := rel_getD hs he.akin.env, scopes := ?_ }, he.heap⟩
  simpa [Engine.cutScopes] using List.forall₂_take depth he.akin.scopes

end Operations

section Making

theorem newObject {o o' : Object} (he : e.Alike k ρ e') (ho : o.Alike ρ o') :
    ∃ ρ', ρ.Extends ρ' ∧ (e.newObject o).2.Alike k ρ' (e'.newObject o').2 ∧
      (e.newObject o).1.Alike ρ' (e'.newObject o').1 := by
  obtain ⟨ρ', hρ, hh, ha⟩ := he.heap.allocObject ho
  exact ⟨ρ', hρ, he.withHeap hρ hh, .object ha⟩

theorem newError (he : e.Alike k ρ e') (name : ErrorName) (message : String) :
    ∃ ρ', ρ.Extends ρ' ∧ (e.newError name message).2.Alike k ρ' (e'.newError name message).2 ∧
      (e.newError name message).1.Alike ρ' (e'.newError name message).1 := by
  have htrace : e.stackTrace = e'.stackTrace := by rw [stackTrace, he.akin.trace, stackTrace]
  refine he.newObject ⟨.error, ⟨rfl, rfl⟩, ?_⟩
  rw [htrace]
  exact .cons ⟨rfl, .plain rfl⟩ (.cons ⟨rfl, .plain rfl⟩ (.cons ⟨rfl, .plain rfl⟩ .nil))

theorem closureOf {env env' : Handle} (he : e.Alike k ρ e') (hs : ρ.scope env env') (unit : CodeUnit) :
    ∃ ρ', ρ.Extends ρ' ∧ (e.closureOf unit env).2.Alike k ρ' (e'.closureOf unit env').2 ∧
      (e.closureOf unit env).1.Alike ρ' (e'.closureOf unit env').1 :=
  he.newObject ⟨.closure unit hs, ⟨rfl, rfl⟩, .nil⟩

theorem exceptionValue (he : e.Alike k ρ e') (hx : x.Alike ρ y) :
    ∃ ρ', ρ.Extends ρ' ∧ (e.exceptionValue x).2.Alike k ρ' (e'.exceptionValue y).2 ∧
      (e.exceptionValue x).1.Alike ρ' (e'.exceptionValue y).1 := by
  have hv := hx.value
  simp only [Engine.exceptionValue, hx.description?]
  generalize x.carried? = value at hv ⊢
  generalize y.carried? = value' at hv ⊢
  cases hv with
  | some hv => exact ⟨ρ, .refl ρ, he, hv⟩
  | none =>
    cases y.description? with
    | none => exact ⟨ρ, .refl ρ, he, .plain rfl⟩
    | some d => exact he.newError d.1 d.2

end Making

section Collecting

theorem collectMore (he : e.Alike (k + 1) ρ e') (mark : Nat) : ∃ ρ', e.Alike k ρ' (e'.collectSince mark) :=
  ⟨_, { he.akin.restrict with }, he.heap.collectedMore (he.heap.graph.collectSince he.heap.unnumbered.2)⟩

theorem collect (he : e.Alike (k + 1) ρ e') (mark mark' : Nat) :
    ∃ ρ', (e.collectSince mark).Alike k ρ' (e'.collectSince mark') := by
  have hg : e.heap.Mirrors _ (e'.heap.collectSince mark' e'.roots).2 :=
    he.heap.graph.collectSince he.heap.unnumbered.2
  have hg' : Heap.Mirrors _ _ (e.heap.collectSince mark e.roots).2 := hg.symm.collectSince he.heap.unnumbered.1
  have ha : e'.Akin _ e := he.akin.restrict.symm.restrict
  exact ⟨_, { ha.symm with }, he.heap.collected hg'.symm⟩

end Collecting

section Scopes

theorem enterProtected (he : e.Alike k ρ e') : Same k ρ Eq (enterProtected e) (enterProtected e') := by
  have hlength := he.akin.frames.length_eq
  have hfull : (e'.limits.tryLimit ≤ e'.frames.length) = (e.limits.tryLimit ≤ e.frames.length) := by
    rw [he.akin.limits, hlength]
  simp only [enterProtected_eq, hfull]
  split
  · exact .error ⟨he, .fault rfl⟩
  · refine .ok ⟨⟨{ he.akin with frames := .cons ⟨?_, he.akin.env⟩ he.akin.frames, nextSerial := ?_ }, he.heap⟩, ?_⟩
    · rw [he.akin.nextSerial]
    · simp only [hlength, he.akin.nextSerial, he.akin.stack_size, he.akin.trace, he.akin.scopes_size, he.heap.born]
    · rw [hlength, he.akin.nextSerial]

theorem leaveProtected (he : e.Alike k ρ e') (id : ScopeId) :
    Same k ρ (fun _ _ => True) (leaveProtected id e) (leaveProtected id e') := by
  have hf := he.akin.frames
  simp only [leaveProtected_eq]
  generalize e.frames = frames at hf ⊢
  generalize e'.frames = frames' at hf ⊢
  cases hf with
  | nil => exact .error ⟨he, .unbalanced⟩
  | @cons f f' frames frames' hff hfs =>
    have hid : f'.id = f.id := by rw [← hff.rest]
    simp only [hid]
    split
    · exact .ok ⟨⟨{ he.akin with frames := hfs }, he.heap⟩, trivial⟩
    · exact .error ⟨he, .unbalanced⟩

theorem findFrame {frames frames' : List ProtectedFrame} (h : List.Forall₂ (ProtectedFrame.Alike ρ) frames frames')
    (id : ScopeId) :
    Option.Rel (fun p q => p.1.Alike ρ q.1 ∧ List.Forall₂ (ProtectedFrame.Alike ρ) p.2 q.2) (findFrame id frames)
      (findFrame id frames') := by
  induction h with
  | nil => exact .none
  | @cons f f' frames frames' hff hfs ih =>
    have hid : f'.id = f.id := by rw [← hff.rest]
    simp only [Engine.findFrame, hid]
    split
    · exact .some ⟨hff, hfs⟩
    · exact ih

theorem restore {frame frame' : ProtectedFrame} (he : e.Alike k ρ e') (hf : frame.Alike ρ frame') (hv : v.Alike ρ v') :
    (e.restore frame v).Alike k ρ (e'.restore frame' v') := by
  have hs : List.Forall₂ (Value.Alike ρ) ((e.stack.shrink frame.stackDepth).push v).toList
      ((e'.stack.shrink frame.stackDepth).push v').toList := by
    simpa using forall₂_concat (List.forall₂_take frame.stackDepth he.akin.stack) hv
  have hscopes : List.Forall₂ ρ.scope (e.scopes.shrink frame.scopeDepth).toList
      (e'.scopes.shrink frame.scopeDepth).toList := by
    simpa using List.forall₂_take frame.scopeDepth he.akin.scopes
  rw [← hf.rest]
  exact ⟨{ he.akin with
    stack := hs, scopes := hscopes, env := hf.env, trace := by simp only [Engine.restore, he.akin.trace] }, he.heap⟩

theorem unwind (he : e.Alike (k + 1) ρ e') (hx : x.Alike ρ y) (id : ScopeId) :
    ∃ ρ', (e.unwind id x).2.Alike k ρ' (e'.unwind id y).2 ∧ (e.unwind id x).1.Alike ρ' (e'.unwind id y).1 := by
  have hf := findFrame he.akin.frames id
  simp only [Engine.unwind]
  generalize Engine.findFrame id e.frames = found at hf ⊢
  generalize Engine.findFrame id e'.frames = found' at hf ⊢
  cases hf with
  | none =>
    obtain ⟨ρ', -, he', hv⟩ := he.exceptionValue Error.Alike.unbalanced
    exact ⟨ρ', (he'.pushThrown hv).less, .unbalanced⟩
  | @some p q hpq =>
    obtain ⟨frame, frames⟩ := p
    obtain ⟨frame', frames'⟩ := q
    obtain ⟨hff, hfs⟩ := hpq
    have he₁ : Alike (k + 1) ρ { e with frames } { e' with frames := frames' } :=
      ⟨{ he.akin with frames := hfs }, he.heap⟩
    obtain ⟨ρ₁, hρ₁, he₂, hv⟩ := he₁.exceptionValue hx
    have he₃ := he₂.restore (hff.mono hρ₁) hv
    obtain ⟨ρ₂, he₄⟩ := he₃.collect frame.heapMark frame'.heapMark
    refine ⟨ρ₂, he₄, hx.outline, ?_, hx.live⟩
    have htop := he₄.akin.top
    have hvalue := hx.value
    simp only [Engine.restore, Engine.collectSince, Array.back?_push, Engine.exceptionValue] at htop
    generalize x.carried? = value at hvalue htop ⊢
    generalize y.carried? = value' at hvalue htop ⊢
    cases hvalue with
    | some => exact htop
    | none => exact .none

end Scopes

end Alike

section Protection

variable {α β : Type} {V : Renaming → α → β → Prop} {r : EStateM.Result Error Engine α}
  {r' : EStateM.Result Error Engine β}

theorem Alike.beginProtected (he : e.Alike k ρ e') : Like k (fun _ => Eq) (beginProtected e) (beginProtected e') := by
  have hen := he.enterProtected
  simp only [Engine.beginProtected]
  generalize Engine.enterProtected e = r at hen ⊢
  generalize Engine.enterProtected e' = r' at hen ⊢
  cases hen with
  | ok h => exact .ok ⟨ρ, h⟩
  | error h =>
    obtain ⟨he₁, hx⟩ := h
    obtain ⟨ρ', hρ, he₂, hv⟩ := he₁.exceptionValue hx
    exact .error ⟨ρ', he₂.pushThrown hv, hx.mono hρ⟩

theorem Like.endProtected (h : Like (k + 1) V r r') (id : ScopeId) :
    Like k V (endProtected id r) (endProtected id r') := by
  cases h with
  | @ok a e b e' h =>
    obtain ⟨ρ, he, hV⟩ := h
    have hl := he.leaveProtected id
    simp only [Engine.endProtected]
    generalize leaveProtected id e = r at hl ⊢
    generalize leaveProtected id e' = r' at hl ⊢
    cases hl with
    | ok hl => exact .ok ⟨ρ, hl.1.less, hV⟩
    | error hl => exact .error (hl.1.unwind hl.2 id)
  | error h =>
    obtain ⟨ρ, he, hx⟩ := h
    exact .error (he.unwind hx id)

theorem Alike.carry (he : e.Alike k ρ e') (hx : x.Alike ρ y) :
    (e.carry x).2.Alike k ρ (e'.carry y).2 ∧ (e.carry x).1.Alike ρ (e'.carry y).1 := by
  have ht := he.akin.top
  have hpop := he.pop.1
  simp only [Engine.carry]
  generalize e.stack.back? = top at ht ⊢
  generalize e'.stack.back? = top' at ht ⊢
  cases ht with
  | some hv => exact ⟨hpop, hx.carrying hv⟩
  | none => exact ⟨he, hx⟩

theorem Like.carried (h : Like k V r r') : Like k V (carried r) (carried r') := by
  cases h with
  | ok h => exact .ok h
  | error h =>
    obtain ⟨ρ, he, hx⟩ := h
    exact .error ⟨ρ, he.carry hx⟩

theorem Alike.protect {f : EngineM α} {g : EngineM β}
    (hf : ∀ ρ e e', e.Alike (k + 1) ρ e' → Like (k + 1) V (f e) (g e')) (he : e.Alike (k + 1) ρ e') :
    Like k V (protect f e) (protect g e') := by
  have hb := he.beginProtected
  simp only [Engine.protect]
  generalize Engine.beginProtected e = r at hb ⊢
  generalize Engine.beginProtected e' = r' at hb ⊢
  cases hb with
  | ok h =>
    obtain ⟨ρ₁, he₁, rfl⟩ := h
    exact (hf ρ₁ _ _ he₁).endProtected _
  | error h =>
    obtain ⟨ρ₁, he₁, hx⟩ := h
    exact .error ⟨ρ₁, he₁.less, hx⟩

theorem Alike.guarding {f : EngineM α} {g : EngineM β}
    (hf : ∀ ρ e e', e.Alike (k + 1) ρ e' → Like (k + 1) V (f e) (g e')) (he : e.Alike (k + 1) ρ e') :
    Like k V (guarding f e) (guarding g e') :=
  (Alike.protect hf he).carried

end Protection

section Loading

theorem Alike.withLedger (he : e.Alike k ρ e') (ledger : Ledger) :
    Alike k ρ { e with ledger } { e' with ledger } :=
  ⟨{ he.akin with ledger := rfl }, he.heap⟩

theorem Alike.compile (he : e.Alike k ρ e') (name source : String) :
    Same k ρ Eq (compile name source e) (compile name source e') := by
  refine .get ?_
  rw [he.akin.ledger]
  generalize SyntaxTree.acquire name source e'.ledger = acquired
  obtain ⟨parsed, ledger⟩ := acquired
  refine .set ?_
  cases parsed with
  | error d => exact .error ⟨he.withLedger ledger, rfl, .none, rfl⟩
  | ok tree =>
    refine .modified ?_
    have hstrict : tree.compile e.strict = tree.compile e'.strict := by rw [he.akin.strict]
    simp only [hstrict]
    cases tree.compile e'.strict with
    | error d => exact .error ⟨he.withLedger _, rfl, .none, rfl⟩
    | ok unit => exact .ok ⟨he.withLedger _, rfl⟩

theorem Alike.target (he : e.Alike k ρ e') (mode : LoadMode) :
    ∃ ρ', (e.target mode).2.Alike k ρ' (e'.target mode).2 ∧ ρ'.scope (e.target mode).1 (e'.target mode).1 := by
  have hstrict : (mode = .eval ∧ e.strict = true) = (mode = .eval ∧ e'.strict = true) := by rw [he.akin.strict]
  simp only [Engine.target, hstrict]
  split
  · obtain ⟨ρ', hρ, hh, hs⟩ := he.heap.openScope he.akin.env
    exact ⟨ρ', he.withHeap hρ hh, hs⟩
  · exact ⟨ρ, he, he.akin.globalEnv⟩

theorem Alike.bindSource (he : e.Alike k ρ e') (name source : String) (mode : LoadMode) :
    Like k Value.Alike (bindSource name source mode e) (bindSource name source mode e') := by
  refine (he.compile name source).bind fun unit _ e₁ e₁' he₁ heq => ?_
  subst heq
  obtain ⟨ρ₂, he₂, hs⟩ := he₁.target mode
  obtain ⟨ρ₃, -, he₃, hv⟩ := he₂.closureOf hs unit
  exact .ok ⟨ρ₃, he₃, hv⟩

theorem Alike.load (he : e.Alike (k + 1) ρ e') (name source : String) (mode : LoadMode) :
    Like k Value.Alike (load name source mode e) (load name source mode e') :=
  Alike.guarding (fun _ _ _ he => he.bindSource name source mode) he

theorem Alike.readFile (he : e.Alike k ρ e') (path : String) (file : Option Stream) :
    Same k ρ Eq (readFile path file e) (readFile path file e') := by
  refine .get ?_
  rw [he.akin.ledger]
  generalize SourceBuffer.ofFile path file e'.ledger = opened
  obtain ⟨read, ledger⟩ := opened
  refine .set ?_
  cases read with
  | ok buffer => exact .ok ⟨he.withLedger ledger, rfl⟩
  | error error => exact .error ⟨he.withLedger ledger, rfl, .none, rfl⟩

theorem Alike.loadBuffer (he : e.Alike (k + 1) ρ e') (path : String) (buffer : SourceBuffer) :
    Like k Value.Alike (loadBuffer path buffer e) (loadBuffer path buffer e') := by
  have hrelease {ρ : Renaming} {e e' : Engine} (he : e.Alike k ρ e') :
      Alike k ρ { e with ledger := SourceBuffer.release e.ledger } { e' with ledger := SourceBuffer.release e'.ledger } :=
    ⟨{ he.akin with ledger := by rw [he.akin.ledger] }, he.heap⟩
  have hl := he.load path buffer.text .program
  simp only [Engine.loadBuffer]
  generalize Engine.load path buffer.text .program e = r at hl ⊢
  generalize Engine.load path buffer.text .program e' = r' at hl ⊢
  cases hl with
  | ok h =>
    obtain ⟨ρ₁, he₁, hv⟩ := h
    exact .ok ⟨ρ₁, hrelease he₁, hv⟩
  | error h =>
    obtain ⟨ρ₁, he₁, hx⟩ := h
    exact .error ⟨ρ₁, hrelease he₁, hx⟩

end Loading

section Natives

variable {args args' : List Value}

theorem Alike.displays (he : e.Alike k ρ e') (ha : List.Forall₂ (Value.Alike ρ) args args') :
    args.map e.display = args'.map e'.display := by
  induction ha with
  | nil => rfl
  | cons hv _ ih => rw [List.map_cons, he.display hv, ih, List.map_cons]

theorem numbers_of_alike (ha : List.Forall₂ (Value.Alike ρ) args args') :
    args.map Value.toNumber = args'.map Value.toNumber := by
  induction ha with
  | nil => rfl
  | cons hv _ ih => rw [List.map_cons, hv.toNumber, ih, List.map_cons]

theorem headD_of_alike (ha : List.Forall₂ (Value.Alike ρ) args args') :
    (args.headD .undefined).Alike ρ (args'.headD .undefined) := by
  cases ha with
  | nil => exact .plain rfl
  | cons hv _ => exact hv

theorem Alike.print (he : e.Alike k ρ e') (ha : List.Forall₂ (Value.Alike ρ) args args') :
    Same k ρ (fun _ _ => True) (print args e) (print args' e') := by
  refine .get ?_
  rw [he.akin.output, he.displays ha]
  cases e'.output.write (" ".intercalate (args'.map e'.display) ++ "\n") with
  | ok output => exact .ok ⟨⟨{ he.akin with output := rfl }, he.heap⟩, trivial⟩
  | error reason => exact .error ⟨he, .fault rfl⟩

theorem Alike.makeError (he : e.Alike k ρ e') (name : ErrorName) (ha : List.Forall₂ (Value.Alike ρ) args args') :
    ∃ ρ', ρ.Extends ρ' ∧ (e.makeError name args).2.Alike k ρ' (e'.makeError name args').2 ∧
      (e.makeError name args).1.Alike ρ' (e'.makeError name args').1 := by
  cases ha with
  | nil => exact he.newError name ""
  | @cons v v' _ _ hv _ =>
    have hd := he.display hv
    cases hv with
    | plain hp =>
      cases v with
      | object a => cases hp
      | undefined => exact he.newError name ""
      | null | boolean | number | string =>
        simp only [Engine.makeError, hd]
        exact he.newError name _
    | object =>
      simp only [Engine.makeError, hd]
      exact he.newError name _

theorem Alike.native (he : e.Alike (k + 1) ρ e') (f : Builtin) (ha : List.Forall₂ (Value.Alike ρ) args args') :
    Like k NativeResult.Alike (native f args e) (native f args' e') := by
  have hplain {v v' : Value} (hv : v.Alike ρ v') :
      Like k NativeResult.Alike (.ok (.value v) e) (.ok (.value v') e') := .ok ⟨ρ, he.less, .value hv⟩
  refine .get ?_
  cases f with
  | print => exact ((he.less.print ha).bind fun _ _ _ _ he₁ _ => .ok ⟨ρ, he₁, .value (.plain rfl)⟩)
  | makeError name =>
    obtain ⟨ρ', -, he₁, hv⟩ := he.less.makeError name ha
    exact .ok ⟨ρ', he₁, .value hv⟩
  | string =>
    cases ha with
    | nil => exact hplain (.plain rfl)
    | cons hv _ =>
      simp only [he.display hv]
      exact hplain (.plain rfl)
  | number =>
    cases ha with
    | nil => exact hplain (.plain rfl)
    | cons hv _ =>
      simp only [hv.toNumber]
      exact hplain (.plain rfl)
  | isNaN =>
    simp only [(headD_of_alike ha).toNumber]
    exact hplain (.plain rfl)
  | isFinite =>
    simp only [(headD_of_alike ha).toNumber]
    exact hplain (.plain rfl)
  | eval =>
    cases ha with
    | nil => exact hplain (.plain rfl)
    | @cons v v' _ _ hv _ =>
      cases hv with
      | plain hp =>
        cases v with
        | object a => cases hp
        | string source =>
          refine Both.bind (he.load "(eval)" source .eval) ?_ fun _ _ _ _ h => h
          rintro a e₁ b e₁' ⟨ρ₁, he₁, hv⟩
          exact .ok ⟨ρ₁, he₁, .run hv⟩
        | undefined | null | boolean | number => exact hplain (.plain rfl)
      | object hb => exact hplain (.object hb)
  | gc =>
    obtain ⟨ρ', he₁⟩ := he.collect 0 0
    exact .ok ⟨ρ', he₁, .value (.plain rfl)⟩
  | math function =>
    simp only [numbers_of_alike ha]
    exact hplain (.plain rfl)

theorem Alike.callNative (he : e.Alike (k + 1) ρ e') (f : Builtin) (ha : List.Forall₂ (Value.Alike ρ) args args') :
    Like k NativeResult.Alike (callNative f args e) (callNative f args' e') := by
  have ht := he.enterTrace ⟨f.name, "native", 0⟩
  simp only [Engine.callNative]
  generalize Engine.enterTrace ⟨f.name, "native", 0⟩ e = r at ht ⊢
  generalize Engine.enterTrace ⟨f.name, "native", 0⟩ e' = r' at ht ⊢
  cases ht with
  | error h => exact .error ⟨ρ, h.1.less, h.2⟩
  | @ok _ e₁ _ e₁' h =>
    have hn := h.1.native f ha
    simp only
    generalize Engine.native f args e₁ = r at hn ⊢
    generalize Engine.native f args' e₁' = r' at hn ⊢
    cases hn with
    | ok hn =>
      obtain ⟨ρ₁, he₂, hv⟩ := hn
      cases hv with
      | value hv => exact .ok ⟨ρ₁, he₂.withTrace (·.pop), .value hv⟩
      | run hv => exact .ok ⟨ρ₁, he₂, .run hv⟩
    | error hn =>
      obtain ⟨ρ₁, he₂, hx⟩ := hn
      exact .error ⟨ρ₁, he₂.withTrace (·.pop), hx⟩

end Natives

end Engine

end ScriptEngine
