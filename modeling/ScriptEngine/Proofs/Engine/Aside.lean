import ScriptEngine.Proofs.Engine.Likeness

namespace ScriptEngine

def mapState {ε σ τ α : Type} (f : σ → τ) : EStateM.Result ε σ α → EStateM.Result ε τ α
  | .ok a s => .ok a (f s)
  | .error error s => .error error (f s)

@[simp] theorem mapState_ok {ε σ τ α : Type} (f : σ → τ) (a : α) (s : σ) :
    mapState f (.ok a s : EStateM.Result ε σ α) = .ok a (f s) := rfl

@[simp] theorem mapState_error {ε σ τ α : Type} (f : σ → τ) (error : ε) (s : σ) :
    mapState f (.error error s : EStateM.Result ε σ α) = .error error (f s) := rfl

def Mirrors {ε σ τ α : Type} (f : σ → τ) (x : EStateM ε σ α) (y : EStateM ε τ α) : Prop :=
  ∀ s, y (f s) = mapState f (x s)

namespace Mirrors

variable {ε σ τ α β : Type} {f : σ → τ} {x : EStateM ε σ α} {y : EStateM ε τ α}

theorem pure (a : α) : Mirrors f (Pure.pure a : EStateM ε σ α) (Pure.pure a) := fun _ => rfl

theorem throw (error : ε) : Mirrors f (MonadExcept.throw error : EStateM ε σ α) (MonadExcept.throw error) :=
  fun _ => rfl

theorem bind {k : α → EStateM ε σ β} {k' : α → EStateM ε τ β} (hx : Mirrors f x y) (hk : ∀ a, Mirrors f (k a) (k' a)) :
    Mirrors f (x >>= k) (y >>= k') := by
  intro s
  have hs := hx s
  cases hr : x s with
  | ok a t =>
    rw [hr] at hs
    rw [bind_of_ok hs, bind_of_ok hr]
    exact hk a t
  | error error t =>
    rw [hr] at hs
    rw [bind_of_error hs, bind_of_error hr]
    rfl

theorem get {k : σ → EStateM ε σ β} {k' : τ → EStateM ε τ β} (hk : ∀ s, Mirrors f (k s) (k' (f s))) :
    Mirrors f (MonadState.get >>= k) (MonadState.get >>= k') :=
  fun s => hk s s

theorem modifyGet {g : σ → α × σ} {g' : τ → α × τ} (h : ∀ s, g' (f s) = ((g s).1, f (g s).2)) :
    Mirrors f (MonadStateOf.modifyGet g : EStateM ε σ α) (MonadStateOf.modifyGet g') := by
  intro s
  show (match g' (f s) with | (a, t) => EStateM.Result.ok a t) = mapState f (match g s with | (a, t) => .ok a t)
  rw [h s]
  rfl

theorem modified {g : σ → σ} {g' : τ → τ} (h : ∀ s, g' (f s) = f (g s)) :
    Mirrors f (modify g : EStateM ε σ PUnit) (modify g') := by
  intro s
  show EStateM.Result.ok PUnit.unit (g' (f s)) = .ok PUnit.unit (f (g s))
  rw [h s]

end Mirrors

namespace Engine

variable {α β : Type}

def aside (books : Ledger → Ledger) (count : Nat → Nat) (e : Engine) : Engine :=
  { e with ledger := books e.ledger, loops := count e.loops }

def tally (e : Engine) : Ledger × Nat :=
  (e.ledger, e.loops)

theorem tally_eq {e : Engine} {l : Ledger} {n : Nat} : e.tally = (l, n) ↔ e.ledger = l ∧ e.loops = n :=
  Prod.mk.injEq .. ▸ Iff.rfl

section Aside

variable (books : Ledger → Ledger) (count : Nat → Nat) (e : Engine)

@[simp] theorem stack_aside : (e.aside books count).stack = e.stack := rfl

@[simp] theorem frames_aside : (e.aside books count).frames = e.frames := rfl

end Aside

def Detached (x : EngineM α) : Prop :=
  ∀ books count, Mirrors (aside books count) x x

namespace Detached

variable {x : EngineM α}

theorem pure (a : α) : Detached (Pure.pure a) := fun _ _ => .pure a

theorem throw (error : Error) : Detached (MonadExcept.throw error : EngineM α) := fun _ _ => .throw error

theorem bind {k : α → EngineM β} (hx : Detached x) (hk : ∀ a, Detached (k a)) : Detached (x >>= k) :=
  fun books count => .bind (hx books count) fun a => hk a books count

theorem get {k : Engine → EngineM β} (hs : ∀ e books count, k (e.aside books count) = k e)
    (hk : ∀ e, Detached (k e)) : Detached (MonadState.get >>= k) := by
  refine fun books count => .get fun e => ?_
  rw [hs]
  exact hk e books count

theorem modifyGet {g : Engine → α × Engine}
    (h : ∀ e books count, g (e.aside books count) = ((g e).1, (g e).2.aside books count)) :
    Detached (MonadStateOf.modifyGet g) :=
  fun books count => .modifyGet fun e => h e books count

theorem modified {g : Engine → Engine}
    (h : ∀ e books count, g (e.aside books count) = (g e).aside books count) : Detached (modify g) :=
  fun books count => .modified fun e => h e books count

theorem tally (hx : Detached x) (e : Engine) : (stateOf (x e)).tally = e.tally := by
  have hsame : x e = mapState (aside (fun _ => e.ledger) (fun _ => e.loops)) (x e) :=
    hx (fun _ => e.ledger) (fun _ => e.loops) e
  rw [hsame]
  cases x e <;> rfl

theorem tally_ok (hx : Detached x) {a : α} {e e' : Engine} (h : x e = .ok a e') : e'.tally = e.tally := by
  have ht := hx.tally e
  rwa [h] at ht

theorem tally_error (hx : Detached x) {error : Error} {e e' : Engine} (h : x e = .error error e') :
    e'.tally = e.tally := by
  have ht := hx.tally e
  rwa [h] at ht

end Detached

section Operations

theorem push_detached (v : Value) : Detached (push v) := by
  refine .get (fun _ _ _ => rfl) fun e => .get (fun _ _ _ => rfl) fun e' => ?_
  split
  · exact .bind (.throw _) fun _ => .modified fun _ _ _ => rfl
  · exact .modified fun _ _ _ => rfl

theorem popped_detached : Detached popped :=
  .modifyGet fun _ _ _ => rfl

theorem peek_detached : Detached peek := by
  refine .get (fun _ _ _ => rfl) fun e => ?_
  split
  · exact .pure _
  · exact .throw _

theorem ask_detached (f : Heap → Except Fault α) : Detached (EngineM.ask f) := by
  refine .get (fun _ _ _ => rfl) fun e => ?_
  split
  · exact .pure _
  · exact .throw _

theorem change_detached (f : Heap → Except Fault Heap) : Detached (EngineM.change f) := by
  refine .get (fun _ _ _ => rfl) fun e => ?_
  split
  · exact .modified fun _ _ _ => rfl
  · exact .throw _

theorem enterTrace_detached (entry : TraceEntry) : Detached (enterTrace entry) := by
  refine .get (fun _ _ _ => rfl) fun e => .get (fun _ _ _ => rfl) fun e' => ?_
  split
  · exact .bind (.throw _) fun _ => .modified fun _ _ _ => rfl
  · exact .modified fun _ _ _ => rfl

theorem enterProtected_detached : Detached enterProtected := by
  intro books count e
  rw [enterProtected_eq, enterProtected_eq]
  by_cases hfull : e.limits.tryLimit ≤ e.frames.length
  · rw [if_pos hfull]
    exact if_pos hfull
  · rw [if_neg hfull]
    exact if_neg hfull

theorem leaveProtected_detached (id : ScopeId) : Detached (leaveProtected id) := by
  intro books count e
  simp only [leaveProtected_eq, frames_aside]
  cases e.frames with
  | nil => rfl
  | cons frame frames =>
    dsimp only
    split <;> rfl

end Operations

variable (books : Ledger → Ledger) (count : Nat → Nat)

theorem exceptionValue_aside (error : Error) (e : Engine) :
    (e.aside books count).exceptionValue error =
      ((e.exceptionValue error).1, (e.exceptionValue error).2.aside books count) := by
  simp only [exceptionValue]
  cases error.carried? with
  | some v => rfl
  | none => cases error.description? <;> rfl

theorem unwind_aside (id : ScopeId) (error : Error) (e : Engine) :
    (e.aside books count).unwind id error = ((e.unwind id error).1, (e.unwind id error).2.aside books count) := by
  simp only [unwind, frames_aside]
  cases findFrame id e.frames with
  | none =>
    simp only [exceptionValue_aside]
    rfl
  | some found =>
    obtain ⟨frame, frames⟩ := found
    have hrest : { e.aside books count with frames } = Engine.aside books count { e with frames } := rfl
    simp only [hrest, exceptionValue_aside]
    rfl

theorem tally_of_aside {g : Engine → α × Engine} (e : Engine)
    (h : ∀ books count, g (e.aside books count) = ((g e).1, (g e).2.aside books count)) : (g e).2.tally = e.tally := by
  have hsame : g e = ((g e).1, (g e).2.aside (fun _ => e.ledger) (fun _ => e.loops)) :=
    h (fun _ => e.ledger) (fun _ => e.loops)
  rw [hsame]
  rfl

theorem carry_aside (error : Error) (e : Engine) :
    (e.aside books count).carry error = ((e.carry error).1, (e.carry error).2.aside books count) := by
  simp only [carry, stack_aside]
  cases e.stack.back? <;> rfl

theorem beginProtected_detached : Detached beginProtected := by
  intro books count e
  simp only [beginProtected, enterProtected_detached books count e]
  cases enterProtected e with
  | ok id e₁ => rfl
  | error error e₁ =>
    simp only [mapState_error, exceptionValue_aside]
    rfl

theorem endProtected_aside (id : ScopeId) (r : EStateM.Result Error Engine α) :
    endProtected id (mapState (aside books count) r) = mapState (aside books count) (endProtected id r) := by
  cases r with
  | ok a e =>
    simp only [mapState_ok, endProtected, leaveProtected_detached id books count e]
    cases leaveProtected id e with
    | ok _ e₁ => rfl
    | error error e₁ => simp only [mapState_error, unwind_aside]
  | error error e => simp only [mapState_error, endProtected, unwind_aside]

theorem carried_aside (r : EStateM.Result Error Engine α) :
    carried (mapState (aside books count) r) = mapState (aside books count) (carried r) := by
  cases r with
  | ok a e => rfl
  | error error e => simp only [mapState_error, carried, carry_aside]

theorem endProtected_tally (id : ScopeId) (r : EStateM.Result Error Engine α) :
    (stateOf (endProtected id r)).tally = (stateOf r).tally := by
  cases r with
  | error error e => exact tally_of_aside e fun books count => unwind_aside books count id error e
  | ok a e =>
    simp only [endProtected]
    cases hl : leaveProtected id e with
    | ok _ e₁ => exact (leaveProtected_detached id).tally_ok hl
    | error error e₁ =>
      have hunwound := tally_of_aside e₁ fun books count => unwind_aside books count id error e₁
      exact hunwound.trans ((leaveProtected_detached id).tally_error hl)

theorem carried_tally (r : EStateM.Result Error Engine α) : (stateOf (carried r)).tally = (stateOf r).tally := by
  cases r with
  | ok a e => rfl
  | error error e => exact tally_of_aside e fun books count => carry_aside books count error e

theorem protect_detached {body : EngineM α} (hb : Detached body) : Detached (protect body) := by
  intro books count e
  simp only [protect, beginProtected_detached books count e]
  cases beginProtected e with
  | ok id e₁ =>
    simp only [mapState_ok, hb books count e₁]
    exact endProtected_aside books count id _
  | error error e₁ => rfl

theorem guarding_detached {body : EngineM α} (hb : Detached body) : Detached (guarding body) := by
  intro books count e
  simp only [guarding, protect_detached hb books count e]
  exact carried_aside books count _

section Load

theorem compile_eq (name source : String) (e : Engine) :
    compile name source e =
      match parse source with
      | .error d => .error (.parsing (d.inFile name)) e
      | .ok items =>
        match SyntaxTree.compile ⟨name, items⟩ e.strict with
        | .error d => .error (.compiling d) e
        | .ok unit => .ok unit e := by
  cases hp : parse source with
  | error d =>
    have ha : SyntaxTree.acquire name source e.ledger = (.error (d.inFile name), e.ledger) := by
      simp only [SyntaxTree.acquire, hp]
      rfl
    simp only [compile, get_bind, ha]
    rfl
  | ok items =>
    have ha : SyntaxTree.acquire name source e.ledger = (.ok ⟨name, items⟩, e.ledger.acquire .syntaxTree) := by
      simp only [SyntaxTree.acquire, hp]
    simp only [compile, get_bind, ha]
    cases SyntaxTree.compile ⟨name, items⟩ e.strict <;> rfl

theorem compile_detached (name source : String) : Detached (compile name source) := by
  intro books count e
  have hstrict : (e.aside books count).strict = e.strict := rfl
  rw [compile_eq, compile_eq, hstrict]
  cases parse source with
  | error d => rfl
  | ok items =>
    dsimp only
    cases SyntaxTree.compile ⟨name, items⟩ e.strict <;> rfl

theorem target_detached (mode : LoadMode) : Detached (modifyGet (target mode)) := by
  refine .modifyGet fun e books count => ?_
  by_cases hown : mode = .eval ∧ e.strict = true
  · simp only [target, if_pos hown]
    exact if_pos hown
  · simp only [target, if_neg hown]
    exact if_neg hown

theorem load_detached (name source : String) (mode : LoadMode) : Detached (load name source mode) :=
  guarding_detached (.bind (compile_detached name source) fun _ => .bind (target_detached mode) fun _ =>
    .modifyGet fun _ _ _ => rfl)

end Load

section Native

theorem print_detached (args : List Value) : Detached (print args) := by
  refine fun books count => .get fun e => ?_
  have hsame : (e.aside books count).output.write (" ".intercalate (args.map (e.aside books count).display) ++ "\n") =
      e.output.write (" ".intercalate (args.map e.display) ++ "\n") := rfl
  rw [hsame]
  cases e.output.write (" ".intercalate (args.map e.display) ++ "\n") with
  | ok output => exact fun _ => rfl
  | error reason => exact .throw _

theorem makeError_detached (name : ErrorName) (args : List Value) : Detached (modifyGet (makeError name args)) := by
  refine .modifyGet fun e books count => ?_
  cases args with
  | nil => rfl
  | cons v args => cases v <;> rfl

theorem native_detached (f : Builtin) (args : List Value) : Detached (native f args) := by
  refine .get (fun _ _ _ => rfl) fun e => ?_
  split
  · exact .bind (print_detached _) fun _ => .pure _
  · exact .bind (makeError_detached _ _) fun _ => .pure _
  any_goals exact .pure _
  · exact .bind (load_detached _ _ _) fun _ => .pure _
  · exact .bind (.modified fun _ _ _ => rfl) fun _ => .pure _

theorem callNative_detached (f : Builtin) (args : List Value) : Detached (callNative f args) := by
  intro books count e
  simp only [callNative, enterTrace_detached _ books count e]
  cases enterTrace ⟨f.name, "native", 0⟩ e with
  | error error e₁ => rfl
  | ok _ e₁ =>
    simp only [mapState_ok, native_detached f args books count e₁]
    cases native f args e₁ with
    | error error e₂ => rfl
    | ok result e₂ => cases result <;> rfl

end Native

end Engine

end ScriptEngine
