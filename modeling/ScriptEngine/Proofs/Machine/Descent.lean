import ScriptEngine.Proofs.Heap.Descent
import ScriptEngine.Proofs.Machine.Endurance

namespace ScriptEngine

def Founds {ε σ α : Type} (heap : σ → Heap) (n : Nat) (x : EStateM ε σ α) (s : σ) : Prop :=
  (heap s).Grows n (heap (stateOf (x s)))

namespace Founds

variable {ε σ α β : Type} {heap : σ → Heap} {x : EStateM ε σ α} {s : σ} {n k : Nat}

theorem returned {a : α} {t : σ} (hx : Founds heap n x s) (h : x s = .ok a t) : (heap s).Grows n (heap t) := by
  rw [Founds, h] at hx
  exact hx

theorem failed {error : ε} {t : σ} (hx : Founds heap n x s) (h : x s = .error error t) : (heap s).Grows n (heap t) := by
  rw [Founds, h] at hx
  exact hx

theorem pure (a : α) : Founds heap n (Pure.pure a : EStateM ε σ α) s := .refl

theorem throw (error : ε) : Founds heap n (MonadExcept.throw error : EStateM ε σ α) s := .refl

theorem bind {f : α → EStateM ε σ β} (hx : Founds heap n x s) (hf : ∀ a t, x s = .ok a t → Founds heap k (f a) t) :
    Founds heap (n + k) (x >>= f) s := by
  unfold Founds
  cases hr : x s with
  | ok a t =>
    rw [bind_of_ok hr]
    exact (hx.returned hr).trans (hf a t hr)
  | error error t =>
    rw [bind_of_error hr]
    exact (hx.failed hr).mono (Nat.le_add_right _ _)

theorem after {f : α → EStateM ε σ β} (hx : heap (stateOf (x s)) = heap s)
    (hf : ∀ a t, x s = .ok a t → Founds heap n (f a) t) : Founds heap n (x >>= f) s := by
  have hsame : Founds heap 0 x s := by
    rw [Founds, hx]
    exact .refl
  simpa using hsame.bind hf

theorem get {f : σ → EStateM ε σ β} (hf : Founds heap n (f s) s) : Founds heap n (MonadState.get >>= f) s := hf

theorem of_heap (h : heap (stateOf (x s)) = heap s) : Founds heap n x s := by
  rw [Founds, h]
  exact .refl

end Founds

structure Engine.Founded (e : Engine) : Prop where
  tidy : e.heap.Tidy
  env : ∃ env, e.heap.environment? e.env = some env
  globalEnv : ∃ env, e.heap.environment? e.globalEnv = some env
  base : ∀ a s b, e.heap.slot? a = some s → s.cell.base? = some b → ∃ env, e.heap.environment? b = some env

namespace Engine

variable {α : Type} {e : Engine} {n : Nat}

section Steps

theorem push_heap (v : Value) (e : Engine) : (stateOf (push v e)).heap = e.heap := by
  rw [push_eq]
  split <;> rfl

theorem peek_heap (e : Engine) : (stateOf (peek e)).heap = e.heap := by
  rw [peek_eq]
  split <;> rfl

theorem ask_heap (f : Heap → Except Fault α) (e : Engine) : (stateOf (EngineM.ask f e)).heap = e.heap := by
  rw [ask_eq]
  split <;> rfl

theorem enterTrace_heap (entry : TraceEntry) (e : Engine) : (stateOf (enterTrace entry e)).heap = e.heap := by
  rw [enterTrace_eq]
  split <;> rfl

theorem leaveProtected_heap (id : ScopeId) (e : Engine) : (stateOf (leaveProtected id e)).heap = e.heap := by
  rw [leaveProtected_eq]
  split
  · split <;> rfl
  · rfl

theorem push_founds (v : Value) : Founds heap n (push v) e := .of_heap (push_heap v e)

theorem change_founds {f : Heap → Except Fault Heap} (hf : ∀ h', f e.heap = .ok h' → e.heap.Grows n h') :
    Founds heap n (EngineM.change f) e := by
  unfold Founds
  rw [change_eq]
  split
  · rename_i h' hh
    exact hf h' hh
  · exact .refl

theorem setProperty_founds (target : Value) (name : String) (value : Value) :
    Founds heap n (setProperty target name value) e :=
  change_founds fun _ hs => Heap.Grows.refl.setProperty hs

theorem exceptionValue_grows (error : Error) (e : Engine) : e.heap.Grows 0 (e.exceptionValue error).2.heap := by
  simp only [exceptionValue]
  split
  · exact .refl
  · split
    · exact Heap.Grows.refl.allocObject rfl
    · exact .refl

theorem unwind_grows (id : ScopeId) (error : Error) (e : Engine) : e.heap.Grows 1 (e.unwind id error).2.heap := by
  simp only [unwind]
  split
  · exact (exceptionValue_grows .unbalancedScope e).mono (Nat.zero_le 1)
  · rename_i frame frames _
    exact (exceptionValue_grows error { e with frames }).collect _ _

theorem endProtected_grows (id : ScopeId) (r : EStateM.Result Error Engine α) :
    (stateOf r).heap.Grows 1 (stateOf (endProtected id r)).heap := by
  cases r with
  | error error e => exact unwind_grows id error e
  | ok a e =>
    have hheap := leaveProtected_heap id e
    simp only [endProtected]
    cases hx : leaveProtected id e with
    | ok _ e₁ =>
      rw [hx] at hheap
      rw [show (stateOf (.ok a e₁ : EStateM.Result Error Engine α)).heap = e.heap from hheap]
      exact .refl
    | error error e₁ =>
      rw [hx] at hheap
      have hgrows := unwind_grows id error e₁
      rwa [show e₁.heap = e.heap from hheap] at hgrows

theorem guarding_grows {body : EngineM α} (hbody : ∀ id e₁, beginProtected e = .ok id e₁ → Founds heap n body e₁) :
    Founds heap (n + 1) (guarding body) e := by
  unfold Founds
  simp only [guarding, protect, carried_heap]
  cases hb : beginProtected e with
  | error error e₁ =>
    obtain ⟨-, rfl⟩ := (beginProtected_ensures e).error hb
    exact (exceptionValue_grows error e).mono (Nat.zero_le _)
  | ok id e₁ =>
    have hgrows := hbody id e₁ hb
    rw [← beginProtected_heap hb]
    exact Heap.Grows.trans hgrows (endProtected_grows id (body e₁))

end Steps

section Loading

theorem Founded.keeps {e' : Engine} (h : e.Founded) (hheap : e'.heap = e.heap) (hfixed : e'.fixed = e.fixed)
    (henv : e'.env = e.env) : e'.Founded := by
  have hglobal : e'.globalEnv = e.globalEnv := congrArg (·.2.2.2.2) hfixed
  exact ⟨hheap ▸ h.tidy, by rw [hheap, henv]; exact h.env, by rw [hheap, hglobal]; exact h.globalEnv,
    by rw [hheap]; exact h.base⟩

theorem Founded.begun {id : ScopeId} {e' : Engine} (h : e.Founded) (hb : beginProtected e = .ok id e') : e'.Founded := by
  obtain ⟨frame, -, -, rfl⟩ := (beginProtected_ensures e).ok hb
  exact h.keeps rfl rfl rfl

theorem target_founds (h : e.Founded) (mode : LoadMode) (unit : CodeUnit) :
    e.heap.Grows 0 (closureOf unit (target mode e).1 (target mode e).2).2.heap := by
  simp only [target]
  split
  · obtain ⟨env, henv⟩ := h.env
    have hgrown : e.heap.Grows 0 (Environment.alloc e.heap none (some e.env)).2 := Heap.Grows.refl.environment h.tidy henv
    have hplain := h.tidy.alloc (.object (.of .plain))
    have hnew := Heap.slot?_alloc_new hplain (.environment ⟨(e.heap.allocObject (.of .plain)).1, some e.env⟩)
    exact hgrown.alloc (Heap.founded_of_base rfl (Heap.environment?_of_slot hnew rfl))
  · obtain ⟨env, henv⟩ := h.globalEnv
    exact Heap.Grows.refl.alloc (Heap.founded_of_base rfl henv)

theorem bindSource_founds (h : e.Founded) (name source : String) (mode : LoadMode) :
    Founds heap 0 (bindSource name source mode) e := by
  have hheap := compile_heap name source e
  have hkeeps := compile_ensures name source e
  have hsame : (stateOf (compile name source e)).heap = e.heap :=
    Ensures.state (P := fun e' : Engine => e'.heap = e.heap) hheap
  refine .after hsame fun unit e₁ hc => ?_
  obtain ⟨-, hages, hlevel⟩ := hkeeps.ok hc
  have hfounded := h.keeps (hheap.ok hc) hages.fixed (congrArg Level.env hlevel)
  exact target_founds hfounded mode unit

theorem load_founds (h : e.Founded) (name source : String) (mode : LoadMode) :
    Founds heap 1 (load name source mode) e :=
  guarding_grows fun _ _ hb => bindSource_founds (h.begun hb) name source mode

theorem loadBuffer_founds (h : e.Founded) (path : String) (buffer : SourceBuffer) :
    Founds heap 1 (loadBuffer path buffer) e := by
  have hload := load_founds h path buffer.text .program
  unfold Founds
  simp only [loadBuffer]
  cases hl : load path buffer.text .program e with
  | ok closure e₁ =>
    have hgrows : e.heap.Grows 1 e₁.heap := hload.returned hl
    exact hgrows
  | error error e₁ =>
    have hgrows : e.heap.Grows 1 e₁.heap := hload.failed hl
    exact hgrows

theorem loadFile_founds (h : e.Founded) (path : String) (file : Option Stream) :
    Founds heap 2 (loadFile path file) e := by
  refine guarding_grows fun id e₁ hb => ?_
  have hheap := readFile_heap path file e₁
  have hkeeps := readFile_ensures path file e₁
  have hsame : (stateOf (readFile path file e₁)).heap = e₁.heap :=
    Ensures.state (P := fun e' : Engine => e'.heap = e₁.heap) hheap
  refine .after hsame fun buffer e₂ hr => ?_
  obtain ⟨hages, hlevel⟩ := hkeeps.ok hr
  exact loadBuffer_founds ((h.begun hb).keeps (hheap.ok hr) hages.fixed (congrArg Level.env hlevel)) path buffer

theorem script_founds (h : e.Founded) (script : Script) : Founds heap 2 script.load e := by
  cases script with
  | text name source => exact Heap.Grows.mono (load_founds h name source .program) (by omega)
  | file path stream => exact loadFile_founds h path stream

end Loading

section Calls

theorem native_founds (h : e.Founded) (f : Builtin) (args : List Value) : Founds heap 1 (native f args) e := by
  refine .get ?_
  cases f with
  | print =>
    have hprint : (stateOf (print args e)).heap = e.heap := by
      refine Ensures.state (P := fun e' : Engine => e'.heap = e.heap) (.get ?_)
      split
      · rfl
      · exact .fault rfl
    exact .after hprint fun _ _ _ => .pure _
  | makeError name =>
    have hmade : Founds heap 1 (modifyGet (makeError name args) : EngineM Value) e := by
      show e.heap.Grows 1 (makeError name args e).2.heap
      simp only [makeError]
      split <;> exact Heap.Grows.refl.allocObject rfl
    exact Founds.bind (k := 0) hmade fun _ _ _ => .pure _
  | string => cases args <;> exact .pure _
  | number => cases args <;> exact .pure _
  | isNaN => exact .pure _
  | isFinite => exact .pure _
  | eval =>
    cases args with
    | nil => exact .pure _
    | cons value args =>
      cases value with
      | string source => exact Founds.bind (k := 0) (load_founds h "(eval)" source .eval) fun _ _ _ => .pure _
      | undefined | null | boolean | number | object => exact .pure _
  | gc =>
    have hcollected : e.heap.Grows 1 e.gc.2.heap := Heap.Grows.refl.collect 0 e.roots
    exact Founds.bind (k := 0) hcollected fun _ _ _ => .pure _
  | math function => exact .pure _

theorem callNative_founds (h : e.Founded) (f : Builtin) (args : List Value) : Founds heap 1 (callNative f args) e := by
  unfold Founds
  simp only [callNative, enterTrace_eq]
  split
  · rename_i hx
    split at hx <;> cases hx
    exact .refl
  · rename_i hx
    split at hx <;> cases hx
    have hentered : Founded { e with trace := e.trace.push ⟨f.name, "native", 0⟩ } := h.keeps rfl rfl rfl
    have hnative := native_founds hentered f args
    split
    · rename_i hr
      have hgrows := hnative.returned hr
      exact hgrows
    · rename_i hr
      exact hnative.returned hr
    · rename_i hr
      have hgrows := hnative.failed hr
      exact hgrows

theorem bindParams_grows (scope : Handle) {names : List String} {args : List Value} {h h' : Heap}
    (hb : bindParams scope names args h = .ok h') : h.Grows 0 h' := by
  induction names generalizing args h with
  | nil =>
    cases hb
    exact .refl
  | cons name names ih =>
    obtain ⟨h₁, hd, hrest⟩ := bind_eq_ok.mp hb
    exact (Heap.Grows.refl.define hd).trans (ih hrest)

theorem openScope_founds (h : e.Founded) (unit : CodeUnit) {env : Handle} {around : Environment}
    (henv : e.heap.environment? env = some around) (args : List Value) : Founds heap 0 (openScope unit env args) e := by
  simp only [openScope]
  split
  · exact .pure _
  · have hopened : e.heap.Grows 0 (Environment.alloc e.heap none (some env)).2 := Heap.Grows.refl.environment h.tidy henv
    refine Founds.bind (n := 0) (k := 0) hopened fun scope e₁ _ => ?_
    exact Founds.bind (n := 0) (k := 0) (change_founds fun _ hb => bindParams_grows scope hb) fun _ _ _ => .pure _

theorem enterClosure_founds (h : e.Founded) (unit : CodeUnit) {env : Handle} {around : Environment}
    (henv : e.heap.environment? env = some around) (site : CallSite) : Founds heap 0 (enterClosure unit env site) e := by
  refine .get (Founds.bind (n := 0) (k := 0) (openScope_founds h unit henv site.args) fun scope e₁ _ => .get ?_)
  have hrest (completion : Option Nat) (e₂ : Engine) : Founds heap 0 (do
      enterTrace ⟨unit.name, unit.file, unit.line⟩
      let savedScope := (← get).scopes.size
      modify (enterScope scope)
      return ({ unit, next := 0, receiver := e.boundReceiver unit site.receiver, scope, completion,
                base := site.base, savedScope, handlers := [] } : CallFrame)) e₂ :=
    .after (enterTrace_heap _ e₂) fun _ _ _ => .get (.of_heap rfl)
  by_cases hscript : unit.isScript = true
  · rw [if_pos hscript]
    exact .after (push_heap _ e₁) fun _ e₂ _ => hrest _ e₂
  · rw [if_neg hscript]
    exact hrest _ e₁

theorem callSite_callee (argc : Nat) (e : Engine) :
    Ensures (callSite argc) (fun site e' => e' = e ∧ ∃ value, e.callee value = .ok site.callee) (fun _ e' => e' = e) e := by
  refine .get ?_
  split
  · exact .bind (.fault rfl)
  · refine .bind (.pure ?_)
    split
    · exact .fault rfl
    · next hc => exact .pure ⟨rfl, _, hc⟩

theorem Founded.callee {value : Value} {unit : CodeUnit} {env : Handle} (h : e.Founded)
    (hc : e.callee value = .ok (.closure unit env)) : ∃ around, e.heap.environment? env = some around := by
  simp only [Engine.callee] at hc
  split at hc
  · cases hc
  · rename_i ho
    cases hc
    obtain ⟨a, -, ha⟩ := Option.bind_eq_some_iff.mp ho
    obtain ⟨s, hs, hcell⟩ := Heap.slot?_of_cell? (Heap.object?_eq_some.mp ha)
    exact h.base a s env hs (by rw [hcell]; rfl)
  · cases hc

end Calls

end Engine

namespace Loop

open Engine

variable {frame : CallFrame} {callers : List CallFrame} {e : Engine} {n : Nat}

theorem simple_founds (h : e.Founded) (instr : Instr) : Founds Engine.heap 0 (simple frame instr) e := by
  obtain ⟨around, henv⟩ := h.env
  have hpopped (e : Engine) : (stateOf (popped e)).heap = e.heap := rfl
  cases instr with
  | undefined | null | boolean | number | string | this => exact push_founds _
  | getVar name => exact .get (.after (ask_heap _ e) fun _ _ _ => push_founds _)
  | setVar name =>
    exact .after (peek_heap e) fun _ e₁ _ => .get (change_founds fun _ hc => Heap.Grows.refl.assign hc)
  | defineVar name => exact .after (hpopped e) fun _ e₁ _ => change_founds fun _ hc => Heap.Grows.refl.define hc
  | declareVar name =>
    exact change_founds (f := (Environment.declare · frame.scope name)) fun _ hc => Heap.Grows.refl.declare hc
  | closure index =>
    simp only [simple]
    cases frame.unit.functions[index]? with
    | none => exact .throw _
    | some unit =>
      have hmade : Founds Engine.heap 0 (modifyGet (closureOf unit e.env) : EngineM Value) e :=
        Heap.Grows.refl.alloc (Heap.founded_of_base rfl henv)
      exact .get (Founds.bind (k := 0) hmade fun _ _ _ => push_founds _)
  | newObject =>
    have hmade : Founds Engine.heap 0 (modifyGet (newObject (.of .plain)) : EngineM Value) e := Heap.Grows.refl.allocObject rfl
    exact Founds.bind (k := 0) hmade fun _ _ _ => push_founds _
  | initProp name => exact .after (hpopped e) fun _ e₁ _ => .after (peek_heap e₁) fun _ _ _ => setProperty_founds _ _ _
  | getProp name => exact .after (hpopped e) fun _ e₁ _ => .after (ask_heap _ e₁) fun _ _ _ => push_founds _
  | setProp name =>
    exact .after (hpopped e) fun v e₁ _ => .after (hpopped e₁) fun t e₂ _ =>
      Founds.bind (n := 0) (k := 0) (setProperty_founds t name v) fun _ _ _ => push_founds _
  | getIndex =>
    exact .after (hpopped e) fun _ e₁ _ => .after (hpopped e₁) fun _ e₂ _ => .get <| .after (ask_heap _ e₂) fun _ _ _ =>
      push_founds _
  | setIndex =>
    exact .after (hpopped e) fun v e₁ _ => .after (hpopped e₁) fun _ e₂ _ => .after (hpopped e₂) fun t e₃ _ =>
      .get (Founds.bind (n := 0) (k := 0) (setProperty_founds t _ v) fun _ _ _ => push_founds _)
  | getMethod name =>
    exact .after (hpopped e) fun t e₁ _ => .after (ask_heap _ e₁) fun v e₂ _ => .after (push_heap v e₂) fun _ _ _ =>
      push_founds _
  | pop => exact .after (hpopped e) fun _ _ _ => .pure _
  | setCompletion =>
    refine .after (hpopped e) fun _ e₁ _ => ?_
    cases frame.completion with
    | none => exact .pure _
    | some slot => exact .of_heap rfl
  | negate => exact .after (hpopped e) fun _ _ _ => push_founds _
  | not => exact .after (hpopped e) fun _ _ _ => push_founds _
  | typeof => exact .after (hpopped e) fun _ _ _ => .get (push_founds _)
  | binary op => exact .after (hpopped e) fun _ e₁ _ => .after (hpopped e₁) fun _ _ _ => .get (push_founds _)
  | throw => exact .after (hpopped e) fun _ _ _ => .get (.throw _)
  | enterCatch name =>
    refine .after (hpopped e) ?_
    rintro thrown e₁ ⟨⟩
    have hopened : e.heap.Grows 0 (Environment.alloc e.heap none (some e.env)).2 := Heap.Grows.refl.environment h.tidy henv
    refine .get (Founds.bind (n := 0) (k := 0) hopened fun _ e₂ _ => ?_)
    exact Founds.bind (n := 0) (k := 0) (change_founds fun _ hc => Heap.Grows.refl.define hc) fun _ _ _ => .of_heap rfl
  | exitCatch =>
    refine .of_heap ?_
    show e.leaveScope.heap = e.heap
    simp only [leaveScope]
    split <;> rfl
  | call | jump | jumpIfFalse | jumpIfFalseKeep | jumpIfTrueKeep | «return» | «try» | leave => exact .pure _

theorem leaveAll_heap (handlers : List Handler) (e : Engine) : (stateOf (leaveAll handlers e)).heap = e.heap := by
  induction handlers generalizing e with
  | nil => rfl
  | cons handler handlers ih =>
    have hleft := leaveProtected_heap handler.scope e
    simp only [leaveAll]
    cases hr : leaveProtected handler.scope e with
    | ok _ e₁ =>
      rw [hr] at hleft
      rw [bind_of_ok hr, ih e₁]
      exact hleft
    | error error e₁ =>
      rw [hr] at hleft
      rw [bind_of_error hr]
      exact hleft

theorem within_founds {α : Type} {x : EngineM α} {s : Loop} (hx : Founds Engine.heap n x s.engine) :
    Founds heap n (within x) s := by
  unfold Founds
  simp only [within]
  cases hr : x s.engine with
  | ok a e => exact hx.returned hr
  | error error e => exact hx.failed hr

theorem within_heap {α : Type} {x : EngineM α} {s : Loop} (hx : (stateOf (x s.engine)).heap = s.engine.heap) :
    heap (stateOf (within x s)) = heap s := by
  simp only [within]
  cases hr : x s.engine <;> rw [hr] at hx <;> exact hx

theorem within_eq_ok {α : Type} {x : EngineM α} {s t : Loop} {a : α} (h : within x s = .ok a t) :
    ∃ e', x s.engine = .ok a e' ∧ t = ⟨e', s.frames⟩ := by
  simp only [within] at h
  split at h
  · next hr =>
    cases h
    exact ⟨_, hr, rfl⟩
  · cases h

theorem returnFrom_founds (frame : CallFrame) (callers : List CallFrame) (returned : Option Value) (s : Loop) :
    Founds heap 0 (returnFrom frame callers returned) s := by
  refine .after rfl fun _ s₁ _ => .after (within_heap (leaveAll_heap _ _)) fun _ s₂ _ => .get ?_
  refine .after rfl fun _ s₃ _ => ?_
  split
  · exact .pure _
  · exact .after rfl fun _ s₄ _ => .after (within_heap (push_heap _ _)) fun _ _ _ => .pure _

theorem call_founds (h : e.Founded) (argc : Nat) (frames : List CallFrame) :
    Founds heap 1 (call callers argc) ⟨e, frames⟩ := by
  have hsite := callSite_callee argc e
  have hsame : (stateOf (callSite argc e)).heap = e.heap :=
    Ensures.state (P := fun e' : Engine => e'.heap = e.heap) (hsite.mono (fun _ _ h => h.1 ▸ rfl) fun _ _ h => h ▸ rfl)
  refine .after (within_heap hsame) fun site s₁ hcalled => ?_
  obtain ⟨e₁, hs, rfl⟩ := within_eq_ok hcalled
  obtain ⟨rfl, value, hcallee⟩ := hsite.ok hs
  obtain ⟨base, receiver, args, callee⟩ := site
  cases callee with
  | closure unit env =>
    obtain ⟨around, henv⟩ := h.callee hcallee
    have hentered := enterClosure_founds h unit henv ⟨base, receiver, args, .closure unit env⟩
    exact Founds.bind (k := 1) (within_founds hentered) fun _ _ _ => .of_heap rfl
  | native f =>
    have hnative := callNative_founds h f args
    refine .get ?_
    dsimp only
    cases hr : callNative f args e₁ with
    | error error e₂ =>
      have hgrows : e₁.heap.Grows 1 e₂.heap := hnative.failed hr
      exact hgrows
    | ok result e₂ =>
      have hgrows : e₁.heap.Grows 1 e₂.heap := hnative.returned hr
      cases result with
      | run closure => exact hgrows
      | value v =>
        have hset : Founds heap 1 (set (⟨e₂.cutStack base, frames⟩ : Loop) : LoopM PUnit) ⟨e₁, frames⟩ := hgrows
        exact hset.bind (k := 0) fun _ _ _ => .after (within_heap (push_heap _ _)) fun _ _ _ => .pure _

theorem execute_founds (h : e.Founded) (frame : CallFrame) (callers frames : List CallFrame) (instr : Instr) :
    Founds heap 1 (execute frame callers instr) ⟨e, frames⟩ := by
  have hpop (s : Loop) : heap (stateOf (within popped s)) = heap s := rfl
  have hsimple (instr : Instr) : Founds heap 1 (within (simple frame instr) >>= fun _ => pure Signal.proceed) ⟨e, frames⟩ :=
    Founds.bind (k := 1) (within_founds (simple_founds h instr)) fun _ _ _ => .pure _
  cases instr with
  | call argc => exact call_founds h argc frames
  | jump target => exact .of_heap rfl
  | jumpIfFalse target =>
    refine .after (hpop _) fun v s₁ _ => ?_
    split
    · exact .of_heap rfl
    · exact .of_heap rfl
  | jumpIfFalseKeep target =>
    refine .after (within_heap (peek_heap e)) fun v s₁ _ => ?_
    split
    · exact .of_heap rfl
    · exact .of_heap rfl
  | jumpIfTrueKeep target =>
    refine .after (within_heap (peek_heap e)) fun v s₁ _ => ?_
    split
    · exact .of_heap rfl
    · exact .of_heap rfl
  | «return» =>
    exact .after (hpop _) fun v s₁ _ => Heap.Grows.mono (returnFrom_founds frame callers (some v) s₁) (Nat.zero_le 1)
  | «try» catchAt exitAt =>
    have hentered : (stateOf (enterProtected e)).heap = e.heap := by
      rw [enterProtected_eq]
      split <;> rfl
    exact .after (within_heap hentered) fun _ _ _ => .of_heap rfl
  | leave =>
    simp only [execute]
    cases frame.handlers with
    | nil => exact .throw _
    | cons handler handlers =>
      exact .after rfl fun _ s₁ _ => .after (within_heap (leaveProtected_heap _ _)) fun _ _ _ => .of_heap rfl
  | _ => exact hsimple _

theorem step_founds (h : e.Founded) (frames : List CallFrame) : Founds heap 1 step ⟨e, frames⟩ := by
  refine .get ?_
  cases frames with
  | nil => exact .pure _
  | cons frame callers =>
    dsimp only
    cases frame.unit.code[frame.next]? with
    | none => exact Heap.Grows.mono (returnFrom_founds frame callers none _) (Nat.zero_le 1)
    | some instr =>
      dsimp only
      split
      · rename_i line _
        refine .after rfl ?_
        rintro _ s₁ ⟨⟩
        refine .after rfl ?_
        rintro _ s₂ ⟨⟩
        have hfounded : (e.atLine line).Founded := h.keeps rfl rfl rfl
        exact execute_founds hfounded _ callers _ instr
      · refine .after rfl ?_
        rintro _ s₁ ⟨⟩
        exact execute_founds h _ callers _ instr

end Loop

namespace Machine

open Engine

variable {tasks : List Task} {e : Engine}

theorem raise_grows (entry : Entry) (error : Error) (tasks : List Task) (s : Loop) :
    s.heap.Grows 1 (raise entry error tasks s).engine.heap := by
  simp only [raise]
  cases hc : Loop.catch? error s.engine s.frames with
  | some s' =>
    obtain ⟨id, he⟩ := Loop.catch?_unwinds hc
    simp only [he]
    exact unwind_grows id error s.engine
  | none =>
    have hgrows := exceptionValue_grows error { s.engine with loops := s.engine.loops - 1 }
    simp only [failLoop]
    cases error.carried? with
    | some value => exact .refl
    | none => exact hgrows.mono (Nat.zero_le 1)

theorem start_grows (h : e.Founded) (argc : Nat) (tasks : List Task) :
    e.heap.Grows 2 (start argc tasks e).engine.heap := by
  have hsite := callSite_callee argc e
  simp only [start]
  cases hs : callSite argc e with
  | error error e₁ =>
    obtain rfl := hsite.error hs
    exact .refl
  | ok site e₁ =>
    obtain ⟨rfl, value, hcallee⟩ := hsite.ok hs
    obtain ⟨base, receiver, args, callee⟩ := site
    cases callee with
    | native f =>
      have hnative := callNative_founds h f args
      simp only
      cases hr : callNative f args e₁ with
      | error error e₂ => exact (hnative.failed hr).mono (by omega)
      | ok result e₂ => cases result <;> exact (hnative.returned hr).mono (by omega)
    | closure unit env =>
      simp only
      split
      · exact .refl
      · obtain ⟨around, henv⟩ := h.callee hcallee
        have hdeeper : Founded { e₁ with loops := e₁.loops + 1 } := h.keeps rfl rfl rfl
        have hentered := enterClosure_founds hdeeper unit henv ⟨base, receiver, args, .closure unit env⟩
        split
        · rename_i hr
          exact (hentered.returned hr).mono (by omega)
        · rename_i frame e₂ hr
          exact ((hentered.failed hr).trans (raise_grows _ _ tasks ⟨e₂, []⟩)).mono (by omega)

theorem call_grows (h : e.Founded) (receiver callee : Value) (args : List Value) (tasks : List Task) :
    e.heap.Grows 2 (call receiver callee args tasks e).engine.heap := by
  simp only [call]
  cases hb : beginProtected e with
  | error error e₁ =>
    obtain ⟨-, rfl⟩ := (beginProtected_ensures e).error hb
    simp only [carry_heap]
    exact Heap.Grows.mono (exceptionValue_grows error e) (by omega)
  | ok scope e₁ =>
    have hheap := beginProtected_heap hb
    have hpushed := pushAll_heap (callee :: receiver :: args) e₁
    have hx := pushAll_ensures (callee :: receiver :: args) e₁
    simp only
    cases hp : pushAll (callee :: receiver :: args) e₁ with
    | error error e₂ =>
      rw [hp] at hpushed
      rw [show e₂.heap = e.heap from hpushed.trans hheap]
      exact .refl
    | ok _ e₂ =>
      rw [hp] at hpushed
      obtain ⟨ha, hl⟩ := hx.ok hp
      have hfounded := (h.begun hb).keeps hpushed ha.fixed (congrArg Level.env hl)
      rw [← show e₂.heap = e.heap from hpushed.trans hheap]
      exact start_grows hfounded args.length _

theorem resume_grows (result : Except Error Value) (tasks : List Task) (e : Engine) (task : Task) :
    e.heap.Grows 2 (resume result tasks e task).engine.heap := by
  cases task with
  | guard scope =>
    have hended := endProtected_grows scope (resultIn e result)
    rw [stateOf_resultIn, ← carried_heap] at hended
    simp only [resume]
    cases hr : carried (endProtected scope (resultIn e result)) with
    | ok v e₁ =>
      rw [hr] at hended
      exact hended.mono (by omega)
    | error error e₁ =>
      rw [hr] at hended
      exact hended.mono (by omega)
  | native base => exact .refl
  | loop entry frames =>
    cases result with
    | error error => exact (raise_grows entry error tasks ⟨e, frames⟩).mono (by omega)
    | ok v =>
      simp only [resume, push_eq]
      split
      · rename_i hx
        split at hx <;> cases hx
        exact .refl
      · rename_i hx
        split at hx <;> cases hx
        exact (raise_grows entry _ tasks ⟨e, frames⟩).mono (by omega)

theorem step_grows {m : Machine} (h : m.engine.Founded) : m.engine.heap.Grows 2 m.step.engine.heap := by
  obtain ⟨e, tasks, control⟩ := m
  cases control with
  | calling receiver callee args => exact call_grows h receiver callee args tasks
  | returning result =>
    cases tasks with
    | nil => exact .refl
    | cons task tasks => exact resume_grows result tasks e task
  | running entry frames =>
    have hstep := Loop.step_founds h frames
    simp only [Machine.step]
    cases hs : Loop.step ⟨e, frames⟩ with
    | ok signal s => cases signal <;> exact (hstep.returned hs).mono (by omega)
    | error error s => exact (hstep.failed hs).trans (raise_grows entry error tasks s)

end Machine

end ScriptEngine
