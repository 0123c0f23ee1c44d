import ScriptEngine.Proofs.Engine.Likeness
import ScriptEngine.Proofs.Machine.Succession

/-!
Two machines that differ in the handles of their cells only make the same steps. The receiver and
the scope of a frame are found on the stack and in the chain of scopes, so they need not be compared
for the frames that wait.
-/

namespace ScriptEngine

def CallFrame.Twin (g g' : CallFrame) : Prop :=
  { g with receiver := g'.receiver, scope := g'.scope } = g'

structure CallFrame.Alike (ρ : Renaming) (g g' : CallFrame) : Prop where
  twin : g.Twin g'
  receiver : g.receiver.Alike ρ g'.receiver
  scope : ρ.scope g.scope g'.scope

inductive Callee.Alike (ρ : Renaming) : Callee → Callee → Prop
  | native (f : Builtin) : Alike ρ (.native f) (.native f)
  | closure (unit : CodeUnit) {env env' : Handle} : ρ.scope env env' → Alike ρ (.closure unit env) (.closure unit env')

structure CallSite.Alike (ρ : Renaming) (s s' : CallSite) : Prop where
  base : s.base = s'.base
  receiver : s.receiver.Alike ρ s'.receiver
  args : List.Forall₂ (Value.Alike ρ) s.args s'.args
  callee : s.callee.Alike ρ s'.callee

inductive Signal.Alike (ρ : Renaming) : Signal → Signal → Prop
  | proceed : Alike ρ .proceed .proceed
  | finished {v v' : Value} : v.Alike ρ v' → Alike ρ (.finished v) (.finished v')
  | evaluate {v v' : Value} (base : Nat) : v.Alike ρ v' → Alike ρ (.evaluate v base) (.evaluate v' base)

namespace CallFrame.Twin

variable {g g' : CallFrame}

theorem unit (h : g.Twin g') : g'.unit = g.unit := by rw [← h]

theorem next (h : g.Twin g') : g'.next = g.next := by rw [← h]

theorem completion (h : g.Twin g') : g'.completion = g.completion := by rw [← h]

theorem base (h : g.Twin g') : g'.base = g.base := by rw [← h]

theorem savedScope (h : g.Twin g') : g'.savedScope = g.savedScope := by rw [← h]

theorem handlers (h : g.Twin g') : g'.handlers = g.handlers := by rw [← h]

theorem goto (h : g.Twin g') (next : Nat) : Twin { g with next } { g' with next } := by
  rw [← h]
  rfl

theorem handling (h : g.Twin g') (handlers : List Handler) : Twin { g with handlers } { g' with handlers } := by
  rw [← h]
  rfl

end CallFrame.Twin

namespace Engine

variable {k : Nat} {ρ : Renaming} {e e' : Engine}

namespace Alike

theorem callee {v v' : Value} (he : e.Alike k ρ e') (hv : v.Alike ρ v') :
    Agree (Callee.Alike ρ) (e.callee v) (e'.callee v') := by
  have hd := he.display hv
  simp only [Engine.callee, hd]
  cases hv with
  | plain hp =>
    simp only [hp, Option.bind_none]
    exact .error rfl
  | object ha =>
    obtain ⟨o, o', ho, ho', hoo⟩ := he.heap.graph.object ha
    simp only [Value.handle?, Option.bind_some, ho, ho']
    have hkind := hoo.kind
    obtain ⟨kind, _, _⟩ := o
    obtain ⟨kind', _, _⟩ := o'
    cases hkind with
    | plain | error => exact .error rfl
    | native f => exact .ok (.native f)
    | closure u hs => exact .ok (.closure u hs)

theorem callSite (he : e.Alike k ρ e') (argc : Nat) : Same k ρ (CallSite.Alike ρ) (callSite argc e) (callSite argc e') := by
  have hsize := he.akin.stack_size
  have hslot (i : Nat) : (e.stack[i]?.getD .undefined).Alike ρ (e'.stack[i]?.getD .undefined) :=
    rel_getD (he.akin.slot i) (.plain rfl)
  refine .get ?_
  rw [← hsize]
  by_cases hlt : e.stack.size < argc + 2
  · simp only [if_pos hlt]
    exact .error ⟨he, .fault rfl⟩
  · simp only [if_neg hlt]
    have hc := he.callee (hslot (e.stack.size - (argc + 2)))
    generalize e.callee _ = found at hc ⊢
    generalize e'.callee _ = found' at hc ⊢
    cases hc with
    | error hf => exact .error ⟨he, .fault hf⟩
    | ok hc =>
      refine .ok ⟨he, rfl, hslot _, ?_, hc⟩
      simpa using List.forall₂_take _ (List.forall₂_drop _ he.akin.stack)

theorem bindParams {env env' : Handle} {h h' : Heap} {args args' : List Value} (hh : h.Alike k ρ h')
    (hs : ρ.scope env env') (ha : List.Forall₂ (Value.Alike ρ) args args') (names : List String) :
    Agree (Heap.Alike k ρ) (bindParams env names args h) (bindParams env' names args' h') := by
  induction names generalizing args args' h h' with
  | nil => exact .ok hh
  | cons name names ih =>
    refine (hh.define hs name (headD_of_alike ha)).bind fun h₁ h₁' hh₁ => ih hh₁ ?_
    cases ha with
    | nil => exact .nil
    | cons _ ha => exact ha

theorem openScope {env env' : Handle} {args args' : List Value} (he : e.Alike k ρ e') (unit : CodeUnit)
    (hs : ρ.scope env env') (ha : List.Forall₂ (Value.Alike ρ) args args') :
    Like k Renaming.scope (openScope unit env args e) (openScope unit env' args' e') := by
  simp only [Engine.openScope]
  by_cases hscript : unit.isScript = true
  · simp only [if_pos hscript]
    exact .ok ⟨ρ, he, hs⟩
  · simp only [if_neg hscript]
    obtain ⟨ρ₁, hρ₁, hh, hnew⟩ := he.heap.openScope hs
    have he₁ := he.withHeap hρ₁ hh
    exact (he₁.change (bindParams he₁.heap hnew (ha.imp fun _ _ hv => hv.mono hρ₁) unit.params)).bind
      fun _ _ _ _ he₂ _ => .ok ⟨ρ₁, he₂, hnew⟩

theorem enterClosure {env env' : Handle} {site site' : CallSite} (he : e.Alike k ρ e') (unit : CodeUnit)
    (hs : ρ.scope env env') (hsite : site.Alike ρ site') :
    Like k (fun _ => CallFrame.Twin) (enterClosure unit env site e) (enterClosure unit env' site' e') := by
  refine .get ?_
  refine Both.bind (he.openScope unit hs hsite.args) ?_ fun _ _ _ _ h => h
  rintro scope e₁ scope' e₁' ⟨ρ₁, he₁, hscope⟩
  refine .get ?_
  have hrest (completion : Option Nat) {e₂ e₂' : Engine} (he₂ : e₂.Alike k ρ₁ e₂') :
      Like k (fun _ => CallFrame.Twin)
        ((do
          Engine.enterTrace ⟨unit.name, unit.file, unit.line⟩
          let savedScope := (← get).scopes.size
          modify (Engine.enterScope scope)
          return ({ unit, next := 0, receiver := e.boundReceiver unit site.receiver, scope, completion,
                    base := site.base, savedScope, handlers := [] } : CallFrame) : EngineM CallFrame) e₂)
        ((do
          Engine.enterTrace ⟨unit.name, unit.file, unit.line⟩
          let savedScope := (← get).scopes.size
          modify (Engine.enterScope scope')
          return ({ unit, next := 0, receiver := e'.boundReceiver unit site'.receiver, scope := scope', completion,
                    base := site'.base, savedScope, handlers := [] } : CallFrame) : EngineM CallFrame) e₂') := by
    refine (he₂.enterTrace _).bind fun _ _ e₃ e₃' he₃ _ => .get (.modified (.ok ⟨ρ₁, he₃.enterScope hscope, ?_⟩))
    simp only [CallFrame.Twin, he₃.akin.scopes_size, hsite.base]
  have hsize := he₁.akin.stack_size
  by_cases hscript : unit.isScript = true
  · simp only [if_pos hscript]
    refine (he₁.push (.plain rfl)).bind fun _ _ e₂ e₂' he₂ _ => ?_
    rw [hsize]
    exact hrest _ he₂
  · simp only [if_neg hscript]
    exact hrest none he₁

end Alike

end Engine

namespace Loop

open Engine

variable {k : Nat} {ρ : Renaming} {e e' : Engine} {frame frame' : CallFrame}

theorem simple_like (he : e.Alike k ρ e') (hf : frame.Alike ρ frame') (instr : Instr) :
    Engine.Like k (fun _ _ _ => True) (simple frame instr e) (simple frame' instr e') := by
  have hpush {v v' : Value} {e e' : Engine} (he : e.Alike k ρ e') (hv : v.Alike ρ v') :
      Engine.Like k (fun _ _ _ => True) (push v e) (push v' e') := (he.push hv).like fun _ _ _ => trivial
  have hchange {f g : Heap → Except Fault Heap} {e e' : Engine} (he : e.Alike k ρ e')
      (h : Agree (Heap.Alike k ρ) (f e.heap) (g e'.heap)) :
      Engine.Like k (fun _ _ _ => True) (EngineM.change f e) (EngineM.change g e') :=
    (he.change h).like fun _ _ _ => trivial
  cases instr with
  | undefined | null | boolean | number | string => exact hpush he (.plain rfl)
  | this => exact hpush he hf.receiver
  | getVar name =>
    refine .get ?_
    exact (he.ask (he.heap.get he.akin.env name)).bind fun v v' e₁ e₁' he₁ hv => hpush he₁ hv
  | setVar name =>
    refine he.peek.bind fun v v' e₁ e₁' he₁ hv => .get ?_
    rw [hf.twin.unit]
    exact hchange he₁ (he₁.heap.assign he₁.akin.env name hv _)
  | defineVar name =>
    refine he.popped.bind fun v v' e₁ e₁' he₁ hv => ?_
    exact hchange he₁ (he₁.heap.define hf.scope name hv)
  | declareVar name =>
    simp only [simple]
    exact hchange he (he.heap.declare hf.scope name)
  | closure index =>
    simp only [simple, hf.twin.unit]
    cases frame.unit.functions[index]? with
    | none => exact .error ⟨ρ, he, .fault rfl⟩
    | some unit =>
      refine .get ?_
      obtain ⟨ρ₁, -, he₁, hv⟩ := he.closureOf he.akin.env unit
      exact (he₁.push hv).like fun _ _ _ => trivial
  | newObject =>
    have hplain : (Object.of .plain).Alike ρ (.of .plain) := ⟨.plain, ⟨rfl, rfl⟩, .nil⟩
    obtain ⟨ρ₁, -, he₁, hv⟩ := he.newObject hplain
    exact (he₁.push hv).like fun _ _ _ => trivial
  | initProp name =>
    refine he.popped.bind fun v v' e₁ e₁' he₁ hv => ?_
    refine he₁.peek.bind fun t t' e₂ e₂' he₂ ht => ?_
    exact hchange he₂ (he₂.heap.setProperty ht name hv)
  | getProp name =>
    refine he.popped.bind fun t t' e₁ e₁' he₁ ht => ?_
    exact (he₁.ask (he₁.heap.getProperty ht name)).bind fun v v' e₂ e₂' he₂ hv => hpush he₂ hv
  | setProp name =>
    refine he.popped.bind fun v v' e₁ e₁' he₁ hv => ?_
    refine he₁.popped.bind fun t t' e₂ e₂' he₂ ht => ?_
    exact (he₂.change (he₂.heap.setProperty ht name hv)).bind fun _ _ e₃ e₃' he₃ _ => hpush he₃ hv
  | getIndex =>
    refine he.popped.bind fun i i' e₁ e₁' he₁ hi => ?_
    refine he₁.popped.bind fun t t' e₂ e₂' he₂ ht => .get ?_
    rw [he₂.display hi]
    exact (he₂.ask (he₂.heap.getProperty ht _)).bind fun v v' e₃ e₃' he₃ hv => hpush he₃ hv
  | setIndex =>
    refine he.popped.bind fun v v' e₁ e₁' he₁ hv => ?_
    refine he₁.popped.bind fun i i' e₂ e₂' he₂ hi => ?_
    refine he₂.popped.bind fun t t' e₃ e₃' he₃ ht => .get ?_
    rw [he₃.display hi]
    exact (he₃.change (he₃.heap.setProperty ht _ hv)).bind fun _ _ e₄ e₄' he₄ _ => hpush he₄ hv
  | getMethod name =>
    refine he.popped.bind fun t t' e₁ e₁' he₁ ht => ?_
    refine (he₁.ask (he₁.heap.getProperty ht name)).bind fun v v' e₂ e₂' he₂ hv => ?_
    exact (he₂.push hv).bind fun _ _ e₃ e₃' he₃ _ => hpush he₃ ht
  | pop => exact he.popped.bind fun v v' e₁ e₁' he₁ _ => .ok ⟨ρ, he₁, trivial⟩
  | setCompletion =>
    refine he.popped.bind fun v v' e₁ e₁' he₁ hv => ?_
    rw [hf.twin.completion]
    cases frame.completion with
    | none => exact .ok ⟨ρ, he₁, trivial⟩
    | some slot =>
      have hs : List.Forall₂ (Value.Alike ρ) (e₁.stack.setIfInBounds slot v).toList
          (e₁'.stack.setIfInBounds slot v').toList := by
        simpa using forall₂_set he₁.akin.stack hv slot
      exact .ok ⟨ρ, he₁.withStack hs, trivial⟩
  | negate =>
    refine he.popped.bind fun v v' e₁ e₁' he₁ hv => ?_
    rw [hv.toNumber]
    exact hpush he₁ (.plain rfl)
  | not =>
    refine he.popped.bind fun v v' e₁ e₁' he₁ hv => ?_
    rw [hv.truthy]
    exact hpush he₁ (.plain rfl)
  | typeof =>
    refine he.popped.bind fun v v' e₁ e₁' he₁ hv => .get ?_
    rw [he₁.heap.typeOf hv]
    exact hpush he₁ (.plain rfl)
  | binary op =>
    refine he.popped.bind fun v v' e₁ e₁' he₁ hv => ?_
    refine he₁.popped.bind fun w w' e₂ e₂' he₂ hw => .get ?_
    exact hpush he₂ (he₂.heap.binary op hw hv)
  | throw =>
    refine he.popped.bind fun v v' e₁ e₁' he₁ hv => .get ?_
    rw [he₁.display hv]
    exact .error ⟨ρ, he₁, .thrown hv _⟩
  | enterCatch name =>
    refine he.popped.bind fun v v' e₁ e₁' he₁ hv => .get (.set ?_)
    obtain ⟨ρ₁, hρ₁, hh, hs⟩ := he₁.heap.openScope he₁.akin.env
    have he₂ := he₁.withHeap hρ₁ hh
    exact (he₂.change (he₂.heap.define hs name (hv.mono hρ₁))).bind fun _ _ e₃ e₃' he₃ _ =>
      .ok ⟨ρ₁, he₃.enterScope hs, trivial⟩
  | exitCatch => exact .ok ⟨ρ, he.leaveScope, trivial⟩
  | call | jump | jumpIfFalse | jumpIfFalseKeep | jumpIfTrueKeep | «return» | «try» | leave =>
    exact .ok ⟨ρ, he, trivial⟩

abbrev Like {α β : Type} (k : Nat) (V : Renaming → α → β → Prop) :
    EStateM.Result Error Loop α → EStateM.Result Error Loop β → Prop :=
  Both
    (fun a s b t => ∃ ρ, s.engine.Alike k ρ t.engine ∧ List.Forall₂ CallFrame.Twin s.frames t.frames ∧ V ρ a b)
    (fun x s y t => ∃ ρ, s.engine.Alike k ρ t.engine ∧ List.Forall₂ CallFrame.Twin s.frames t.frames ∧ x.Alike ρ y)

section Rules

variable {α β γ δ : Type} {V : α → β → Prop} {U : Renaming → α → β → Prop} {W : Renaming → γ → δ → Prop}
  {x : EngineM α} {y : EngineM β} {f : α → LoopM γ} {g : β → LoopM δ} {frames frames' : List CallFrame}

theorem Like.less {r : EStateM.Result Error Loop γ} {r' : EStateM.Result Error Loop δ} (h : Like (k + 1) W r r') :
    Like k W r r' :=
  Both.mono h (fun _ _ _ _ ⟨ρ, he, hW⟩ => ⟨ρ, he.less, hW⟩) fun _ _ _ _ ⟨ρ, he, hx⟩ => ⟨ρ, he.less, hx⟩

theorem Like.after {Q : α → Engine → β → Engine → Prop}
    (h : Both Q (fun x e y e' => ∃ ρ, e.Alike k ρ e' ∧ x.Alike ρ y) (x e) (y e'))
    (hfr : List.Forall₂ CallFrame.Twin frames frames')
    (hf : ∀ a e b e', Q a e b e' → Like k W (f a ⟨e, frames⟩) (g b ⟨e', frames'⟩)) :
    Like k W ((within x >>= f) ⟨e, frames⟩) ((within y >>= g) ⟨e', frames'⟩) := by
  show Like k W (EStateM.bind (within x) f _) (EStateM.bind (within y) g _)
  simp only [EStateM.bind, within]
  generalize x e = r at h ⊢
  generalize y e' = r' at h ⊢
  cases h with
  | ok h => exact hf _ _ _ _ h
  | error h =>
    obtain ⟨ρ, he, hx⟩ := h
    exact .error ⟨ρ, he, hfr, hx⟩

theorem Like.same (h : Engine.Same k ρ V (x e) (y e')) (hfr : List.Forall₂ CallFrame.Twin frames frames')
    (hf : ∀ a b e e', e.Alike k ρ e' → V a b → Like k W (f a ⟨e, frames⟩) (g b ⟨e', frames'⟩)) :
    Like k W ((within x >>= f) ⟨e, frames⟩) ((within y >>= g) ⟨e', frames'⟩) :=
  Like.after (Both.mono h (fun _ _ _ _ h => h) fun _ _ _ _ h => ⟨ρ, h⟩) hfr fun _ _ _ _ h => hf _ _ _ _ h.1 h.2

theorem Like.updated {u v : Engine → Engine} {f : PUnit → LoopM γ} {g : PUnit → LoopM δ}
    (h : Like k W (f ⟨⟩ ⟨u e, frames⟩) (g ⟨⟩ ⟨v e', frames'⟩)) :
    Like k W ((update u >>= f) ⟨e, frames⟩) ((update v >>= g) ⟨e', frames'⟩) := h

theorem Like.framed {fs fs' : List CallFrame} {f : PUnit → LoopM γ} {g : PUnit → LoopM δ}
    (h : Like k W (f ⟨⟩ ⟨e, fs⟩) (g ⟨⟩ ⟨e', fs'⟩)) :
    Like k W ((setFrames fs >>= f) ⟨e, frames⟩) ((setFrames fs' >>= g) ⟨e', frames'⟩) := h

end Rules

section Instructions

variable {callers callers' frames frames' : List CallFrame}

theorem leaveAll_like (he : e.Alike k ρ e') (handlers : List Handler) :
    Engine.Same k ρ (fun _ _ => True) (leaveAll handlers e) (leaveAll handlers e') := by
  induction handlers generalizing e e' with
  | nil => exact .ok ⟨he, trivial⟩
  | cons handler handlers ih =>
    exact Both.bind (he.leaveProtected handler.scope) (fun _ _ _ _ h => ih h.1) fun _ _ _ _ h => h

theorem returnFrom_like {returned returned' : Option Value} (he : e.Alike k ρ e') (hf : frame.Twin frame')
    (hc : List.Forall₂ CallFrame.Twin callers callers') (hr : Option.Rel (Value.Alike ρ) returned returned') :
    Like k Signal.Alike (returnFrom frame callers returned ⟨e, frames⟩)
      (returnFrom frame' callers' returned' ⟨e', frames'⟩) := by
  refine Like.framed ?_
  rw [hf.handlers]
  refine Like.same (leaveAll_like he frame.handlers) hc fun _ _ e₁ e₁' he₁ _ => .get (Like.updated ?_)
  have hvalue : ((returned.or (frame.completion.bind (e₁.stack[·]?))).getD .undefined).Alike ρ
      ((returned'.or (frame'.completion.bind (e₁'.stack[·]?))).getD .undefined) := by
    rw [hf.completion]
    cases hr with
    | some hv => exact hv
    | none =>
      cases frame.completion with
      | none => exact .plain rfl
      | some slot => exact rel_getD (he₁.akin.slot slot) (.plain rfl)
  rw [hf.savedScope, hf.base]
  have he₂ := (he₁.cutScopes frame.savedScope).withTrace (·.pop)
  have hempty : callers'.isEmpty = callers.isEmpty := by cases hc <;> rfl
  rw [hempty]
  by_cases hnil : callers.isEmpty = true
  · simp only [if_pos hnil]
    exact .ok ⟨ρ, he₂, hc, .finished hvalue⟩
  · simp only [if_neg hnil]
    refine Like.updated ?_
    exact Like.same ((he₂.cutStack frame.base).push hvalue) hc fun _ _ e₃ e₃' he₃ _ => .ok ⟨ρ, he₃, hc, .proceed⟩

theorem call_like (he : e.Alike (k + 1) ρ e') (hfr : List.Forall₂ CallFrame.Twin frames frames')
    (hc : List.Forall₂ CallFrame.Twin callers callers') (argc : Nat) :
    Like k Signal.Alike (call callers argc ⟨e, frames⟩) (call callers' argc ⟨e', frames'⟩) := by
  refine Like.after (Both.mono (he.callSite argc) (fun _ _ _ _ h => h) fun _ _ _ _ h => ⟨ρ, h.1.less, h.2⟩) hfr ?_
  rintro ⟨base, receiver, args, callee⟩ e₁ ⟨base', receiver', args', callee'⟩ e₁' ⟨he₁, hsite⟩
  obtain rfl : base = base' := hsite.base
  have hcallee := hsite.callee
  cases hcallee with
  | closure unit hs =>
    refine Like.less (Like.after (he₁.enterClosure unit hs hsite) hfr ?_)
    rintro new e₂ new' e₂' ⟨ρ₂, he₂, htwin⟩
    exact .ok ⟨ρ₂, he₂, .cons htwin hc, .proceed⟩
  | native f =>
    refine .get ?_
    have hn := he₁.callNative f hsite.args
    simp only
    generalize callNative f args e₁ = r at hn ⊢
    generalize callNative f args' e₁' = r' at hn ⊢
    cases hn with
    | ok hn =>
      obtain ⟨ρ₂, he₂, hv⟩ := hn
      cases hv with
      | value hv =>
        refine .set ?_
        exact Like.same ((he₂.cutStack base).push hv) hfr fun _ _ e₃ e₃' he₃ _ => .ok ⟨ρ₂, he₃, hfr, .proceed⟩
      | run hv => exact .ok ⟨ρ₂, he₂, hfr, .evaluate base hv⟩
    | error hn =>
      obtain ⟨ρ₂, he₂, hx⟩ := hn
      exact .error ⟨ρ₂, he₂.cutStack base, hfr, hx⟩

theorem execute_like (he : e.Alike (k + 1) ρ e') (hf : frame.Alike ρ frame')
    (hc : List.Forall₂ CallFrame.Twin callers callers') (instr : Instr) :
    Like k Signal.Alike (execute frame callers instr ⟨e, frame :: callers⟩)
      (execute frame' callers' instr ⟨e', frame' :: callers'⟩) := by
  have hfr : List.Forall₂ CallFrame.Twin (frame :: callers) (frame' :: callers') := .cons hf.twin hc
  have hgoto {e e' : Engine} (he : e.Alike (k + 1) ρ e') (target : Nat) :
      Like (k + 1) Signal.Alike ((goto frame callers target >>= fun _ => pure .proceed) ⟨e, frame :: callers⟩)
        ((goto frame' callers' target >>= fun _ => pure .proceed) ⟨e', frame' :: callers'⟩) :=
    .ok ⟨ρ, he, .cons (hf.twin.goto target) hc, .proceed⟩
  have hpop {e e' : Engine} (he : e.Alike (k + 1) ρ e') :
      Like (k + 1) Signal.Alike ((within popped >>= fun _ => pure .proceed) ⟨e, frame :: callers⟩)
        ((within popped >>= fun _ => pure .proceed) ⟨e', frame' :: callers'⟩) :=
    Like.same he.popped hfr fun _ _ _ _ he₁ _ => .ok ⟨ρ, he₁, hfr, .proceed⟩
  have hsimple (instr : Instr) :
      Like k Signal.Alike ((within (simple frame instr) >>= fun _ => pure .proceed) ⟨e, frame :: callers⟩)
        ((within (simple frame' instr) >>= fun _ => pure .proceed) ⟨e', frame' :: callers'⟩) :=
    Like.less (Like.after (simple_like he hf instr) hfr fun _ _ _ _ ⟨ρ₁, he₁, _⟩ => .ok ⟨ρ₁, he₁, hfr, .proceed⟩)
  cases instr with
  | call argc => exact call_like he hfr hfr argc
  | jump target => exact Like.less (hgoto he target)
  | jumpIfFalse target =>
    refine Like.less (Like.same he.popped hfr fun v v' e₁ e₁' he₁ hv => ?_)
    rw [hv.truthy]
    cases v'.truthy with
    | false => exact hgoto he₁ target
    | true => exact .ok ⟨ρ, he₁, hfr, .proceed⟩
  | jumpIfFalseKeep target =>
    refine Like.less (Like.same he.peek hfr fun v v' e₁ e₁' he₁ hv => ?_)
    rw [hv.truthy]
    cases v'.truthy with
    | false => exact hgoto he₁ target
    | true => exact hpop he₁
  | jumpIfTrueKeep target =>
    refine Like.less (Like.same he.peek hfr fun v v' e₁ e₁' he₁ hv => ?_)
    rw [hv.truthy]
    cases v'.truthy with
    | false => exact hpop he₁
    | true => exact hgoto he₁ target
  | «return» =>
    refine Like.less (Like.same he.popped hfr fun v v' e₁ e₁' he₁ hv => ?_)
    exact returnFrom_like he₁ hf.twin hc (.some hv)
  | «try» catchAt exitAt =>
    refine Like.less (Like.same he.enterProtected hfr fun scope _ e₁ e₁' he₁ heq => ?_)
    subst heq
    refine .ok ⟨ρ, he₁, .cons ?_ hc, .proceed⟩
    rw [hf.twin.handlers]
    exact hf.twin.handling _
  | leave =>
    have hh := hf.twin.handlers
    simp only [execute]
    rw [hh]
    cases frame.handlers with
    | nil => exact .error ⟨ρ, he.less, hfr, .unbalanced⟩
    | cons handler handlers =>
      refine Like.less (Like.framed ?_)
      have ht := hf.twin.handling handlers
      refine Like.same (he.leaveProtected handler.scope) (.cons ht hc) fun _ _ e₁ e₁' he₁ _ => ?_
      exact .ok ⟨ρ, he₁, .cons (ht.goto handler.exitAt) hc, .proceed⟩
  | _ => exact hsimple _

theorem step_like (he : e.Alike (k + 1) ρ e') (hfr : List.Forall₂ CallFrame.Twin frames frames')
    (htop : ∀ g g', frames.head? = some g → frames'.head? = some g' → g.Alike ρ g') :
    Like k Signal.Alike (step ⟨e, frames⟩) (step ⟨e', frames'⟩) := by
  refine .get ?_
  cases hfr with
  | nil => exact .ok ⟨ρ, he.less, .nil, .finished (.plain rfl)⟩
  | @cons frame frame' callers callers' ht hc =>
    have hf := htop frame frame' rfl rfl
    have hcode : frame'.unit.code[frame'.next]? = frame.unit.code[frame.next]? := by rw [ht.unit, ht.next]
    have hlines : frame'.unit.lines[frame'.next]? = frame.unit.lines[frame.next]? := by rw [ht.unit, ht.next]
    have hmoved : CallFrame.Alike ρ { frame with next := frame.next + 1 } { frame' with next := frame'.next + 1 } := by
      rw [ht.next]
      exact ⟨ht.goto _, hf.receiver, hf.scope⟩
    simp only [hcode, hlines]
    cases frame.unit.code[frame.next]? with
    | none => exact Like.less (returnFrom_like he ht hc .none)
    | some instr =>
      cases frame.unit.lines[frame.next]? with
      | none => exact execute_like he hmoved hc instr
      | some line =>
        have hline : (e.atLine line).Alike (k + 1) ρ (e'.atLine line) :=
          he.withTrace fun trace => trace.modify (trace.size - 1) fun t => { t with line }
        exact execute_like hline hmoved hc instr

end Instructions

end Loop

inductive Task.Twin : Task → Task → Prop
  | guard (scope : ScopeId) : Twin (.guard scope) (.guard scope)
  | native (base : Nat) : Twin (.native base) (.native base)
  | loop (entry : Entry) {frames frames' : List CallFrame} :
      List.Forall₂ CallFrame.Twin frames frames' → Twin (.loop entry frames) (.loop entry frames')

inductive Control.Alike (ρ : Renaming) : Control → Control → Prop
  | running (entry : Entry) {frames frames' : List CallFrame} :
      List.Forall₂ CallFrame.Twin frames frames' → Alike ρ (.running entry frames) (.running entry frames')
  | calling {receiver receiver' callee callee' : Value} {args args' : List Value} : receiver.Alike ρ receiver' →
      callee.Alike ρ callee' → List.Forall₂ (Value.Alike ρ) args args' →
      Alike ρ (.calling receiver callee args) (.calling receiver' callee' args')
  | value {v v' : Value} : v.Alike ρ v' → Alike ρ (.returning (.ok v)) (.returning (.ok v'))
  | error {x y : Error} : x.Alike ρ y → Alike ρ (.returning (.error x)) (.returning (.error y))

def Machine.Alike (k : Nat) (m m' : Machine) : Prop :=
  ∃ ρ, m.engine.Alike k ρ m'.engine ∧ List.Forall₂ Task.Twin m.tasks m'.tasks ∧ m.control.Alike ρ m'.control

namespace Machine

open Engine

variable {k : Nat} {ρ : Renaming} {e e' : Engine} {x y : Error} {tasks tasks' : List Task}

theorem catch?_like {frames frames' : List CallFrame} (he : e.Alike (k + 1) ρ e') (hx : x.Alike ρ y)
    (hf : List.Forall₂ CallFrame.Twin frames frames') :
    Option.Rel (fun s t : Loop => ∃ ρ, s.engine.Alike k ρ t.engine ∧ List.Forall₂ CallFrame.Twin s.frames t.frames)
      (Loop.catch? x e frames) (Loop.catch? y e' frames') := by
  induction hf with
  | nil => exact .none
  | @cons frame frame' callers callers' ht hc ih =>
    simp only [Loop.catch?, ht.handlers]
    cases frame.handlers with
    | nil => exact ih
    | cons handler handlers =>
      obtain ⟨ρ₁, he₁, -⟩ := he.unwind hx handler.scope
      exact .some ⟨ρ₁, he₁, .cons ((ht.handling handlers).goto handler.catchAt) hc⟩

theorem failLoop_like (he : e.Alike k ρ e') (hx : x.Alike ρ y) (entry : Entry) :
    ∃ ρ', (failLoop entry x e).2.Alike k ρ' (failLoop entry y e').2 ∧
      (failLoop entry x e).1.Alike ρ' (failLoop entry y e').1 := by
  have hleft := he.withLoops (· - 1)
  have hcut {ρ : Renaming} {e e' : Engine} (he : e.Alike k ρ e') :
      ((fun e : Engine => cutStack entry.base { e with trace := e.trace.shrink entry.traceDepth })
        (e.cutScopes entry.savedScope)).Alike k ρ
      ((fun e : Engine => cutStack entry.base { e with trace := e.trace.shrink entry.traceDepth })
        (e'.cutScopes entry.savedScope)) :=
    ((he.cutScopes entry.savedScope).withTrace (·.shrink entry.traceDepth)).cutStack entry.base
  have hvalue := hx.value
  obtain ⟨ρ₁, hρ₁, he₁, hv⟩ := hleft.exceptionValue hx
  simp only [failLoop]
  cases hc : x.carried? with
  | some v =>
    cases hc' : y.carried? with
    | some v' => exact ⟨ρ, hcut hleft, hx⟩
    | none => rw [hc, hc'] at hvalue; cases hvalue
  | none =>
    cases hc' : y.carried? with
    | some v' => rw [hc, hc'] at hvalue; cases hvalue
    | none => exact ⟨ρ₁, hcut he₁, (hx.mono hρ₁).rethrown hv⟩

theorem raise_alike {s t : Loop} (he : s.engine.Alike (k + 1) ρ t.engine)
    (hf : List.Forall₂ CallFrame.Twin s.frames t.frames) (ht : List.Forall₂ Task.Twin tasks tasks') (hx : x.Alike ρ y)
    (entry : Entry) : (raise entry x tasks s).Alike k (raise entry y tasks' t) := by
  have hc := catch?_like he hx hf
  simp only [raise]
  generalize Loop.catch? x s.engine s.frames = found at hc ⊢
  generalize Loop.catch? y t.engine t.frames = found' at hc ⊢
  cases hc with
  | some hc =>
    obtain ⟨ρ₁, he₁, hf₁⟩ := hc
    exact ⟨ρ₁, he₁, ht, .running entry hf₁⟩
  | none =>
    obtain ⟨ρ₁, he₁, hx₁⟩ := failLoop_like he.less hx entry
    exact ⟨ρ₁, he₁, ht, .error hx₁⟩

theorem start_alike (he : e.Alike (k + 1) ρ e') (ht : List.Forall₂ Task.Twin tasks tasks') (argc : Nat) :
    (start argc tasks e).Alike k (start argc tasks' e') := by
  have hs := he.callSite argc
  simp only [start]
  generalize callSite argc e = r at hs ⊢
  generalize callSite argc e' = r' at hs ⊢
  cases hs with
  | error h => exact ⟨ρ, h.1.less, ht, .error h.2⟩
  | @ok site e₁ site' e₁' h =>
    obtain ⟨he₁, hsite⟩ := h
    obtain ⟨base, receiver, args, callee⟩ := site
    obtain ⟨base', receiver', args', callee'⟩ := site'
    obtain rfl : base = base' := hsite.base
    have hcallee := hsite.callee
    cases hcallee with
    | native f =>
      have hn := he₁.callNative f hsite.args
      simp only
      generalize callNative f args e₁ = r at hn ⊢
      generalize callNative f args' e₁' = r' at hn ⊢
      cases hn with
      | ok hn =>
        obtain ⟨ρ₂, he₂, hv⟩ := hn
        cases hv with
        | value hv => exact ⟨ρ₂, he₂.cutStack base, ht, .value hv⟩
        | run hv => exact ⟨ρ₂, he₂, .cons (.native base) ht, .calling (.object he₂.akin.global) hv .nil⟩
      | error hn =>
        obtain ⟨ρ₂, he₂, hx⟩ := hn
        exact ⟨ρ₂, he₂.cutStack base, ht, .error hx⟩
    | @closure unit env env' hs =>
      have hfull : (e₁'.limits.reentryLimit ≤ e₁'.loops) = (e₁.limits.reentryLimit ≤ e₁.loops) := by
        rw [he₁.akin.limits, he₁.akin.loops]
      simp only [hfull]
      split
      · exact ⟨ρ, (he₁.cutStack base).less, ht, .error (.fault rfl)⟩
      · have hentry : (⟨base, e₁'.scopes.size, e₁'.trace.size⟩ : Entry) = ⟨base, e₁.scopes.size, e₁.trace.size⟩ := by
          rw [he₁.akin.scopes_size, he₁.akin.trace]
        have hn := (he₁.withLoops (· + 1)).enterClosure unit hs hsite
        rw [hentry]
        generalize enterClosure unit env _ { e₁ with loops := e₁.loops + 1 } = r at hn ⊢
        generalize enterClosure unit env' _ { e₁' with loops := e₁'.loops + 1 } = r' at hn ⊢
        cases hn with
        | ok hn =>
          obtain ⟨ρ₃, he₃, htwin⟩ := hn
          exact ⟨ρ₃, he₃.less, ht, .running _ (.cons htwin .nil)⟩
        | error hn =>
          obtain ⟨ρ₃, he₃, hx⟩ := hn
          exact raise_alike he₃ .nil ht hx _

theorem pushAll_like {values values' : List Value} (he : e.Alike k ρ e')
    (hv : List.Forall₂ (Value.Alike ρ) values values') :
    Same k ρ (fun _ _ => True) (pushAll values e) (pushAll values' e') := by
  induction hv generalizing e e' with
  | nil => exact .ok ⟨he, trivial⟩
  | cons hv _ ih => exact Both.bind (he.push hv) (fun _ _ _ _ h => ih h.1) fun _ _ _ _ h => h

theorem call_alike {receiver receiver' callee callee' : Value} {args args' : List Value} (he : e.Alike (k + 1) ρ e')
    (hr : receiver.Alike ρ receiver') (hc : callee.Alike ρ callee') (ha : List.Forall₂ (Value.Alike ρ) args args')
    (ht : List.Forall₂ Task.Twin tasks tasks') :
    (call receiver callee args tasks e).Alike k (call receiver' callee' args' tasks' e') := by
  have hen := he.enterProtected
  simp only [call, beginProtected]
  generalize enterProtected e = r at hen ⊢
  generalize enterProtected e' = r' at hen ⊢
  cases hen with
  | error h =>
    obtain ⟨he₁, hx⟩ := h
    obtain ⟨ρ₁, hρ₁, he₂, hv⟩ := he₁.exceptionValue hx
    obtain ⟨he₃, hx₃⟩ := (he₂.pushThrown hv).carry (hx.mono hρ₁)
    exact ⟨ρ₁, he₃.less, ht, .error hx₃⟩
  | @ok scope e₁ scope' e₁' h =>
    obtain ⟨he₁, rfl⟩ := h
    have ht₁ : List.Forall₂ Task.Twin (.guard scope :: tasks) (.guard scope :: tasks') := .cons (.guard scope) ht
    have hp := pushAll_like he₁ (.cons hc (.cons hr ha))
    rw [ha.length_eq]
    simp only
    generalize pushAll (callee :: receiver :: args) e₁ = r at hp ⊢
    generalize pushAll (callee' :: receiver' :: args') e₁' = r' at hp ⊢
    cases hp with
    | error h => exact ⟨ρ, h.1.less, ht₁, .error h.2⟩
    | ok h => exact start_alike h.1 ht₁ _

theorem resume_alike {task task' : Task} {result result' : Except Error Value} (he : e.Alike (k + 1) ρ e')
    (hr : (Control.returning result).Alike ρ (.returning result')) (ht : List.Forall₂ Task.Twin tasks tasks')
    (htask : task.Twin task') : (resume result tasks e task).Alike k (resume result' tasks' e' task') := by
  cases htask with
  | guard scope =>
    have hin : Engine.Like (k + 1) Value.Alike (resultIn e result) (resultIn e' result') := by
      cases hr with
      | value hv => exact .ok ⟨ρ, he, hv⟩
      | error hx => exact .error ⟨ρ, he, hx⟩
    have hg := (Engine.Like.endProtected hin scope).carried
    simp only [resume]
    generalize carried (endProtected scope (resultIn e result)) = r at hg ⊢
    generalize carried (endProtected scope (resultIn e' result')) = r' at hg ⊢
    cases hg with
    | ok h =>
      obtain ⟨ρ₁, he₁, hv⟩ := h
      exact ⟨ρ₁, he₁, ht, .value hv⟩
    | error h =>
      obtain ⟨ρ₁, he₁, hx⟩ := h
      exact ⟨ρ₁, he₁, ht, .error hx⟩
  | native base => exact ⟨ρ, ((he.withTrace (·.pop)).cutStack base).less, ht, hr⟩
  | loop entry hf =>
    cases hr with
    | error hx => exact raise_alike he hf ht hx entry
    | @value v v' hv =>
      have hp := he.push hv
      simp only [resume]
      generalize push v e = r at hp ⊢
      generalize push v' e' = r' at hp ⊢
      cases hp with
      | ok h => exact ⟨ρ, h.1.less, ht, .running entry hf⟩
      | error h => exact raise_alike h.1 hf ht h.2 entry

section Frames

variable {entry : Entry} {g g' : CallFrame} {callers callers' : List CallFrame}

theorem Moored.top (h : Moored ⟨e, tasks, .running entry (g :: callers)⟩) : g.Moored e.global e.level := by
  refine h g e.level ?_
  rw [tower_running]
  exact .head _

theorem frame_alike (he : e.Alike k ρ e') (ht : g.Twin g') (hm : g.Moored e.global e.level)
    (hm' : g'.Moored e'.global e'.level) : g.Alike ρ g' := by
  have hchain : List.Forall₂ ρ.scope e.level.chain e'.level.chain := forall₂_concat he.akin.scopes he.akin.env
  have hscope := forall₂_getElem? hchain (g.savedScope + 1)
  have hs := hm'.scope
  rw [ht.savedScope] at hs
  rw [hm.scope, hs] at hscope
  obtain ⟨v, hv, hr⟩ := hm.receiver
  obtain ⟨v', hv', hr'⟩ := hm'.receiver
  have hslot := forall₂_getElem? he.akin.stack (g.base + 1)
  rw [ht.base] at hv'
  rw [show e.stack.toList[g.base + 1]? = some v from hv, show e'.stack.toList[g.base + 1]? = some v' from hv'] at hslot
  refine ⟨ht, ?_, ?_⟩
  · cases hslot with
    | some hv =>
      rw [hr, hr', ht.unit, hv.isNullish]
      split
      · exact .object he.akin.global
      · exact hv
  · cases hscope with
    | some hs => exact hs

theorem loop_like {entry' : Entry} {frames frames' : List CallFrame} (he : e.Alike (k + 1) ρ e')
    (hf : List.Forall₂ CallFrame.Twin frames frames') (hm : Moored ⟨e, tasks, .running entry frames⟩)
    (hm' : Moored ⟨e', tasks', .running entry' frames'⟩) :
    Loop.Like k Signal.Alike (Loop.step ⟨e, frames⟩) (Loop.step ⟨e', frames'⟩) := by
  refine Loop.step_like he hf ?_
  intro g g' hg hg'
  cases hf with
  | nil => cases hg
  | cons htwin hf =>
    obtain rfl := Option.some.inj hg
    obtain rfl := Option.some.inj hg'
    exact frame_alike he htwin hm.top hm'.top

end Frames

theorem Alike.step {m m' : Machine} (h : m.Alike 1 m') (hm : m.Moored) (hm' : m'.Moored)
    (hroom : ∀ entry frames y t, m'.control = .running entry frames → Loop.step ⟨m'.engine, frames⟩ = .error y t →
      ∃ n, t.engine.heap.Dated n ∧ n + 2 < 2 ^ 32) : m.step.Alike 0 m'.step := by
  obtain ⟨e, tasks, control⟩ := m
  obtain ⟨e', tasks', control'⟩ := m'
  obtain ⟨ρ, he, ht, hc⟩ := h
  cases hc with
  | @running entry frames frames' hf =>
    have hs := loop_like he hf hm hm'
    have hroom' := hroom entry frames'
    simp only [Machine.step]
    generalize Loop.step ⟨e, frames⟩ = r at hs ⊢
    generalize Loop.step ⟨e', frames'⟩ = r' at hs hroom' ⊢
    cases hs with
    | ok h =>
      obtain ⟨ρ₁, he₁, hf₁, hsignal⟩ := h
      cases hsignal with
      | proceed => exact ⟨ρ₁, he₁, ht, .running entry hf₁⟩
      | finished hv => exact ⟨ρ₁, (he₁.withLoops (· - 1)).cutStack entry.base, ht, .value hv⟩
      | evaluate base hv =>
        exact ⟨ρ₁, he₁, .cons (.native base) (.cons (.loop entry hf₁) ht), .calling (.object he₁.akin.global) hv .nil⟩
    | error h =>
      obtain ⟨ρ₁, he₁, hf₁, hx⟩ := h
      obtain ⟨n, hd, hn⟩ := hroom' _ _ rfl rfl
      exact raise_alike ⟨he₁.akin, he₁.heap.within hd hn⟩ hf₁ ht hx entry
  | calling hr hc ha => exact call_alike he hr hc ha ht
  | @value v v' hv =>
    cases ht with
    | nil => exact ⟨ρ, he.less, .nil, .value hv⟩
    | cons htask ht => exact resume_alike he (.value hv) ht htask
  | @error x y hx =>
    cases ht with
    | nil => exact ⟨ρ, he.less, .nil, .error hx⟩
    | cons htask ht => exact resume_alike he (.error hx) ht htask

end Machine

end ScriptEngine
