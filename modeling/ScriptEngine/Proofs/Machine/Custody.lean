import ScriptEngine.Machine
import ScriptEngine.Proofs.Engine.Custody

namespace ScriptEngine

open Engine

def Callee.Among (held : Handle → Prop) : Callee → Prop
  | .native _ => True
  | .closure _ env => held env

structure CallSite.Among (held : Handle → Prop) (site : CallSite) : Prop where
  receiver : site.receiver.Among held
  args : ∀ v ∈ site.args, v.Among held
  callee : site.callee.Among held

structure CallFrame.Among (held : Handle → Prop) (frame : CallFrame) : Prop where
  receiver : frame.receiver.Among held
  scope : held frame.scope

theorem CallFrame.Among.mono {held held' : Handle → Prop} {frame : CallFrame} (hf : frame.Among held)
    (h : ∀ a, held a → held' a) : frame.Among held' :=
  ⟨hf.receiver.mono h, h _ hf.scope⟩

theorem Engine.callee_not_raised {e : Engine} {v : Value} {f : Fault} (hc : e.callee v = .error f) :
    f.isRaised = false := by
  simp only [Engine.callee] at hc
  split at hc
  · cases hc
  · cases hc
  · cases hc
    rfl

namespace Custody

variable (C : Custody) {e : Engine}

section Calls

variable {args : List Value} {env : Handle}

theorem callee {v : Value} {callee : Callee} (hv : C.Has v e.heap) (hc : e.callee v = .ok callee) :
    callee.Among (C.held e.heap) := by
  simp only [Engine.callee] at hc
  split at hc
  · cases hc
    trivial
  · rename_i ho
    cases hc
    obtain ⟨a, ha, hobject⟩ := Option.bind_eq_some_iff.mp ho
    exact (C.closed e.heap).scope (hv a ha) hobject
  · cases hc

theorem callSite (h : C.Keeps e) (argc : Nat) :
    C.Holding (fun site heap => site.Among (C.held heap)) (callSite argc) e := by
  refine .get ?_
  split
  · exact .bind (V := fun _ _ => False) (.fault h (Fault.message_ne rfl)) fun _ _ _ _ hfalse => hfalse.elim
  · dsimp only
    split
    · rename_i hc
      exact .fault h (Fault.message_ne (callee_not_raised hc))
    · rename_i callee hc
      refine .pure h ⟨(C.among h).getD _, fun v hv => (C.among h).stack v ?_, C.callee ((C.among h).getD _) hc⟩
      rw [Array.toList_extract, List.extract_eq_take_drop] at hv
      exact List.drop_subset _ _ (List.take_subset _ _ hv)

theorem bindParams {scope : Handle} (h : C.Keeps e) (hs : C.held e.heap scope) (ha : ∀ v ∈ args, C.Has v e.heap)
    (names : List String) : Speaks (C.Guards e.heap) (bindParams scope names args e.heap) := by
  induction names generalizing args e with
  | nil => exact C.refl h
  | cons name names ih =>
    have hhead : C.Has (args.headD .undefined) e.heap := by
      cases args with
      | nil => exact Value.among_of_plain rfl
      | cons v args => exact ha v (.head _)
    refine (Environment.define_puts (C.closed e.heap) hs name _).bind fun heap hp => ?_
    have hg := C.puts h hp hhead
    have hrest := ih (e := { e with heap }) (C.withHeap h hg) (C.mono hg hs) fun v hv =>
      C.has_mono hg (ha v (List.mem_of_mem_tail hv))
    exact hrest.mono fun _ hg' => C.trans hg hg'

theorem openScope (h : C.Keeps e) (henv : C.held e.heap env) (ha : ∀ v ∈ args, C.Has v e.heap) (unit : CodeUnit) :
    C.Holding (fun scope heap => C.held heap scope) (openScope unit env args) e := by
  simp only [Engine.openScope]
  split
  · exact .pure h henv
  · obtain ⟨hg, hnew⟩ := C.environment h henv
    refine .bind (V := fun scope heap => C.held heap scope) (.modifyGet (C.withHeap h hg) hg hnew)
      fun scope e₁ h₁ hg₁ hscope => ?_
    have hbind := C.bindParams h₁ hscope (fun v hv => C.has_mono hg₁ (ha v hv)) unit.params
    exact .bind (C.change h₁ hbind) fun _ e₂ h₂ hg₂ _ => .pure h₂ (C.mono hg₂ hscope)

theorem boundReceiver {v : Value} (h : C.Keeps e) (hv : C.Has v e.heap) (unit : CodeUnit) :
    C.Has (e.boundReceiver unit v) e.heap := by
  simp only [Engine.boundReceiver]
  split
  · intro a ha
    obtain rfl := Option.some.inj ha
    exact (C.among h).global
  · exact hv

theorem enterScope {scope : Handle} (h : C.Keeps e) (hs : C.held e.heap scope) :
    C.Holding (fun _ _ => True) (modify (enterScope scope)) e :=
  .modified (C.quiet h rfl rfl rfl ((C.among h).enterScope hs)) (C.refl h) trivial

theorem enterClosure {site : CallSite} (h : C.Keeps e) (henv : C.held e.heap env) (hr : C.Has site.receiver e.heap)
    (ha : ∀ v ∈ site.args, C.Has v e.heap) (unit : CodeUnit) :
    C.Holding (fun frame heap => frame.Among (C.held heap)) (enterClosure unit env site) e := by
  have hbound := C.boundReceiver h hr unit
  refine .get (.bind (C.openScope h henv ha unit) fun scope e₁ h₁ hg₁ hscope => .get ?_)
  have hrest (completion : Option Nat) (e₂ : Engine) (h₂ : C.Keeps e₂) (hg₂ : C.Guards e₁.heap e₂.heap) :
      C.Holding (fun frame heap => frame.Among (C.held heap)) (do
        Engine.enterTrace ⟨unit.name, unit.file, unit.line⟩
        let savedScope := (← get).scopes.size
        modify (Engine.enterScope scope)
        return ({ unit, next := 0, receiver := e.boundReceiver unit site.receiver, scope, completion,
                  base := site.base, savedScope, handlers := [] } : CallFrame)) e₂ := by
    refine .bind (C.enterTrace h₂ _) fun _ e₃ h₃ hg₃ _ => .get ?_
    have hscope₃ := C.mono hg₃ (C.mono hg₂ hscope)
    refine .bind (C.enterScope h₃ hscope₃) fun _ e₄ h₄ hg₄ _ => .pure h₄ ⟨?_, C.mono hg₄ hscope₃⟩
    exact C.has_mono hg₄ (C.has_mono hg₃ (C.has_mono hg₂ (C.has_mono hg₁ hbound)))
  split
  · exact .bind (C.push h₁ (Value.among_of_plain rfl)) fun _ e₂ h₂ hg₂ _ => hrest _ e₂ h₂ hg₂
  · exact hrest _ e₁ h₁ (C.refl h₁)

end Calls

section Instructions

variable {frame : CallFrame}

theorem setProperty {t v : Value} (h : C.Keeps e) (ht : C.Has t e.heap) (hv : C.Has v e.heap) (name : String) :
    C.Holding (fun _ _ => True) (setProperty t name v) e :=
  C.put h hv (Heap.setProperty_puts ht name v)

theorem getProperty {t : Value} (h : C.Keeps e) (ht : C.Has t e.heap) (name : String) :
    C.Holding C.Has (EngineM.ask (·.getProperty t name)) e :=
  C.ask h (Heap.getProperty_speaks (C.closed e.heap) ht name)

theorem define {scope : Handle} {v : Value} (h : C.Keeps e) (hs : C.held e.heap scope) (hv : C.Has v e.heap)
    (name : String) : C.Holding (fun _ _ => True) (EngineM.change (Environment.define · scope name v)) e :=
  C.put h hv (Environment.define_puts (C.closed e.heap) hs name v)

theorem enterCatch {thrown : Value} (h : C.Keeps e) (hv : C.Has thrown e.heap) (name : String) :
    C.Holding (fun _ _ => True) (do
      let (scope, heap) := Environment.alloc e.heap none (some e.env)
      set { e with heap }
      EngineM.change (Environment.define · scope name thrown)
      modify (Engine.enterScope scope)) e := by
  obtain ⟨hg, hnew⟩ := C.environment h (C.among h).env
  refine .bind (V := fun _ heap => heap = (Environment.alloc e.heap none (some e.env)).2)
    (.set (C.withHeap h hg) hg rfl) fun _ e₁ h₁ hg₁ heq => ?_
  rw [← heq] at hnew
  exact .bind (C.define h₁ hnew (C.has_mono hg₁ hv) name) fun _ e₂ h₂ hg₂ _ => C.enterScope h₂ (C.mono hg₂ hnew)

theorem leaveScope (h : C.Keeps e) : C.Holding (fun _ _ => True) (modify leaveScope) e := by
  have hkept : e.leaveScope.registry = e.registry ∧ e.leaveScope.nextRef = e.nextRef ∧ e.leaveScope.heap = e.heap := by
    simp only [Engine.leaveScope]
    split <;> exact ⟨rfl, rfl, rfl⟩
  obtain ⟨hregistry, hnext, hheap⟩ := hkept
  refine .modified (C.quiet h hregistry hnext hheap (C.among h).leaveScope) ?_ trivial
  rw [hheap]
  exact C.refl h

theorem setCompletion {v : Value} (h : C.Keeps e) (hv : C.Has v e.heap) (slot : Nat) :
    C.Keeps { e with stack := e.stack.setIfInBounds slot v } := by
  refine C.quiet h rfl rfl rfl ((C.among h).withStack fun w hw => ?_)
  rw [Array.toList_setIfInBounds] at hw
  rcases List.mem_or_eq_of_mem_set hw with hw | rfl
  · exact .inl hw
  · exact .inr hv

theorem simple (h : C.Keeps e) (hf : frame.Among (C.held e.heap)) (instr : Instr) :
    C.Holding (fun _ _ => True) (Loop.simple frame instr) e := by
  have hplain {v : Value} {e : Engine} (h : C.Keeps e) (hv : v.handle? = none) :
      C.Holding (fun _ _ => True) (Engine.push v) e := C.push h (Value.among_of_plain hv)
  cases instr with
  | undefined | null | boolean | number | string => exact hplain h rfl
  | this => exact C.push h hf.receiver
  | getVar name =>
    exact .get (.bind (C.ask h (Environment.get_speaks (C.closed e.heap) (C.among h).env name)) fun _ _ h₁ _ hv =>
      C.push h₁ hv)
  | setVar name =>
    refine .bind (C.peek h) fun v e₁ h₁ _ hv => .get (C.put h₁ hv ?_)
    exact Environment.assign_puts (C.closed e₁.heap) (C.among h₁).env name v _
  | defineVar name => exact .bind (C.popped h) fun _ _ h₁ hg hv => C.define h₁ (C.mono hg hf.scope) hv name
  | declareVar name =>
    exact C.put (f := (Environment.declare · frame.scope name)) h (Value.among_of_plain rfl)
      (Environment.declare_puts (C.closed e.heap) hf.scope name)
  | closure index =>
    simp only [Loop.simple]
    cases frame.unit.functions[index]? with
    | none => exact .fault h (Fault.message_ne rfl)
    | some unit => exact .get (.bind (C.closureOf h (C.among h).env unit) fun _ _ h₁ _ hv => C.push h₁ hv)
  | newObject => exact .bind (C.newObject h fun _ hb => by cases hb) fun _ _ h₁ _ hv => C.push h₁ hv
  | initProp name =>
    exact .bind (C.popped h) fun _ _ h₁ _ hv => .bind (C.peek h₁) fun _ _ h₂ hg ht =>
      C.setProperty h₂ ht (C.has_mono hg hv) name
  | getProp name =>
    exact .bind (C.popped h) fun _ _ h₁ _ ht => .bind (C.getProperty h₁ ht name) fun _ _ h₂ _ hv => C.push h₂ hv
  | setProp name =>
    refine .bind (C.popped h) fun v e₁ h₁ _ hv => .bind (C.popped h₁) fun t e₂ h₂ hg ht => ?_
    exact .bind (C.setProperty h₂ ht (C.has_mono hg hv) name) fun _ _ h₃ hg₃ _ =>
      C.push h₃ (C.has_mono hg₃ (C.has_mono hg hv))
  | getIndex =>
    refine .bind (C.popped h) fun key e₁ h₁ _ _ => .bind (C.popped h₁) fun t e₂ h₂ _ ht => .get ?_
    exact .bind (C.getProperty h₂ ht _) fun _ _ h₃ _ hv => C.push h₃ hv
  | setIndex =>
    refine .bind (C.popped h) fun v e₁ h₁ _ hv => .bind (C.popped h₁) fun key e₂ h₂ hg₂ _ => ?_
    refine .bind (C.popped h₂) fun t e₃ h₃ hg₃ ht => .get ?_
    have hv₃ := C.has_mono hg₃ (C.has_mono hg₂ hv)
    exact .bind (C.setProperty h₃ ht hv₃ _) fun _ _ h₄ hg₄ _ => C.push h₄ (C.has_mono hg₄ hv₃)
  | getMethod name =>
    refine .bind (C.popped h) fun t e₁ h₁ _ ht => .bind (C.getProperty h₁ ht name) fun v e₂ h₂ hg₂ hv => ?_
    exact .bind (C.push h₂ hv) fun _ _ h₃ hg₃ _ => C.push h₃ (C.has_mono hg₃ (C.has_mono hg₂ ht))
  | pop => exact .bind (C.popped h) fun _ _ h₁ _ _ => .pure h₁ trivial
  | setCompletion =>
    refine .bind (C.popped h) fun v e₁ h₁ _ hv => ?_
    cases frame.completion with
    | none => exact .pure h₁ trivial
    | some slot => exact .modified (C.setCompletion h₁ hv slot) (C.refl h₁) trivial
  | negate | not => exact .bind (C.popped h) fun _ _ h₁ _ _ => hplain h₁ rfl
  | typeof => exact .bind (C.popped h) fun _ _ h₁ _ _ => .get (hplain h₁ rfl)
  | binary op =>
    refine .bind (C.popped h) fun right e₁ h₁ _ _ => .bind (C.popped h₁) fun left e₂ h₂ _ _ => .get ?_
    refine hplain h₂ ?_
    cases op with
    | add =>
      simp only [Heap.binary, Heap.add]
      split <;> rfl
    | _ => rfl
  | throw => exact .bind (C.popped h) fun _ _ h₁ _ hv => .get (.throw h₁ (C.thrown hv))
  | enterCatch name => exact .bind (C.popped h) fun _ _ h₁ _ hv => .get (C.enterCatch h₁ hv name)
  | exitCatch => exact C.leaveScope h
  | call | jump | jumpIfFalse | jumpIfFalseKeep | jumpIfTrueKeep | «return» | «try» | leave => exact .pure h trivial

theorem leaveAll (h : C.Keeps e) (handlers : List Handler) :
    C.Holding (fun _ _ => True) (Loop.leaveAll handlers) e := by
  induction handlers generalizing e with
  | nil => exact .pure h trivial
  | cons handler handlers ih => exact .bind (C.leaveProtected h _) fun _ _ h₁ _ _ => ih h₁

theorem pushAll {values : List Value} (h : C.Keeps e) (hv : ∀ v ∈ values, C.Has v e.heap) :
    C.Holding (fun _ _ => True) (Machine.pushAll values) e := by
  induction values generalizing e with
  | nil => exact .pure h trivial
  | cons v values ih =>
    exact .bind (C.push h (hv v (.head _))) fun _ _ h₁ hg _ => ih h₁ fun w hw => C.has_mono hg (hv w (.tail _ hw))

end Instructions

end Custody

end ScriptEngine
