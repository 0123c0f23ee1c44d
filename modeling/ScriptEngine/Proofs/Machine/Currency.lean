import ScriptEngine.Proofs.Engine.Currency
import ScriptEngine.Proofs.Machine.Custody
import ScriptEngine.Proofs.Machine.Endurance

namespace ScriptEngine

open Engine

def Signal.Current : Signal → Heap → Prop
  | .proceed, _ => True
  | .finished v, h => v.Current h
  | .evaluate closure _, h => closure.Current h

def Control.Current : Control → Heap → Prop
  | .running _ _, _ => True
  | .calling receiver callee args, h => receiver.Current h ∧ callee.Current h ∧ ∀ v ∈ args, v.Current h
  | .returning (.ok v), h => v.Current h
  | .returning (.error error), h => error.Tells h

namespace Loop

variable {α : Type} {frame : CallFrame} {callers frames : List CallFrame} {e : Engine}

def Holds (signal : Signal) (s : Loop) : Prop :=
  s.engine.Current ∧ signal.Current s.engine.heap

def Breaks (error : Error) (s : Loop) : Prop :=
  s.engine.Current ∧ error.Tells s.engine.heap

theorem within_holds {V : α → Heap → Prop} {x : EngineM α} {f : α → LoopM Signal} (hx : currency.Holding V x e)
    (hf : ∀ a e', e'.Current → e.heap.Upholds e'.heap → V a e'.heap → Ensures (f a) Holds Breaks ⟨e', frames⟩) :
    Ensures (within x >>= f) Holds Breaks ⟨e, frames⟩ := by
  refine .bind (.within ?_)
  cases hr : x e with
  | ok a e₁ =>
    obtain ⟨h₁, hup, hv⟩ := hx.returned hr
    exact .of_ok hr (hf a e₁ h₁ hup hv)
  | error error e₁ =>
    obtain ⟨h₁, -, ht⟩ := hx.failed hr
    exact .of_error hr ⟨h₁, ht⟩

theorem returnFrom_holds {returned : Option Value} (h : e.Current) (hv : ∀ v, returned = some v → v.Current e.heap) :
    Ensures (returnFrom frame callers returned) Holds Breaks ⟨e, frames⟩ := by
  refine .bind (.modified (within_holds (currency.leaveAll h _) fun _ e₁ h₁ hup _ => .get ?_))
  have hvalue : ((returned.or (frame.completion.bind (e₁.stack[·]?))).getD .undefined).Current e₁.heap := by
    cases returned with
    | some v => exact hup.among (hv v rfl)
    | none =>
      cases frame.completion with
      | none => exact Value.among_of_plain rfl
      | some slot => exact h₁.among.getD slot
  have hcut : (e₁.cutScopes frame.savedScope).leaveTrace.Current := { h₁.cutScopes frame.savedScope with }
  refine .bind (.modified ?_)
  split
  · exact .pure ⟨hcut, hvalue⟩
  · refine .bind (.modified ?_)
    exact within_holds (currency.push (hcut.cutStack frame.base) hvalue) fun _ _ h₂ _ _ => .pure ⟨h₂, trivial⟩

theorem call_holds (h : e.Current) (argc : Nat) : Ensures (call callers argc) Holds Breaks ⟨e, frames⟩ := by
  refine within_holds (currency.callSite h argc) fun site e₁ h₁ _ hsite => ?_
  obtain ⟨base, receiver, args, callee⟩ := site
  cases callee with
  | closure unit env =>
    exact within_holds (currency.enterClosure h₁ hsite.callee hsite.receiver hsite.args unit) fun _ _ h₂ _ _ =>
      .bind (.modified (.pure ⟨h₂, trivial⟩))
  | native f =>
    have hnative := callNative_fares h₁ f hsite.args
    refine .get ?_
    dsimp only at hnative ⊢
    cases hr : callNative f args e₁ with
    | error error e₂ =>
      rw [hr] at hnative
      exact .bind (.set (.throw ⟨hnative.1.cutStack base, hnative.2⟩))
    | ok result e₂ =>
      rw [hr] at hnative
      cases result with
      | run closure => exact .bind (.set (.pure hnative))
      | value v =>
        refine .bind (.set ?_)
        exact within_holds (currency.push (hnative.1.cutStack base) hnative.2) fun _ _ h₃ _ _ => .pure ⟨h₃, trivial⟩

theorem execute_holds (frame : CallFrame) (h : e.Current) (hr : frame.Among e.heap.Current) (instr : Instr) :
    Ensures (execute frame callers instr) Holds Breaks ⟨e, frames⟩ := by
  have hgoto {e : Engine} {frames : List CallFrame} (h : e.Current) (target : Nat) :
      Ensures (goto frame callers target >>= fun _ => pure Signal.proceed) Holds Breaks ⟨e, frames⟩ :=
    .bind (.modified (.pure ⟨h, trivial⟩))
  have hdrop {e : Engine} {frames : List CallFrame} (h : e.Current) :
      Ensures (within popped >>= fun _ => pure Signal.proceed) Holds Breaks ⟨e, frames⟩ :=
    within_holds (currency.popped h) fun _ _ h₁ _ _ => .pure ⟨h₁, trivial⟩
  have hsimple (instr : Instr) :
      Ensures (within (simple frame instr) >>= fun _ => pure Signal.proceed) Holds Breaks ⟨e, frames⟩ :=
    within_holds (currency.simple h hr instr) fun _ _ h₁ _ _ => .pure ⟨h₁, trivial⟩
  cases instr with
  | call argc => exact call_holds h argc
  | jump target => exact hgoto h target
  | jumpIfFalse target =>
    refine within_holds (currency.popped h) fun v _ h₁ _ _ => ?_
    split
    · exact hgoto h₁ target
    · exact .bind (.pure (.pure ⟨h₁, trivial⟩))
  | jumpIfFalseKeep target =>
    refine within_holds (currency.peek h) fun v _ h₁ _ _ => ?_
    split
    · exact hdrop h₁
    · exact hgoto h₁ target
  | jumpIfTrueKeep target =>
    refine within_holds (currency.peek h) fun v _ h₁ _ _ => ?_
    split
    · exact hgoto h₁ target
    · exact hdrop h₁
  | «return» =>
    refine within_holds (currency.popped h) fun v e₁ h₁ _ hv => returnFrom_holds h₁ fun w hw => ?_
    exact Option.some.inj hw ▸ hv
  | «try» catchAt exitAt =>
    exact within_holds (currency.enterProtected h) fun _ _ h₁ _ _ => .bind (.modified (.pure ⟨h₁, trivial⟩))
  | leave =>
    simp only [execute]
    cases frame.handlers with
    | nil => exact .throw ⟨h, Error.tells_unbalanced⟩
    | cons handler handlers =>
      exact .bind (.modified (within_holds (currency.leaveProtected h _) fun _ _ h₁ _ _ =>
        .bind (.modified (.pure ⟨h₁, trivial⟩))))
  | _ => exact hsimple _

theorem step_holds (h : e.Current) (hf : ∀ g ∈ frames, g.Among e.heap.Current) :
    Ensures step Holds Breaks ⟨e, frames⟩ := by
  refine .get ?_
  cases frames with
  | nil => exact .pure ⟨h, Value.among_of_plain rfl⟩
  | cons frame callers =>
    have hnext : CallFrame.Among e.heap.Current { frame with next := frame.next + 1 } := { hf frame (.head _) with }
    dsimp only
    cases frame.unit.code[frame.next]? with
    | none => exact returnFrom_holds h fun v hv => by cases hv
    | some instr =>
      dsimp only
      split
      · rename_i line _
        have hline : (e.atLine line).Current := { h with }
        exact .bind (.modified (.bind (.modified (execute_holds _ hline hnext instr))))
      · exact .bind (.modified (execute_holds _ h hnext instr))

end Loop

namespace Machine

variable {e : Engine} {error : Error} {tasks : List Task} {m : Machine}

structure Current (m : Machine) : Prop where
  engine : m.engine.Current
  control : m.control.Current m.engine.heap

section Steps

theorem failLoop_tells (h : e.Current) (ht : error.Tells e.heap) (entry : Entry) :
    (failLoop entry error e).2.Current ∧ (failLoop entry error e).1.Tells (failLoop entry error e).2.heap := by
  have hleft {e : Engine} (h : e.Current) : (cutStack entry.base
      { e.cutScopes entry.savedScope with trace := (e.cutScopes entry.savedScope).trace.shrink entry.traceDepth }).Current := by
    refine Engine.Current.cutStack ?_ entry.base
    exact { h.cutScopes entry.savedScope with }
  have hloops : Engine.Current { e with loops := e.loops - 1 } := { h with }
  obtain ⟨v, heap, hx, hup, hv, htext⟩ := exceptionValue_upholds hloops ht
  simp only [failLoop]
  cases hc : error.carried? with
  | some w => exact ⟨hleft hloops, ht⟩
  | none =>
    dsimp only
    rw [hx]
    exact ⟨hleft (hloops.withHeap hup), Error.tells_of_carried rfl hv htext⟩

theorem raise_current {s : Loop} (h : s.engine.Current) (ht : error.Tells s.engine.heap) (entry : Entry) (tasks : List Task) :
    (raise entry error tasks s).Current := by
  simp only [raise]
  cases hc : Loop.catch? error s.engine s.frames with
  | some caught =>
    obtain ⟨id, hunwound⟩ := Loop.catch?_unwinds hc
    have hbears := unwind_bears h ht id
    rw [← hunwound] at hbears
    exact ⟨hbears.1, trivial⟩
  | none =>
    obtain ⟨hleft, htold⟩ := failLoop_tells h ht entry
    exact ⟨hleft, htold⟩

theorem start_current (h : e.Current) (argc : Nat) (tasks : List Task) : (start argc tasks e).Current := by
  simp only [start]
  cases hs : callSite argc e with
  | error error e₁ =>
    obtain ⟨h₁, -, ht⟩ := (currency.callSite h argc).failed hs
    exact ⟨h₁, ht⟩
  | ok site e₁ =>
    obtain ⟨h₁, -, hsite⟩ := (currency.callSite h argc).returned hs
    obtain ⟨base, receiver, args, callee⟩ := site
    cases callee with
    | native f =>
      have hnative := callNative_fares h₁ f hsite.args
      dsimp only at hnative ⊢
      cases hr : callNative f args e₁ with
      | error error e₂ =>
        rw [hr] at hnative
        exact ⟨hnative.1.cutStack base, hnative.2⟩
      | ok result e₂ =>
        rw [hr] at hnative
        cases result with
        | value v => exact ⟨hnative.1.cutStack base, hnative.2⟩
        | run closure =>
          refine ⟨hnative.1, fun a ha => ?_, hnative.2, fun v hv => by cases hv⟩
          obtain rfl := Option.some.inj ha
          exact hnative.1.global
    | closure unit env =>
      dsimp only
      split
      · exact ⟨h₁.cutStack base, Error.tells_fault (Fault.message_ne rfl)⟩
      · have hdeeper : Engine.Current { e₁ with loops := e₁.loops + 1 } := { h₁ with }
        have hentered : currency.Holding _ (enterClosure unit env ⟨base, receiver, args, .closure unit env⟩) _ :=
          currency.enterClosure hdeeper hsite.callee hsite.receiver hsite.args unit
        split
        · rename_i hr
          exact ⟨(hentered.returned hr).1, trivial⟩
        · rename_i error e₂ hr
          exact raise_current (s := ⟨e₂, []⟩) (hentered.failed hr).1 (hentered.failed hr).2.2 _ tasks

theorem call_current {receiver callee : Value} {args : List Value} (h : e.Current) (hr : receiver.Current e.heap)
    (hc : callee.Current e.heap) (ha : ∀ v ∈ args, v.Current e.heap) (tasks : List Task) :
    (call receiver callee args tasks e).Current := by
  simp only [call]
  cases hb : beginProtected e with
  | error error e₁ =>
    obtain ⟨h₁, hbears⟩ := (beginProtected_fares h).failed hb
    obtain ⟨hpopped, htold⟩ := carry_tells h₁ hbears
    exact ⟨hpopped, htold⟩
  | ok scope e₁ =>
    obtain ⟨h₁, heq⟩ := (beginProtected_fares h).returned hb
    have hall : ∀ v ∈ callee :: receiver :: args, v.Current e₁.heap := by
      rw [heq]
      simp only [List.mem_cons, forall_eq_or_imp]
      exact ⟨hc, hr, ha⟩
    dsimp only
    cases hp : pushAll (callee :: receiver :: args) e₁ with
    | error error e₂ =>
      obtain ⟨h₂, -, ht⟩ := (currency.pushAll h₁ hall).failed hp
      exact ⟨h₂, ht⟩
    | ok _ e₂ => exact start_current ((currency.pushAll h₁ hall).returned hp).1 args.length _

theorem resume_current {result : Except Error Value} (h : e.Current) (hc : (Control.returning result).Current e.heap)
    (tasks : List Task) (task : Task) : (resume result tasks e task).Current := by
  cases task with
  | native base =>
    have hleft : e.leaveTrace.Current := { h with }
    exact ⟨hleft.cutStack base, hc⟩
  | guard scope =>
    have hresult : Fares Value.Current Telling (resultIn e result) := by
      cases result <;> exact ⟨h, hc⟩
    have hended := carried_fares (endProtected_fares hresult scope)
    simp only [resume]
    cases hr : carried (endProtected scope (resultIn e result)) with
    | ok v e₁ =>
      obtain ⟨h₁, hv⟩ := hended.returned hr
      exact ⟨h₁, hv⟩
    | error error e₁ =>
      obtain ⟨h₁, ht⟩ := hended.failed hr
      exact ⟨h₁, ht⟩
  | loop entry frames =>
    cases result with
    | error error => exact raise_current (s := ⟨e, frames⟩) h hc entry tasks
    | ok v =>
      simp only [resume]
      cases hp : push v e with
      | ok _ e₁ => exact ⟨((currency.push h hc).returned hp).1, trivial⟩
      | error error e₁ =>
        obtain ⟨h₁, -, ht⟩ := (currency.push h hc).failed hp
        exact raise_current (s := ⟨e₁, frames⟩) h₁ ht entry tasks

end Steps

theorem Current.holdings (h : m.Current) (ho : m.Moored) : ∀ a ∈ m.holdings, m.engine.heap.Current a := by
  intro a ha
  rcases List.mem_append.mp (holdings_subset ho ha) with ha | ha
  · exact h.engine.roots a ha
  · obtain ⟨v, hv, hva⟩ := List.mem_filterMap.mp ha
    refine (?_ : v.Current m.engine.heap) a hva
    have hcontrol := h.control
    generalize m.control = control at hv hcontrol
    cases control with
    | running => cases hv
    | calling receiver callee args =>
      rcases List.mem_cons.mp hv with rfl | hv
      · exact hcontrol.1
      · rcases List.mem_cons.mp hv with rfl | hv
        · exact hcontrol.2.1
        · exact hcontrol.2.2 v hv
    | returning result =>
      cases result with
      | ok w =>
        obtain rfl := List.mem_singleton.mp hv
        exact hcontrol
      | error error => exact (hcontrol.carried v (Option.mem_toList.mp hv)).1

theorem Current.step (h : m.Current) (ho : m.Moored) : m.step.Current := by
  have hheld : ∀ g ∈ m.frames, g.Among m.engine.heap.Current := by
    intro g hg
    constructor
    · intro a ha
      refine h.holdings ho a ?_
      simp only [Machine.holdings, Machine.values, List.mem_cons, List.mem_append, List.mem_filterMap]
      exact .inr (.inr (.inr ⟨g.receiver, .inr (List.mem_map_of_mem hg), ha⟩))
    · refine h.holdings ho g.scope ?_
      simp only [Machine.holdings, Machine.scopes, List.mem_cons, List.mem_append]
      exact .inr (.inr (.inl (.inr (.inr (.inr (List.mem_map_of_mem hg))))))
  obtain ⟨e, tasks, control⟩ := m
  obtain ⟨he, hc⟩ := h
  cases control with
  | calling receiver callee args => exact call_current he hc.1 hc.2.1 hc.2.2 tasks
  | returning result =>
    cases tasks with
    | nil => exact ⟨he, hc⟩
    | cons task tasks => exact resume_current he hc tasks task
  | running entry frames =>
    have hframes : ∀ g ∈ frames, g.Among e.heap.Current := fun g hg => hheld g (List.mem_append_left _ hg)
    have hstep := Loop.step_holds he hframes
    simp only [Machine.step]
    cases hs : Loop.step ⟨e, frames⟩ with
    | error error s => exact raise_current (hstep.error hs).1 (hstep.error hs).2 entry tasks
    | ok signal s =>
      obtain ⟨h₁, hsignal⟩ := hstep.ok hs
      cases signal with
      | proceed => exact ⟨h₁, trivial⟩
      | finished v =>
        have hleft : Engine.Current { s.engine with loops := s.engine.loops - 1 } := { h₁ with }
        exact ⟨hleft.cutStack entry.base, hsignal⟩
      | evaluate closure base =>
        refine ⟨h₁, fun a ha => ?_, hsignal, fun v hv => by cases hv⟩
        obtain rfl := Option.some.inj ha
        exact h₁.global

theorem Current.run {L₀ : Level} (h : m.Current) (ho : m.Orderly L₀) (n : Nat) : (Machine.step^[n] m).Current := by
  induction n with
  | zero => exact h
  | succ n ih =>
    rw [Function.iterate_succ_apply']
    exact ih.step (ho.run n).moored

end Machine

end ScriptEngine
