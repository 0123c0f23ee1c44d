import ScriptEngine.Proofs.Machine.Aside
import ScriptEngine.Proofs.Machine.Flight

/-!
A loop inside another one, and frames above others. A machine goes the same way with one loop more,
unless a call is refused for that, and with more tasks below its own. The outermost frame of a loop
keeps its base until it returns, and what it returns does not depend on the frames below.
-/

namespace ScriptEngine

open Engine

namespace Engine

def deeper (e : Engine) : Engine := e.aside id (· + 1)

end Engine

namespace Machine

def deeper (m : Machine) : Machine := { m with engine := m.engine.deeper }

variable {tasks : List Task} {e : Engine}

theorem leaveLoop_deeper (entry : Entry) (hl : 0 < e.loops) :
    leaveLoop entry e.deeper = (leaveLoop entry e).deeper := by
  have hloops : e.loops + 1 - 1 = e.loops - 1 + 1 := by omega
  simp only [leaveLoop, cutStack, Engine.deeper, aside, hloops]

theorem failLoop_deeper (entry : Entry) (error : Error) (hl : 0 < e.loops) :
    failLoop entry error e.deeper = ((failLoop entry error e).1, (failLoop entry error e).2.deeper) := by
  have hloops : e.loops + 1 - 1 = e.loops - 1 + 1 := by omega
  have hleft : { e.deeper with loops := e.deeper.loops - 1 } = Engine.deeper { e with loops := e.loops - 1 } := by
    simp only [Engine.deeper, aside, hloops]
  simp only [failLoop, hleft]
  cases error.carried? with
  | some v => rfl
  | none =>
    have hvalue := exceptionValue_aside id (· + 1) error { e with loops := e.loops - 1 }
    simp only [Engine.deeper, hvalue]
    rfl

theorem raise_deeper (entry : Entry) (error : Error) {frames : List CallFrame} (hl : 0 < e.loops) :
    raise entry error tasks ⟨e.deeper, frames⟩ = (raise entry error tasks ⟨e, frames⟩).deeper := by
  have hcatch := @Loop.catch?_aside id (· + 1) error e frames
  simp only [raise, Engine.deeper, hcatch]
  cases Loop.catch? error e frames with
  | some s =>
    simp only [Option.map_some, Loop.embed, List.append_nil]
    rfl
  | none =>
    simp only [Option.map_none]
    rw [← Engine.deeper, failLoop_deeper entry error hl]
    rfl

def Refused (m : Machine) : Prop :=
  m.control = .returning (.error (.fault .callStackOverflow))

theorem start_deeper (argc : Nat) (tasks : List Task) (e : Engine) :
    start argc tasks e.deeper = (start argc tasks e).deeper ∨ (start argc tasks e.deeper).Refused := by
  have hsite := callSite_detached argc id (· + 1) e
  simp only [start]
  rw [Engine.deeper, hsite]
  cases hs : callSite argc e with
  | error error e₁ => exact .inl rfl
  | ok site e₁ =>
    simp only [mapState]
    cases site.callee with
    | native f =>
      have hnative := callNative_detached f site.args id (· + 1) e₁
      simp only [hnative]
      cases callNative f site.args e₁ with
      | error error e₂ => exact .inl rfl
      | ok result e₂ => cases result <;> exact .inl rfl
    | closure unit env =>
      dsimp only
      by_cases hfull : (e₁.aside id (· + 1)).limits.reentryLimit ≤ (e₁.aside id (· + 1)).loops
      · rw [if_pos hfull]
        exact .inr rfl
      · have hroom : ¬ e₁.limits.reentryLimit ≤ e₁.loops := fun h => hfull (Nat.le_succ_of_le h)
        rw [if_neg hfull, if_neg hroom]
        have henter := enterClosure_detached unit env site id (· + 1) { e₁ with loops := e₁.loops + 1 }
        have hdeeper : { e₁.aside id (· + 1) with loops := (e₁.aside id (· + 1)).loops + 1 } =
            Engine.aside id (· + 1) { e₁ with loops := e₁.loops + 1 } := rfl
        rw [hdeeper, henter]
        cases hf : enterClosure unit env site { e₁ with loops := e₁.loops + 1 } with
        | ok frame e₂ => exact .inl rfl
        | error error e₂ =>
          have hloops := (tally_eq.mp ((enterClosure_detached unit env site).tally_error hf)).2
          have hpos : 0 < e₂.loops := by rw [hloops]; exact Nat.succ_pos _
          exact .inl (raise_deeper _ error hpos)

theorem call_deeper (receiver callee : Value) (args : List Value) (tasks : List Task) (e : Engine) :
    call receiver callee args tasks e.deeper = (call receiver callee args tasks e).deeper ∨
      (call receiver callee args tasks e.deeper).Refused := by
  have hbegin := beginProtected_detached id (· + 1) e
  simp only [call]
  rw [Engine.deeper, hbegin]
  cases beginProtected e with
  | error error e₁ =>
    have hcarry := carry_aside id (· + 1) error e₁
    simp only [mapState, hcarry]
    exact .inl rfl
  | ok scope e₁ =>
    have hpush := pushAll_detached (callee :: receiver :: args) id (· + 1) e₁
    simp only [mapState, hpush]
    cases pushAll (callee :: receiver :: args) e₁ with
    | error error e₂ => exact .inl rfl
    | ok _ e₂ => exact start_deeper args.length _ e₂

theorem resume_deeper (result : Except Error Value) (task : Task) (hl : 0 < loopsIn (task :: tasks) → 0 < e.loops) :
    resume result tasks e.deeper task = (resume result tasks e task).deeper := by
  cases task with
  | guard scope =>
    have hin : resultIn e.deeper result = mapState (aside id (· + 1)) (resultIn e result) := by cases result <;> rfl
    simp only [resume, hin, endProtected_aside, carried_aside]
    cases carried (endProtected scope (resultIn e result)) <;> rfl
  | native base => rfl
  | loop entry frames =>
    have hpos := hl (Nat.succ_pos _)
    cases result with
    | error error => exact raise_deeper entry error hpos
    | ok v =>
      have hpush := push_detached v id (· + 1) e
      simp only [resume]
      rw [Engine.deeper, hpush]
      cases hp : push v e with
      | ok _ e₁ => rfl
      | error error e₁ =>
        have hloops := (tally_eq.mp ((push_detached v).tally_error hp)).2
        exact raise_deeper entry error (hloops ▸ hpos)

theorem step_deeper (m : Machine) (hl : 0 < m.nested → 0 < m.engine.loops) :
    m.deeper.step = m.step.deeper ∨ m.deeper.step.Refused := by
  obtain ⟨e, tasks, control⟩ := m
  cases control with
  | running entry frames =>
    have hpos : 0 < e.loops := hl (Nat.succ_pos _)
    have hstep := @Loop.step_aside id (· + 1) e frames
    have htally := Loop.step_tally ⟨e, frames⟩
    simp only [deeper, step]
    rw [Engine.deeper, hstep]
    cases hs : Loop.step ⟨e, frames⟩ with
    | error error s =>
      rw [hs] at htally
      have hloops : s.engine.loops = e.loops := (tally_eq.mp htally).2
      simp only [mapState, Loop.embed_nil]
      exact .inl (raise_deeper entry error (hloops ▸ hpos))
    | ok signal s =>
      rw [hs] at htally
      have hloops : s.engine.loops = e.loops := (tally_eq.mp htally).2
      simp only [mapState, Loop.embed_nil]
      cases signal with
      | proceed => exact .inl rfl
      | evaluate closure base => exact .inl rfl
      | finished v =>
        have hpos' : 0 < s.engine.loops := hloops ▸ hpos
        exact .inl (congrArg (Machine.mk · tasks (.returning (.ok v))) (leaveLoop_deeper entry hpos'))
  | calling receiver callee args => exact call_deeper receiver callee args tasks e
  | returning result =>
    cases tasks with
    | nil => exact .inl rfl
    | cons task tasks => exact .inl (resume_deeper result task hl)

theorem resume_extend (result : Except Error Value) (ts tasks : List Task) (e : Engine) (task : Task) :
    resume result (ts ++ tasks) e task = (resume result ts e task).extend tasks := by
  cases task with
  | guard scope =>
    simp only [resume]
    split <;> rfl
  | native base => rfl
  | loop entry frames =>
    cases result with
    | error error => exact raise_extend entry error ts tasks ⟨e, frames⟩
    | ok v =>
      simp only [resume]
      split
      · rfl
      · exact raise_extend entry _ ts tasks _

theorem step_extend (m : Machine) (tasks : List Task) (hm : m.result? = none) :
    (m.extend tasks).step = m.step.extend tasks := by
  obtain ⟨e, ts, control⟩ := m
  cases control with
  | running entry frames =>
    simp only [extend, step]
    split
    · rfl
    · rfl
    · rfl
    · exact raise_extend entry _ ts tasks _
  | calling receiver callee args =>
    have hcall := call_extend receiver callee args ts e
    have hcall' := call_extend receiver callee args (ts ++ tasks) e
    simp only [extend, step, hcall, hcall', List.append_assoc]
  | returning result =>
    cases ts with
    | nil => cases hm
    | cons task ts => exact resume_extend result ts tasks e task

end Machine

def BasedAt (b : Nat) : List CallFrame → Prop
  | [] => False
  | [g] => g.base = b
  | _ :: g :: gs => BasedAt b (g :: gs)

namespace BasedAt

variable {b : Nat} {g g' : CallFrame} {gs : List CallFrame}

theorem top (h : BasedAt b (g :: gs)) (hb : g'.base = g.base) : BasedAt b (g' :: gs) := by
  cases gs with
  | nil => exact hb.trans h
  | cons c cs => exact h

theorem tail (h : BasedAt b (g :: gs)) (hc : gs ≠ []) : BasedAt b gs := by
  cases gs with
  | nil => exact absurd rfl hc
  | cons c cs => exact h

theorem cons (g : CallFrame) (h : BasedAt b gs) : BasedAt b (g :: gs) := by
  cases gs with
  | nil => exact h.elim
  | cons c cs => exact h

theorem ne_nil {gs : List CallFrame} (h : BasedAt b gs) : gs ≠ [] := by
  rintro rfl
  exact h

end BasedAt

def Signal.Continues : Signal → Prop
  | .proceed | .evaluate _ _ => True
  | .finished _ => False

namespace Loop

def Stays {α : Type} (b : Nat) (P : α → Prop) (x : LoopM α) : Prop :=
  ∀ s, BasedAt b s.frames → Ensures x (fun a s => P a ∧ BasedAt b s.frames) (fun _ s => BasedAt b s.frames) s

namespace Stays

variable {α β : Type} {b : Nat} {P : α → Prop} {Q : β → Prop} {x : LoopM α} {f : α → LoopM β}

theorem pure {a : α} (ha : P a) : Stays b P (Pure.pure a : LoopM α) := fun _ hs => .pure ⟨ha, hs⟩

theorem throw (error : Error) : Stays b P (MonadExcept.throw error : LoopM α) := fun _ hs => .throw hs

theorem bind (hx : Stays b P x) (hf : ∀ a, Stays b Q (f a)) : Stays b Q (x >>= f) :=
  fun s hs => .bind ((hx s hs).mono (fun a t ht => hf a t ht.2) fun _ _ ht => ht)

theorem get {f : Loop → LoopM β} (hf : ∀ s, Stays b Q (f s)) : Stays b Q (MonadState.get >>= f) :=
  fun s hs => .get (hf s s hs)

theorem within (x : EngineM α) : Stays b (fun _ => True) (within x) := by
  intro s hs
  simp only [Ensures, Loop.within]
  cases x s.engine with
  | ok a e => exact ⟨trivial, hs⟩
  | error error e => exact hs

theorem update (g : Engine → Engine) : Stays b (fun _ => True) (update g) := fun _ hs => ⟨trivial, hs⟩

theorem setFrames {frames : List CallFrame} (h : BasedAt b frames) : Stays b (fun _ => True) (setFrames frames) :=
  fun _ _ => ⟨trivial, h⟩

end Stays

variable {b : Nat} {frame : CallFrame} {callers : List CallFrame}

theorem returnFrom_stays (h : BasedAt b callers) (returned : Option Value) :
    Stays b Signal.Continues (returnFrom frame callers returned) := by
  have hfull : callers.isEmpty = false := List.isEmpty_eq_false_iff.mpr h.ne_nil
  refine .bind (.setFrames h) fun _ => .bind (.within _) fun _ => .get fun s => ?_
  refine .bind (.update _) fun _ => ?_
  rw [hfull]
  exact .bind (.update _) fun _ => .bind (.within _) fun _ => .pure trivial

theorem call_stays (h : BasedAt b callers) (argc : Nat) : Stays b Signal.Continues (call callers argc) := by
  refine .bind (.within _) fun site => ?_
  cases site.callee with
  | closure unit env =>
    exact .bind (.within _) fun g => .bind (.setFrames (h.cons g)) fun _ => .pure trivial
  | native f =>
    refine fun s hs => .get ?_
    cases callNative f site.args s.engine with
    | error error e => exact hs
    | ok result e =>
      cases result with
      | run closure => exact ⟨trivial, hs⟩
      | value v =>
        have hpush : Stays b Signal.Continues (within (push v) >>= fun _ => pure .proceed) :=
          .bind (.within _) fun _ => .pure trivial
        exact hpush ⟨e.cutStack site.base, s.frames⟩ hs

theorem execute_stays {instr : Instr} (h : BasedAt b (frame :: callers)) (hc : callers ≠ [] ∨ instr ≠ .return) :
    Stays b Signal.Continues (execute frame callers instr) := by
  have hgoto (target : Nat) : Stays b (fun _ => True) (goto frame callers target) := .setFrames (h.top rfl)
  cases instr with
  | call argc => exact call_stays h argc
  | jump target => exact .bind (hgoto target) fun _ => .pure trivial
  | jumpIfFalse target =>
    refine .bind (.within _) fun v => ?_
    split
    · exact .bind (hgoto target) fun _ => .pure trivial
    · exact .pure trivial
  | jumpIfFalseKeep target =>
    refine .bind (.within _) fun v => ?_
    split
    · exact .bind (.within _) fun _ => .pure trivial
    · exact .bind (hgoto target) fun _ => .pure trivial
  | jumpIfTrueKeep target =>
    refine .bind (.within _) fun v => ?_
    split
    · exact .bind (hgoto target) fun _ => .pure trivial
    · exact .bind (.within _) fun _ => .pure trivial
  | «return» =>
    have hcallers := h.tail (hc.resolve_right fun hn => hn rfl)
    exact .bind (.within _) fun v => returnFrom_stays hcallers (some v)
  | «try» catchAt exitAt =>
    exact .bind (.within _) fun scope => .bind (.setFrames (h.top rfl)) fun _ => .pure trivial
  | leave =>
    simp only [execute]
    cases frame.handlers with
    | nil => exact .throw _
    | cons handler handlers =>
      exact .bind (.setFrames (h.top rfl)) fun _ => .bind (.within _) fun _ => .bind (.setFrames (h.top rfl)) fun _ =>
        .pure trivial
  | _ => exact .bind (.within _) fun _ => .pure trivial

theorem step_stays (h : BasedAt b (frame :: callers)) (hc : callers ≠ [] ∨ ¬ frame.Returns) (e : Engine) :
    Ensures step (fun signal s => signal.Continues ∧ BasedAt b s.frames) (fun _ s => BasedAt b s.frames)
      ⟨e, frame :: callers⟩ := by
  simp only [Ensures, step_eq]
  cases hi : frame.unit.code[frame.next]? with
  | none =>
    have hcallers := h.tail (hc.resolve_right fun hn => hn (.inl hi))
    exact returnFrom_stays hcallers none ⟨e, frame :: callers⟩ h
  | some instr =>
    have hc : callers ≠ [] ∨ instr ≠ .return := by
      refine hc.imp id fun hn hret => hn (.inr ?_)
      rw [hi, hret]
    have hnext : BasedAt b (frame.following :: callers) := h.top rfl
    exact execute_stays hnext hc ⟨frame.reached e, frame.following :: callers⟩ hnext

theorem catch?_based {error : Error} {e : Engine} {frames : List CallFrame} {s : Loop} (h : BasedAt b frames)
    (hc : catch? error e frames = some s) : BasedAt b s.frames := by
  induction frames with
  | nil => cases hc
  | cons g gs ih =>
    simp only [catch?] at hc
    split at hc
    · refine ih (h.tail ?_) hc
      rintro rfl
      cases hc
    · cases hc
      exact h.top rfl

theorem catch?_eq_none {error : Error} {e : Engine} {frames : List CallFrame} :
    catch? error e frames = none ↔ ∀ g ∈ frames, g.handlers = [] := by
  induction frames with
  | nil => simp [catch?]
  | cons g gs ih =>
    simp only [catch?, List.forall_mem_cons]
    cases g.handlers with
    | nil => simp [ih]
    | cons handler handlers => simp

def handOn (base : Nat) (callers : List CallFrame) :
    EStateM.Result Error Engine Value → EStateM.Result Error Loop Signal
  | .error error e => .error error ⟨e, callers⟩
  | .ok value e =>
    if callers.isEmpty then .ok (.finished value) ⟨e, callers⟩
    else
      match push value (e.cutStack base) with
      | .ok _ e => .ok .proceed ⟨e, callers⟩
      | .error error e => .error error ⟨e, callers⟩

theorem returnFrom_hands_on (g : CallFrame) (returned : Option Value) (e : Engine) :
    ∃ r, (stateOf r).tally = e.tally ∧ ∀ books count callers frames,
      returnFrom g callers returned ⟨e.aside books count, frames⟩ =
        handOn g.base callers (mapState (aside books count) r) := by
  have hset (e : Engine) (callers frames : List CallFrame) :
      setFrames callers ⟨e, frames⟩ = .ok ⟨⟩ ⟨e, callers⟩ := rfl
  cases hl : leaveAll g.handlers e with
  | error error e₁ =>
    refine ⟨.error error e₁, (leaveAll_detached _).tally_error hl, fun books count callers frames => ?_⟩
    have hleft : within (leaveAll g.handlers) ⟨e.aside books count, callers⟩ =
        .error error ⟨e₁.aside books count, callers⟩ := by
      simp only [within, leaveAll_detached g.handlers books count e, hl, mapState]
    exact (bind_of_ok (hset _ callers frames)).trans (bind_of_error hleft)
  | ok a e₁ =>
    have ht : e₁.tally = e.tally := (leaveAll_detached _).tally_ok hl
    refine ⟨.ok ((returned.or (g.completion.bind (e₁.stack[·]?))).getD .undefined)
        (e₁.cutScopes g.savedScope).leaveTrace,
      ht, fun books count callers frames => ?_⟩
    have hleft : within (leaveAll g.handlers) ⟨e.aside books count, callers⟩ =
        .ok a ⟨e₁.aside books count, callers⟩ := by
      simp only [within, leaveAll_detached g.handlers books count e, hl, mapState]
    refine (bind_of_ok (hset _ callers frames)).trans ((bind_of_ok hleft).trans ?_)
    cases callers with
    | nil => rfl
    | cons c cs =>
      show (within (push ((returned.or (g.completion.bind (e₁.stack[·]?))).getD .undefined)) >>=
        fun _ => pure Signal.proceed)
          ⟨((e₁.cutScopes g.savedScope).leaveTrace.aside books count).cutStack g.base, c :: cs⟩ = _
      simp only [handOn, mapState, bind, EStateM.bind, within]
      cases push ((returned.or (g.completion.bind (e₁.stack[·]?))).getD .undefined)
        (((e₁.cutScopes g.savedScope).leaveTrace.aside books count).cutStack g.base) <;> rfl

theorem step_hands_on {g : CallFrame} (hr : g.Returns) (e : Engine) :
    ∃ r, (stateOf r).tally = e.tally ∧ ∀ books count callers,
      step ⟨e.aside books count, g :: callers⟩ = handOn g.base callers (mapState (aside books count) r) := by
  rcases hr with hi | hi
  · obtain ⟨r, ht, hr⟩ := returnFrom_hands_on g none e
    refine ⟨r, ht, fun books count callers => ?_⟩
    rw [step_eq, hi]
    exact hr books count callers _
  · obtain ⟨r, ht, hr⟩ := returnFrom_hands_on g.following (some (g.reached e).pop.1) (g.reached e).pop.2
    refine ⟨r, ht.trans (g.reached_tally e), fun books count callers => ?_⟩
    rw [step_eq, hi, g.reached_aside]
    exact hr books count callers _

end Loop

end ScriptEngine
