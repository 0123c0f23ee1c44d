import ScriptEngine.Proofs.Machine.Depth

/-!
A function can be called by an instruction, inside the loop that is at work, or from outside, in a
loop of its own. Both runs go in step: the one has the frames of the callers below its own frames,
the other has one loop more. They come to the same unless one of them runs into a limit.
-/

namespace ScriptEngine

open Engine

def Error.isLimit (x : Error) : Bool :=
  match x.root with
  | .fault .stackOverflow | .fault .callStackOverflow | .fault .exceptionStackOverflow => true
  | _ => false

namespace Machine

def WithinLimits (m : Machine) : Prop :=
  ∀ error, m.Raises error → error.isLimit = false

/-- How a call made inside a loop ends, for the frames that were there when it was made: its own
frame is left and its value is on the stack, or an error is handed to those frames, because none of
the frames above has an open try statement. -/
inductive Ends (entry : Entry) (tasks : List Task) (outer : List CallFrame) :
    Machine → EStateM.Result Error Engine Value → Prop
  | popped {e e' : Engine} {g : CallFrame} : Loop.step ⟨e, g :: outer⟩ = .ok .proceed ⟨e', outer⟩ →
      Ends entry tasks outer ⟨e, tasks, .running entry (g :: outer)⟩ (.ok e'.pop.1 e'.pop.2)
  | thrown {m : Machine} {error : Error} {e : Engine} {gs : List CallFrame} :
      m.Strikes entry tasks error ⟨e, gs ++ outer⟩ → (∀ g ∈ gs, g.handlers = []) →
      Ends entry tasks outer m (.error error e)

def Completes (entry : Entry) (tasks : List Task) (outer : List CallFrame) (m : Machine)
    (r : EStateM.Result Error Engine Value) : Prop :=
  ∃ k, Ends entry tasks outer (step^[k] m) r ∧ ∀ j < k, ∀ r', ¬ Ends entry tasks outer (step^[j] m) r'

/-- The same value in the same state, or errors with the same root; a value that the first error has
is that of the second one, too. -/
inductive Accords : EStateM.Result Error Engine Value → EStateM.Result Error Engine Value → Prop
  | ok (v : Value) (e : Engine) : Accords (.ok v e) (.ok v e)
  | error {x y : Error} (e e' : Engine) : x.root = y.root → (∀ v, x.carried? = some v → y.carried? = some v) →
      Accords (.error x e) (.error y e')

variable {entry inner : Entry} {tasks : List Task} {outer : List CallFrame} {n : Nat} {m a b : Machine}
  {r r' : EStateM.Result Error Engine Value}

theorem Strikes.unique {error error' : Error} {s s' : Loop} (h : m.Strikes entry tasks error s)
    (h' : m.Strikes entry tasks error' s') : error = error' ∧ s = s' := by
  cases h with
  | raised hs =>
    cases h' with
    | raised hs' => rw [hs] at hs'; cases hs'; exact ⟨rfl, rfl⟩
  | handed =>
    cases h' with
    | handed => exact ⟨rfl, rfl⟩
  | unanswered hp =>
    cases h' with
    | unanswered hp' => rw [hp] at hp'; cases hp'; exact ⟨rfl, rfl⟩

theorem Strikes.unanswered_of_ok {e : Engine} {frames : List CallFrame} {v : Value} {error : Error} {s : Loop}
    (h : Strikes ⟨e, .loop entry frames :: tasks, .returning (.ok v)⟩ entry tasks error s) :
    ∃ e', push v e = .error error e' := by
  cases h with
  | unanswered hp => exact ⟨_, hp⟩

theorem Ends.unique (h : Ends entry tasks outer m r) (h' : Ends entry tasks outer m r') : r = r' := by
  cases h with
  | popped hs =>
    cases h' with
    | popped hs' => rw [hs] at hs'; cases hs'; rfl
    | thrown hs' _ =>
      cases hs' with
      | raised hs' => rw [hs] at hs'; cases hs'
  | thrown hs _ =>
    cases h' with
    | popped hs' =>
      cases hs with
      | raised hs => rw [hs] at hs'; cases hs'
    | thrown hs' _ =>
      obtain ⟨rfl, hs⟩ := hs.unique hs'
      obtain ⟨rfl, -⟩ := Loop.mk.inj hs
      rfl

/-- The frames of the callee, in the loop of its caller and in a loop of their own; or what runs on
top of them, while they wait for a script that a built-in function runs. -/
inductive Shadows (n : Nat) (entry inner : Entry) (tasks : List Task) (outer : List CallFrame) :
    Machine → Machine → Prop
  | running {e : Engine} {gs : List CallFrame} : BasedAt inner.base gs → e.loops = n →
      Shadows n entry inner tasks outer ⟨e, tasks, .running entry (gs ++ outer)⟩ ⟨e.deeper, [], .running inner gs⟩
  | waiting {m : Machine} {gs : List CallFrame} : BasedAt inner.base gs → m.engine.loops = n + m.nested →
      Shadows n entry inner tasks outer (m.extend (.loop entry (gs ++ outer) :: tasks))
        (m.deeper.extend [.loop inner gs])

/-- The first machine takes a step and the second one has just taken its own: they go on together,
or the call ends in both. -/
inductive Pace (n : Nat) (entry inner : Entry) (tasks : List Task) (outer : List CallFrame) (a b : Machine) : Prop
  | onward : (∀ r, ¬ Ends entry tasks outer a r) → Shadows n entry inner tasks outer a.step b →
      Pace n entry inner tasks outer a b
  | ended {r r' : EStateM.Result Error Engine Value} : Ends entry tasks outer a r → b.result? = some r' →
      Accords r r' → Pace n entry inner tasks outer a b

theorem not_ends_of_ok {e e' : Engine} {frames fs : List CallFrame} {signal : Signal}
    (hs : Loop.step ⟨e, frames⟩ = .ok signal ⟨e', fs ++ outer⟩) (hne : fs ≠ [])
    (r : EStateM.Result Error Engine Value) : ¬ Ends entry tasks outer ⟨e, tasks, .running entry frames⟩ r := by
  intro h
  cases h with
  | popped hs' =>
    rw [hs] at hs'
    have hframes := congrArg Loop.frames (EStateM.Result.ok.inj hs').2
    exact hne (List.append_left_eq_self.mp hframes)
  | thrown hs' _ =>
    cases hs' with
    | raised hs' => rw [hs] at hs'; cases hs'

theorem not_ends_of_caught {error : Error} {e : Engine} {gs : List CallFrame} {s : Loop}
    (ha : a.Strikes entry tasks error ⟨e, gs ++ outer⟩) (hc : Loop.catch? error e gs = some s)
    (r : EStateM.Result Error Engine Value) : ¬ Ends entry tasks outer a r := by
  intro h
  cases h with
  | popped hs' =>
    cases ha with
    | raised hs => rw [hs] at hs'; cases hs'
  | thrown hs' hopen =>
    obtain ⟨rfl, hs⟩ := ha.unique hs'
    obtain ⟨-, hs⟩ := Loop.mk.inj hs
    rw [← List.append_cancel_right hs] at hopen
    rw [Loop.catch?_eq_none.mpr hopen] at hc
    cases hc

theorem failLoop_accords (entry : Entry) (error : Error) (e e₀ : Engine) :
    Accords (.error error e₀) (resultIn (failLoop entry error e).2 (.error (failLoop entry error e).1)) := by
  simp only [failLoop]
  cases hc : error.carried? with
  | some v => exact .error _ _ rfl fun _ h => h
  | none =>
    refine .error _ _ rfl fun v h => ?_
    rw [hc] at h
    cases h

theorem pace_of_strike {error : Error} {e : Engine} {gs : List CallFrame}
    (ha : a.Strikes entry tasks error ⟨e, gs ++ outer⟩) (hb : b = raise inner error [] ⟨e.deeper, gs⟩)
    (hn : e.loops = n) (hgs : gs = [] ∨ BasedAt inner.base gs) : Pace n entry inner tasks outer a b := by
  have hstep := ha.step
  have hdeeper := @Loop.catch?_aside id (· + 1) error e gs
  cases hc : Loop.catch? error e gs with
  | some s =>
    have hbased : BasedAt inner.base s.frames := by
      rcases hgs with rfl | hgs
      · cases hc
      · exact Loop.catch?_based hgs hc
    have hloops : s.engine.loops = n := ((tally_eq.mp (Loop.catch?_tally hc)).2).trans hn
    have houter : Loop.catch? error e (gs ++ outer) = some ⟨s.engine, s.frames ++ outer⟩ := by
      have h := @Loop.catch?_embed id id outer error e gs
      rwa [hc] at h
    rw [hc] at hdeeper
    refine .onward (not_ends_of_caught ha hc) ?_
    rw [hstep, hb]
    simp only [raise, Engine.deeper, hdeeper, houter, Option.map_some, Loop.embed_nil]
    exact .running hbased hloops
  | none =>
    rw [hc] at hdeeper
    have hfailed : b = ⟨(failLoop inner error e.deeper).2, [],
        .returning (.error (failLoop inner error e.deeper).1)⟩ := by
      rw [hb, raise]
      simp only [Engine.deeper, hdeeper, Option.map_none]
    refine .ended (.thrown ha (Loop.catch?_eq_none.mp hc)) ?_ (failLoop_accords inner error e.deeper e)
    rw [hfailed]
    rfl

theorem pace_returning {e : Engine} {g : CallFrame} (hr : g.Returns) (hg : g.base = inner.base) (hn : e.loops = n)
    (ho : outer ≠ []) (hl : WithinLimits ⟨e, tasks, .running entry (g :: outer)⟩) :
    Pace n entry inner tasks outer ⟨e, tasks, .running entry (g :: outer)⟩
      (step ⟨e.deeper, [], .running inner [g]⟩) := by
  obtain ⟨r, ht, hstep⟩ := Loop.step_hands_on hr e
  cases r with
  | error error e₁ =>
    have ha : Loop.step ⟨e, g :: outer⟩ = .error error ⟨e₁, [] ++ outer⟩ := hstep id id outer
    have hb : Loop.step ⟨e.deeper, [g]⟩ = .error error ⟨e₁.deeper, []⟩ := hstep id (· + 1) []
    refine pace_of_strike (.raised ha) ?_ ((tally_eq.mp ht).2.trans hn) (.inl rfl)
    simp only [step, hb]
  | ok v e₁ =>
    have ha : Loop.step ⟨e, g :: outer⟩ = Loop.handOn g.base outer (.ok v e₁) := hstep id id outer
    have hb : Loop.step ⟨e.deeper, [g]⟩ = .ok (.finished v) ⟨e₁.deeper, []⟩ := hstep id (· + 1) []
    have hopen : ¬ outer.isEmpty = true := by rwa [List.isEmpty_iff]
    simp only [Loop.handOn, if_neg hopen, push_eq] at ha
    by_cases hfull : (e₁.cutStack g.base).limits.stackSize ≤ (e₁.cutStack g.base).stack.size
    · rw [if_pos hfull] at ha
      have hlimit := hl _ (.inside ha)
      cases hlimit
    · have hpushed : Loop.step ⟨e, g :: outer⟩ = .ok .proceed ⟨(e₁.cutStack g.base).pushThrown v, outer⟩ := by
        rw [ha, if_neg hfull]
        rfl
      have hpop : ((e₁.cutStack g.base).pushThrown v).pop = (v, e₁.cutStack g.base) := by
        simp [Engine.pop, pushThrown]
      have hends : Ends entry tasks outer ⟨e, tasks, .running entry (g :: outer)⟩ (.ok v (e₁.cutStack g.base)) := by
        have h := @Ends.popped entry tasks outer e _ g hpushed
        rwa [hpop] at h
      have hresult : (step ⟨e.deeper, [], .running inner [g]⟩).result? = some (.ok v (e₁.cutStack g.base)) := by
        simp only [step, hb]
        rw [hg]
        rfl
      exact .ended hends hresult (.ok v _)

theorem pace_running {e : Engine} {gs : List CallFrame} (hgs : BasedAt inner.base gs) (hn : e.loops = n)
    (ho : outer ≠ []) (hl : WithinLimits ⟨e, tasks, .running entry (gs ++ outer)⟩) :
    Pace n entry inner tasks outer ⟨e, tasks, .running entry (gs ++ outer)⟩
      (step ⟨e.deeper, [], .running inner gs⟩) := by
  cases gs with
  | nil => exact hgs.elim
  | cons g callers =>
    by_cases hlast : callers = [] ∧ g.Returns
    · obtain ⟨rfl, hr⟩ := hlast
      exact pace_returning hr hgs hn ho hl
    · have hc : callers ≠ [] ∨ ¬ g.Returns := not_and_or.mp hlast
      have ha := @Loop.step_mirrors id id outer g callers (.inr hc) e
      have hb := @Loop.step_aside id (· + 1) e (g :: callers)
      have hstays := Loop.step_stays hgs hc e
      have htally := Loop.step_tally ⟨e, g :: callers⟩
      cases hs : Loop.step ⟨e, g :: callers⟩ with
      | error error s =>
        rw [hs] at ha hb htally
        rw [mapState, Loop.embed_nil] at hb
        refine pace_of_strike (.raised ha) ?_ ((tally_eq.mp htally).2.trans hn) (.inr (hstays.error hs))
        show step ⟨e.aside id (· + 1), [], .running inner (g :: callers)⟩ = _
        simp only [step, hb]
        rfl
      | ok signal s =>
        rw [hs] at ha hb htally
        rw [mapState, Loop.embed_nil] at hb
        obtain ⟨hcontinues, hbased⟩ := hstays.ok hs
        have hloops : s.engine.loops = n := (tally_eq.mp htally).2.trans hn
        refine .onward (not_ends_of_ok ha hbased.ne_nil) ?_
        show Shadows n entry inner tasks outer (step ⟨e.aside id id, tasks, .running entry (g :: callers ++ outer)⟩)
          (step ⟨e.aside id (· + 1), [], .running inner (g :: callers)⟩)
        simp only [step, ha, hb]
        cases signal with
        | proceed => exact .running hbased hloops
        | finished v => exact hcontinues.elim
        | evaluate closure base =>
          exact .waiting (m := ⟨s.engine, [.native base], .calling (.object s.engine.global) closure []⟩) hbased hloops

theorem not_ends_of_waiting {frames : List CallFrame} (hm : m.result? = none) (r : EStateM.Result Error Engine Value) :
    ¬ Ends entry tasks outer (m.extend (.loop entry frames :: tasks)) r := by
  obtain ⟨e, ts, control⟩ := m
  have hlonger : ts ++ .loop entry frames :: tasks ≠ tasks := by
    intro h
    have := congrArg List.length h
    simp at this
    omega
  have hshorter (task : Task) (h : ts ++ .loop entry frames :: tasks = task :: tasks) : ts = [] := by
    have := congrArg List.length h
    simp at this
    exact this
  intro h
  generalize hx : Machine.extend ⟨e, ts, control⟩ (.loop entry frames :: tasks) = x at h
  cases h with
  | popped hs =>
    obtain ⟨-, htasks, -⟩ := Machine.mk.inj hx
    exact hlonger htasks
  | thrown hs _ =>
    cases hs with
    | raised hs =>
      obtain ⟨-, htasks, -⟩ := Machine.mk.inj hx
      exact hlonger htasks
    | handed =>
      obtain ⟨-, htasks, hcontrol⟩ := Machine.mk.inj hx
      obtain rfl := hshorter _ htasks
      obtain rfl : control = _ := hcontrol
      cases hm
    | unanswered hp =>
      obtain ⟨-, htasks, hcontrol⟩ := Machine.mk.inj hx
      obtain rfl := hshorter _ htasks
      obtain rfl : control = _ := hcontrol
      cases hm

theorem pace_waiting {gs : List CallFrame} (hgs : BasedAt inner.base gs) (hm : m.engine.loops = n + m.nested)
    (hl : WithinLimits (m.deeper.extend [.loop inner gs]).step) :
    Pace n entry inner tasks outer (m.extend (.loop entry (gs ++ outer) :: tasks))
      (m.deeper.extend [.loop inner gs]).step := by
  cases hr : m.result? with
  | none =>
    have hdeeper : m.deeper.result? = none := by
      obtain ⟨e, ts, control⟩ := m
      cases control with
      | running | calling => rfl
      | returning result =>
        cases ts with
        | nil => cases hr
        | cons => rfl
    have ha := step_extend m (.loop entry (gs ++ outer) :: tasks) hr
    have hb := step_extend m.deeper [.loop inner gs] hdeeper
    rcases step_deeper m (fun h => by omega) with hstep | hrefused
    · have htally : Tallies m.engine.ledger n m := tally_eq.mpr ⟨rfl, hm⟩
      refine .onward (not_ends_of_waiting hr) ?_
      rw [ha, hb, hstep]
      exact .waiting hgs (tally_eq.mp htally.step).2
    · rw [hb] at hl
      generalize m.deeper.step = refused at hrefused hl
      obtain ⟨e, ts, control⟩ := refused
      obtain rfl : control = _ := hrefused
      have hlimit := hl _ .between
      cases hlimit
  | some r =>
    obtain ⟨e, result, rfl⟩ := eq_of_result? hr
    cases result with
    | error error => exact pace_of_strike .handed rfl hm (.inr hgs)
    | ok v =>
      have hdeeper : push v e.deeper = mapState Engine.deeper (push v e) := push_detached v id (· + 1) e
      cases hp : push v e with
      | error error e₁ =>
        rw [hp] at hdeeper
        have hloops := (tally_eq.mp ((push_detached v).tally_error hp)).2
        refine pace_of_strike (.unanswered hp) ?_ (hloops.trans hm) (.inr hgs)
        show resume (.ok v) [] e.deeper (.loop inner gs) = _
        simp only [resume, hdeeper, mapState]
      | ok a e₁ =>
        rw [hp] at hdeeper
        have hloops := (tally_eq.mp ((push_detached v).tally_ok hp)).2
        refine .onward ?_ ?_
        · intro r h
          cases h with
          | thrown hs _ =>
            obtain ⟨e', hp'⟩ := hs.unanswered_of_ok
            rw [hp] at hp'
            cases hp'
        · show Shadows n entry inner tasks outer (resume (.ok v) tasks e (.loop entry (gs ++ outer)))
            (resume (.ok v) [] e.deeper (.loop inner gs))
          simp only [resume, hp, hdeeper, mapState]
          exact .running hgs (hloops.trans hm)

theorem Shadows.pace (h : Shadows n entry inner tasks outer a b) (ho : outer ≠ []) (ha : WithinLimits a)
    (hb : WithinLimits b.step) : Pace n entry inner tasks outer a b.step := by
  cases h with
  | running hgs hn => exact pace_running hgs hn ho ha
  | waiting hgs hm => exact pace_waiting hgs hm hb

theorem Shadows.result?_eq_none (h : Shadows n entry inner tasks outer a b) : b.result? = none := by
  cases h with
  | running => rfl
  | @waiting m gs hgs hm =>
    obtain ⟨e, ts, control⟩ := m
    cases control with
    | running | calling => rfl
    | returning result => cases ts <;> rfl

def KeepsLimits (entry : Entry) (tasks : List Task) (outer : List CallFrame) (m : Machine) : Prop :=
  ∀ k, (∀ j < k, ∀ r, ¬ Ends entry tasks outer (step^[j] m) r) → WithinLimits (step^[k] m)

theorem KeepsLimits.next (h : KeepsLimits entry tasks outer a) (hends : ∀ r, ¬ Ends entry tasks outer a r) :
    KeepsLimits entry tasks outer a.step := by
  intro k hk
  refine h (k + 1) fun j hj => ?_
  cases j with
  | zero => exact hends
  | succ j => exact hk j (by omega)

theorem Completes.next (h : Completes entry tasks outer a.step r) (hends : ∀ r, ¬ Ends entry tasks outer a r) :
    Completes entry tasks outer a r := by
  obtain ⟨k, hend, hfirst⟩ := h
  refine ⟨k + 1, hend, fun j hj => ?_⟩
  cases j with
  | zero => exact hends
  | succ j => exact hfirst j (by omega)

theorem KeepsLimits.now (h : KeepsLimits entry tasks outer a) : WithinLimits a :=
  h 0 fun j hj => absurd hj (Nat.not_lt_zero j)

theorem Pace.outcome (h : Pace n entry inner tasks outer a b) (ho : outer ≠ []) (ha : KeepsLimits entry tasks outer a)
    (hb : ∀ k, WithinLimits (step^[k] b)) {k : Nat} (hend : Ends entry tasks outer (step^[k] a) r)
    (hfirst : ∀ j < k, ∀ r', ¬ Ends entry tasks outer (step^[j] a) r') :
    ∃ r', (step^[k] b).result? = some r' ∧ Accords r r' := by
  induction k generalizing a b with
  | zero =>
    cases h with
    | onward hends _ => exact absurd hend (hends r)
    | ended hend' hresult haccords =>
      obtain rfl := hend.unique hend'
      exact ⟨_, hresult, haccords⟩
  | succ k ih =>
    have hends : ∀ r, ¬ Ends entry tasks outer a r := hfirst 0 (Nat.succ_pos k)
    cases h with
    | onward _ hnext =>
      have hpace := hnext.pace ho (ha.next hends).now (hb 1)
      exact ih hpace (ha.next hends) (fun k => hb (k + 1)) hend fun j hj => hfirst (j + 1) (by omega)
    | ended hend' _ _ => exact absurd hend' (hends _)

theorem Pace.completes (h : Pace n entry inner tasks outer a b) (ho : outer ≠ []) (ha : KeepsLimits entry tasks outer a)
    (hb : ∀ k, WithinLimits (step^[k] b)) {k : Nat} (hr : (step^[k] b).result? = some r') :
    ∃ r, Completes entry tasks outer a r ∧ Accords r r' := by
  induction k generalizing a b with
  | zero =>
    cases h with
    | onward _ hnext =>
      rw [Function.iterate_zero_apply, hnext.result?_eq_none] at hr
      cases hr
    | ended hend hresult haccords =>
      obtain rfl := Option.some.inj (hresult.symm.trans hr)
      exact ⟨_, ⟨0, hend, fun j hj => absurd hj (Nat.not_lt_zero j)⟩, haccords⟩
  | succ k ih =>
    cases h with
    | onward hends hnext =>
      have hpace := hnext.pace ho (ha.next hends).now (hb 1)
      obtain ⟨r, hcompletes, haccords⟩ := ih hpace (ha.next hends) (fun k => hb (k + 1)) hr
      exact ⟨r, hcompletes.next hends, haccords⟩
    | @ended r r₂ hend hresult haccords =>
      have hresult' : (step^[0] b).result? = some r₂ := hresult
      obtain rfl := result?_unique hresult' hr
      exact ⟨r, ⟨0, hend, fun j hj => absurd hj (Nat.not_lt_zero j)⟩, haccords⟩

section Call

variable {frame : CallFrame} {callers : List CallFrame} {argc : Nat} {unit : CodeUnit} {env : Handle}
  {f receiver : Value} {low args : List Value} {e : Engine}

theorem callSite_of_layout {callee : Callee} (hs : e.stack.toList = low ++ f :: receiver :: args)
    (hf : e.callee f = .ok callee) : callSite args.length e = .ok ⟨low.length, receiver, args, callee⟩ e := by
  have hsize : e.stack.size = low.length + (args.length + 2) := by
    rw [← Array.length_toList, hs]
    simp
  have hslot (i : Nat) : e.stack[i]? = (low ++ f :: receiver :: args)[i]? := by
    rw [← Array.getElem?_toList, hs]
  have hargs : (e.stack.extract (low.length + 2) (low.length + 2 + args.length)).toList = args := by
    rw [Array.toList_extract, hs]
    simp
  apply Ensures.eq_ok
  refine .get ?_
  rw [if_neg (by omega)]
  refine .bind (.pure ?_)
  have hbase : e.stack.size - (args.length + 2) = low.length := by omega
  have hcallee : e.stack[low.length]?.getD .undefined = f := by rw [hslot]; simp
  have hreceiver : e.stack[low.length + 1]?.getD .undefined = receiver := by rw [hslot]; simp
  simp only [hbase, hcallee, hf, hreceiver, hargs]
  exact ⟨rfl, rfl⟩

theorem call_closure {site : CallSite} (hsite : callSite argc e = .ok site e) (hf : site.callee = .closure unit env) :
    Loop.call callers argc ⟨e, callers⟩ =
      match enterClosure unit env site e with
      | .ok g e₁ => .ok .proceed ⟨e₁, g :: callers⟩
      | .error error e₁ => .error error ⟨e₁, callers⟩ := by
  have hfound : Loop.within (callSite argc) ⟨e, callers⟩ = .ok site ⟨e, callers⟩ := by
    simp only [Loop.within, hsite]
  refine (bind_of_ok hfound).trans ?_
  rw [hf]
  cases henter : enterClosure unit env site e with
  | ok g e₁ =>
    have hentered : Loop.within (enterClosure unit env site) ⟨e, callers⟩ = .ok g ⟨e₁, callers⟩ := by
      simp only [Loop.within, henter]
    exact bind_of_ok hentered
  | error error e₁ =>
    have hentered : Loop.within (enterClosure unit env site) ⟨e, callers⟩ = .error error ⟨e₁, callers⟩ := by
      simp only [Loop.within, henter]
    exact bind_of_error hentered

theorem start_closure {site : CallSite} (hsite : callSite argc e = .ok site e) (hf : site.callee = .closure unit env)
    (hl : WithinLimits (start argc [] e)) :
    start argc [] e =
      match enterClosure unit env site e with
      | .ok g e₁ => ⟨e₁.deeper, [], .running ⟨site.base, e.scopes.size, e.trace.size⟩ [g]⟩
      | .error error e₁ => raise ⟨site.base, e.scopes.size, e.trace.size⟩ error [] ⟨e₁.deeper, []⟩ := by
  have henter : enterClosure unit env site { e with loops := e.loops + 1 } =
      mapState Engine.deeper (enterClosure unit env site e) :=
    enterClosure_detached unit env site id (· + 1) e
  have hstart : start argc [] e =
      if e.limits.reentryLimit ≤ e.loops then
        ⟨e.cutStack site.base, [], .returning (.error (.fault .callStackOverflow))⟩
      else
        match enterClosure unit env site e with
        | .ok g e₁ => ⟨e₁.deeper, [], .running ⟨site.base, e.scopes.size, e.trace.size⟩ [g]⟩
        | .error error e₁ => raise ⟨site.base, e.scopes.size, e.trace.size⟩ error [] ⟨e₁.deeper, []⟩ := by
    simp only [start, hsite, hf, henter]
    cases enterClosure unit env site e <;> rfl
  by_cases hfull : e.limits.reentryLimit ≤ e.loops
  · rw [hstart, if_pos hfull] at hl
    have hlimit := hl _ .between
    cases hlimit
  · rw [hstart, if_neg hfull]

theorem pace_of_call {site : CallSite} (hi : frame.unit.code[frame.next]? = some (.call argc))
    (hsite : callSite argc (frame.reached e) = .ok site (frame.reached e)) (hf : site.callee = .closure unit env)
    (hb : WithinLimits (start argc [] (frame.reached e))) :
    ∃ n inner, Pace n entry inner tasks (frame.following :: callers) ⟨e, tasks, .running entry (frame :: callers)⟩
      (start argc [] (frame.reached e)) := by
  have ha : Loop.step ⟨e, frame :: callers⟩ =
      Loop.call (frame.following :: callers) argc ⟨frame.reached e, frame.following :: callers⟩ := by
    rw [Loop.step_eq, hi]
    rfl
  have hb := start_closure hsite hf hb
  rw [call_closure hsite hf] at ha
  cases hg : enterClosure unit env site (frame.reached e) with
  | error error e₁ =>
    rw [hg] at ha hb
    exact ⟨_, _, pace_of_strike (.raised ha) hb rfl (.inl rfl)⟩
  | ok g e₁ =>
    rw [hg] at ha hb
    obtain ⟨-, receiver, scope, t, -, hframe⟩ := (enterClosure_ensures unit env site (frame.reached e)).ok hg
    have hbase : BasedAt site.base [g] := by
      show g.base = site.base
      rw [hframe]
    let inner : Entry := ⟨site.base, (frame.reached e).scopes.size, (frame.reached e).trace.size⟩
    have hshadows : Shadows e₁.loops entry inner tasks (frame.following :: callers)
        ⟨e₁, tasks, .running entry ([g] ++ frame.following :: callers)⟩ ⟨e₁.deeper, [], .running inner [g]⟩ :=
      .running hbase rfl
    refine ⟨e₁.loops, inner, .onward (not_ends_of_ok ha (List.cons_ne_nil g [])) ?_⟩
    rw [hb]
    simp only [step, ha]
    exact hshadows

theorem calls_agree (hi : frame.unit.code[frame.next]? = some (.call args.length))
    (hs : e.stack.toList = low ++ f :: receiver :: args) (hf : e.callee f = .ok (.closure unit env))
    (ha : KeepsLimits entry tasks (frame.following :: callers) ⟨e, tasks, .running entry (frame :: callers)⟩)
    (hb : ∀ k, WithinLimits (step^[k] (start args.length [] (frame.reached e)))) :
    (∀ r, Completes entry tasks (frame.following :: callers) ⟨e, tasks, .running entry (frame :: callers)⟩ r →
      ∃ fuel r', run fuel (start args.length [] (frame.reached e)) = some r' ∧ Accords r r') ∧
    (∀ fuel r', run fuel (start args.length [] (frame.reached e)) = some r' →
      ∃ r, Completes entry tasks (frame.following :: callers) ⟨e, tasks, .running entry (frame :: callers)⟩ r ∧
        Accords r r') := by
  have hs₁ : (frame.reached e).stack.toList = low ++ f :: receiver :: args := by rw [frame.reached_stack, hs]
  have hf₁ : (frame.reached e).callee f = .ok (.closure unit env) := by rw [frame.reached_callee, hf]
  obtain ⟨n, inner, hpace⟩ := pace_of_call hi (callSite_of_layout hs₁ hf₁) rfl (hb 0)
  have ho : frame.following :: callers ≠ [] := List.cons_ne_nil _ _
  constructor
  · rintro r ⟨k, hend, hfirst⟩
    obtain ⟨r', hresult, haccords⟩ := hpace.outcome ho ha hb hend hfirst
    exact ⟨k, r', by rwa [run_eq_result], haccords⟩
  · intro fuel r' hr
    rw [run_eq_result] at hr
    exact hpace.completes ho ha hb hr

end Call

section Sample

def raised? : Machine → Option Error
  | ⟨e, _, .running _ frames⟩ =>
    match Loop.step ⟨e, frames⟩ with
    | .ok _ _ => none
    | .error error _ => some error
  | ⟨_, _, .returning (.error error)⟩ => some error
  | ⟨_, _, .returning (.ok _)⟩ | ⟨_, _, .calling _ _ _⟩ => none

theorem raises_iff {error : Error} : m.Raises error ↔ m.raised? = some error := by
  constructor
  · intro h
    cases h with
    | inside hs => simp only [raised?, hs]
    | between => rfl
  · intro h
    obtain ⟨e, tasks, control⟩ := m
    cases control with
    | running entry frames =>
      simp only [raised?] at h
      cases hs : Loop.step ⟨e, frames⟩ with
      | ok signal s => rw [hs] at h; cases h
      | error error s => rw [hs] at h; cases h; exact .inside hs
    | calling receiver callee args => cases h
    | returning result =>
      cases result with
      | ok v => cases h
      | error error => cases h; exact .between

instance (m : Machine) : Decidable (WithinLimits m) :=
  decidable_of_iff (m.raised?.all (!·.isLimit)) <| by
    simp only [WithinLimits, raises_iff, Option.all_eq_true, Bool.not_eq_true']

def valued (n : Nat) (m : Machine) : Bool :=
  ((step^[n] m).result?.bind valueOf?).isSome && decide (∀ k < n, WithinLimits (step^[k] m))

theorem withinLimits_of_valued {n : Nat} (h : valued n m) (k : Nat) : WithinLimits (step^[k] m) := by
  simp only [valued, Bool.and_eq_true, decide_eq_true_eq] at h
  obtain ⟨hr, hinside⟩ := h
  by_cases hk : k < n
  · exact hinside k hk
  · obtain ⟨more, rfl⟩ := Nat.exists_eq_add_of_le' (Nat.le_of_not_lt hk)
    rw [Function.iterate_add_apply]
    generalize step^[n] m = ended at hr ⊢
    cases hresult : ended.result? with
    | none => rw [hresult] at hr; cases hr
    | some r =>
      obtain ⟨e, result, rfl⟩ := eq_of_result? hresult
      cases result with
      | error error => cases hr
      | ok v =>
        have hfixed : step ⟨e, [], .returning (.ok v)⟩ = ⟨e, [], .returning (.ok v)⟩ := rfl
        rw [Function.iterate_fixed hfixed]
        intro error hraises
        cases hraises

structure CallsClosure (m : Machine) where
  entry : Entry
  frame : CallFrame
  callers : List CallFrame
  low : List Value
  callee : Value
  receiver : Value
  args : List Value
  unit : CodeUnit
  env : Handle
  control : m.control = .running entry (frame :: callers)
  instr : frame.unit.code[frame.next]? = some (.call args.length)
  layout : m.engine.stack.toList = low ++ callee :: receiver :: args
  closure : m.engine.callee callee = .ok (.closure unit env)

def callsClosure? (m : Machine) (argc : Nat) : Option m.CallsClosure :=
  match hm : m.control with
  | .running entry (frame :: callers) =>
    let low := m.engine.stack.toList.take (m.engine.stack.size - argc - 2)
    match m.engine.stack.toList.drop (m.engine.stack.size - argc - 2) with
    | callee :: receiver :: args =>
      if h : frame.unit.code[frame.next]? = some (.call args.length) ∧
          m.engine.stack.toList = low ++ callee :: receiver :: args then
        match hc : m.engine.callee callee with
        | .ok (.closure unit env) =>
          some ⟨entry, frame, callers, low, callee, receiver, args, unit, env, hm, h.1, h.2, hc⟩
        | _ => none
      else none
    | _ => none
  | _ => none

theorem calls_agree_on_argument :
    ∃ (e e₁ e₂ : Engine) (f : Value) (m : Machine) (c : m.CallsClosure), create? .none {} = some e ∧
      load "sample" "function f(x) { try { throw x; } catch (e) { return e; } } f('v');" .program e = .ok f e₁ ∧
      m = step^[6] ⟨e₁, [], .calling .undefined f []⟩ ∧ c.args = [.string "v"] ∧
      Completes c.entry m.tasks (c.frame.following :: c.callers) m (.ok (.string "v") e₂) := by
  have hok : (create? .none {}).any (fun e =>
      (valueOf? (load "sample" "function f(x) { try { throw x; } catch (e) { return e; } } f('v');" .program e)).any fun loaded =>
        let m := step^[6] ⟨loaded.2, [], .calling .undefined loaded.1 []⟩
        (callsClosure? m 1).any fun c =>
        ((run 6 (start c.args.length [] (c.frame.reached m.engine))).bind valueOf?).any fun r =>
          c.args = [.string "v"] && r.1 = .string "v" && valued 10 m &&
            valued 6 (start c.args.length [] (c.frame.reached m.engine))) = true := by
    decide +kernel
  obtain ⟨e, he, hrest⟩ := (Option.any_eq_true _ _).mp hok
  obtain ⟨⟨f, e₁⟩, hf, hrest⟩ := (Option.any_eq_true _ _).mp hrest
  generalize hm : step^[6] ⟨e₁, [], .calling .undefined f []⟩ = m at hrest
  obtain ⟨c, -, hrest⟩ := (Option.any_eq_true _ _).mp hrest
  obtain ⟨⟨v, e₂⟩, hv, hrest⟩ := (Option.any_eq_true _ _).mp hrest
  simp only [Bool.and_eq_true, decide_eq_true_eq] at hrest
  obtain ⟨⟨⟨hargs, rfl⟩, hinside⟩, houtside⟩ := hrest
  obtain ⟨r', hrun, hr'⟩ := Option.bind_eq_some_iff.mp hv
  rw [eq_ok_of_valueOf? hr'] at hrun
  have hstate : (⟨m.engine, m.tasks, .running c.entry (c.frame :: c.callers)⟩ : Machine) = m := by
    rw [← c.control]
  have hkeeps : KeepsLimits c.entry m.tasks (c.frame.following :: c.callers)
      ⟨m.engine, m.tasks, .running c.entry (c.frame :: c.callers)⟩ := by
    rw [hstate]
    exact fun k _ => withinLimits_of_valued hinside k
  obtain ⟨r, hcompletes, haccords⟩ :=
    (calls_agree c.instr c.layout c.closure hkeeps (withinLimits_of_valued houtside)).2 6 _ hrun
  cases haccords
  rw [hstate] at hcompletes
  exact ⟨e, e₁, e₂, f, m, c, he, eq_ok_of_valueOf? hf, hm.symm, hargs, hcompletes⟩

end Sample

end Machine

end ScriptEngine
