import ScriptEngine.Proofs.Engine.Scoping
import ScriptEngine.Proofs.Machine.Touch

namespace ScriptEngine

open Engine

namespace Loop

theorem step_proceeds : Proceeding false engine step :=
  step_relates allows_proceeds callNative_proceeds

theorem catch?_proceeds {silent : Bool} {error : Error} {e : Engine} {frames : List CallFrame} {s : Loop}
    (hc : catch? error e frames = some s) : e.Proceeds silent s.engine := by
  induction frames with
  | nil => cases hc
  | cons frame callers ih =>
    simp only [catch?] at hc
    split at hc
    · exact ih hc
    · obtain rfl := Option.some.inj hc
      exact unwind_proceeds _ error e

end Loop

namespace Machine

variable {silent : Bool}

theorem failLoop_proceeds (entry : Entry) (error : Error) (e : Engine) :
    e.Proceeds silent (failLoop entry error e).2 := by
  simp only [failLoop]
  cases error.carried? with
  | some v => exact .still rfl rfl rfl
  | none =>
    have hloops : e.Proceeds silent { e with loops := e.loops - 1 } := .still rfl rfl rfl
    exact (hloops.trans (exceptionValue_proceeds error _)).trans (.still rfl rfl rfl)

theorem raise_proceeds (entry : Entry) (error : Error) (tasks : List Task) (s : Loop) :
    s.engine.Proceeds silent (raise entry error tasks s).engine := by
  simp only [raise]
  cases hc : Loop.catch? error s.engine s.frames with
  | some s' => exact Loop.catch?_proceeds hc
  | none => exact failLoop_proceeds entry error s.engine

theorem start_proceeds (argc : Nat) (tasks : List Task) (e : Engine) :
    e.Proceeds false (start argc tasks e).engine := by
  have hsite : Relates (Proceeds false) id (callSite argc) := allows_proceeds.callSite argc
  simp only [start]
  cases hs : callSite argc e with
  | error error e₁ => exact hsite.failed hs
  | ok site e₁ =>
    refine (hsite.returned hs).trans ?_
    dsimp only
    cases site.callee with
    | native f =>
      have hnative := callNative_proceeds f site.args e₁
      dsimp only
      cases hn : callNative f site.args e₁ with
      | error error e₂ =>
        rw [hn] at hnative
        exact hnative.trans (.still rfl rfl rfl)
      | ok result e₂ =>
        rw [hn] at hnative
        cases result with
        | value v => exact hnative.trans (.still rfl rfl rfl)
        | run closure => exact hnative
    | closure unit env =>
      dsimp only
      split
      · exact .still rfl rfl rfl
      · have hloops : e₁.Proceeds false { e₁ with loops := e₁.loops + 1 } := .still rfl rfl rfl
        have henter := hloops.trans (allows_proceeds.enterClosure unit env site _)
        cases hc : enterClosure unit env site { e₁ with loops := e₁.loops + 1 } with
        | ok frame e₂ =>
          rw [hc] at henter
          exact henter
        | error error e₂ =>
          rw [hc] at henter
          exact henter.trans (raise_proceeds _ error tasks ⟨e₂, []⟩)

theorem call_proceeds (receiver callee : Value) (args : List Value) (tasks : List Task) (e : Engine) :
    e.Proceeds false (call receiver callee args tasks e).engine := by
  have hbegin := @beginProtected_proceeds false e
  simp only [call]
  cases hb : beginProtected e with
  | error error e₁ =>
    rw [hb] at hbegin
    exact hbegin.trans (carry_proceeds error e₁)
  | ok scope e₁ =>
    rw [hb] at hbegin
    have hpush := hbegin.trans (allows_proceeds.pushAll (callee :: receiver :: args) e₁)
    dsimp only
    cases hp : pushAll (callee :: receiver :: args) e₁ with
    | error error e₂ =>
      rw [hp] at hpush
      exact hpush
    | ok _ e₂ =>
      rw [hp] at hpush
      exact hpush.trans (start_proceeds args.length _ e₂)

theorem resume_proceeds (result : Except Error Value) (tasks : List Task) (e : Engine) (task : Task) :
    e.Proceeds silent (resume result tasks e task).engine := by
  cases task with
  | native base => exact .still rfl rfl rfl
  | guard scope =>
    have hstate : stateOf (resultIn e result) = e := by cases result <;> rfl
    have hend := (@endProtected_proceeds _ silent scope (resultIn e result)).trans (carried_proceeds _)
    rw [hstate] at hend
    simp only [resume]
    cases hr : carried (endProtected scope (resultIn e result)) <;>
    · rw [hr] at hend
      exact hend
  | loop entry frames =>
    cases result with
    | error error => exact raise_proceeds entry error tasks ⟨e, frames⟩
    | ok v =>
      have hpush := @push_proceeds silent v e
      simp only [resume]
      cases hp : push v e with
      | ok _ e₁ =>
        rw [hp] at hpush
        exact hpush
      | error error e₁ =>
        rw [hp] at hpush
        exact hpush.trans (raise_proceeds entry error tasks ⟨e₁, frames⟩)

theorem step_proceeds (m : Machine) : m.engine.Proceeds false m.step.engine := by
  obtain ⟨e, tasks, control⟩ := m
  cases control with
  | calling receiver callee args => exact call_proceeds receiver callee args tasks e
  | returning result =>
    cases tasks with
    | nil => exact .refl e
    | cons task tasks => exact resume_proceeds result tasks e task
  | running entry frames =>
    have hstep := Loop.step_proceeds ⟨e, frames⟩
    simp only [step]
    cases hr : Loop.step ⟨e, frames⟩ with
    | error error s =>
      rw [hr] at hstep
      exact hstep.trans (raise_proceeds entry error tasks s)
    | ok signal s =>
      rw [hr] at hstep
      cases signal with
      | proceed => exact hstep
      | finished v => exact hstep.trans (.still rfl rfl rfl)
      | evaluate closure base => exact hstep

theorem steps_proceed (m : Machine) (n : Nat) : m.engine.Proceeds false (step^[n] m).engine := by
  induction n generalizing m with
  | zero => exact .refl m.engine
  | succ n ih => exact (step_proceeds m).trans (ih m.step)

end Machine

end ScriptEngine
