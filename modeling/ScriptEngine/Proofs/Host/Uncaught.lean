import ScriptEngine.Proofs.Host.Rethrow
import ScriptEngine.Proofs.Host.ThrowSite

/-!
When the panic handler runs. An error is given to the handler if no scope is open, unless it is uncaught
already; but a value that is put around an uncaught error hides that, and then the handler runs again.
-/

namespace ScriptEngine

open Engine

namespace Error

def panics : Error → Nat
  | .uncaught inner => inner.panics + 1
  | .rethrown _ inner => inner.panics
  | .reading _ | .parsing _ | .compiling _ | .fault _ | .thrown _ _ | .unbalancedScope => 0

theorem panics_carrying (v : Value) (error : Error) : (error.carrying v).panics = error.panics := by
  cases error <;> rfl

theorem isUncaught_carrying (v : Value) (error : Error) : (error.carrying v).isUncaught = false := by
  cases error <;> rfl

end Error

namespace Host

variable {κ χ α : Type} {handlers : Handlers κ χ} {error error' : Error} {h h' given : Host κ χ}

def given? (error : Error) (h : Host κ χ) : Option (Host κ χ) :=
  if h.engine.frames.isEmpty && !error.isUncaught then
    some (h.update fun e => (e.exceptionValue error).2.pushThrown (e.exceptionValue error).1)
  else none

def regiven? (error : Error) (h : Host κ χ) : Option (Host κ χ) :=
  given? (h.engine.carry error).1 (h.update fun e => (e.carry error).2)

def covers (error : Error) (h : Host κ χ) : Bool :=
  error.isUncaught && h.engine.stack.back?.isSome

theorem throw_of_given (hg : h.given? error = some given) :
    throw handlers error h = (panic handlers given).map fun after =>
      (.uncaught error, after.update (cutStack h.engine.stack.size)) := by
  unfold given? at hg
  split at hg
  · next hc =>
    cases hg
    simp only [Bool.and_eq_true, Bool.not_eq_true'] at hc
    simp only [throw, hc.1, hc.2, Bool.not_true, Bool.or_self, Bool.false_eq_true, if_false]
    rfl
  · cases hg

theorem throw_of_not_given (hg : h.given? error = none) : throw handlers error h = some (error, h) := by
  unfold given? at hg
  split at hg
  · cases hg
  · next hc =>
    rw [throw, if_pos]
    cases hf : h.engine.frames.isEmpty with
    | false => rfl
    | true => simpa [hf] using hc

theorem given?_eq_none (hs : h.engine.frames ≠ [] ∨ error.isUncaught = true) : h.given? error = none := by
  rw [given?, if_neg]
  rcases hs with hf | hu
  · simp [List.isEmpty_eq_false_iff.mpr hf]
  · simp [hu]

theorem panics_of_throw (ht : throw handlers error h = some (error', h')) :
    error'.panics = error.panics + (h.given? error).toList.length ∧
      error'.isUncaught = ((h.given? error).isSome || error.isUncaught) := by
  cases hg : h.given? error with
  | none =>
    rw [throw_of_not_given hg] at ht
    cases ht
    exact ⟨rfl, rfl⟩
  | some given =>
    rw [throw_of_given hg] at ht
    obtain ⟨after, -, heq⟩ := Option.map_eq_some_iff.mp ht
    cases heq
    exact ⟨rfl, rfl⟩

/-- What becomes of an error on its way through protected scopes and through the host, in whatever states
it finds them: the error as it is now, the states that the panic handler was given with it, and how often a
value was put around it after it had come out uncaught. -/
inductive Journey (handlers : Handlers κ χ) (origin : Error) : Error → List (Host κ χ) → Nat → Prop
  | start : Journey handlers origin origin [] 0
  | thrown {error error' : Error} {calls : List (Host κ χ)} {covered : Nat} {h h' : Host κ χ} :
      Journey handlers origin error calls covered → throw handlers error h = some (error', h') →
      Journey handlers origin error' (calls ++ (h.given? error).toList) covered
  | rethrown {error error' : Error} {calls : List (Host κ χ)} {covered : Nat} {h h' : Host κ χ} :
      Journey handlers origin error calls covered → rethrow handlers error h = some (error', h') →
      Journey handlers origin error' (calls ++ (h.regiven? error).toList) (covered + (h.covers error).toNat)
  | unwound {error error' : Error} {calls : List (Host κ χ)} {covered : Nat} {e e' : Engine} {id : ScopeId} :
      Journey handlers origin error calls covered → (findFrame id e.frames).isSome = true →
      e.unwind id error = (error', e') → Journey handlers origin error' calls covered
  | resumed {β : Type} {error error' : Error} {calls : List (Host κ χ)} {covered : Nat} {h h' hb : Host κ χ} {e : Engine}
      {id : ScopeId} {body : Host κ χ → Option (Record κ χ β)} {b r : Record κ χ β} :
      Journey handlers origin error calls covered → beginProtected h.engine = .ok id e →
      body { h with engine := e } = some b → b.outcome = .error error hb →
      (findFrame id hb.engine.frames).isSome = true → Host.protect body h = some r →
      r.outcome = .error error' h' → Journey handlers origin error' calls covered

theorem unwind_error {e e' : Engine} {id : ScopeId} (ho : (findFrame id e.frames).isSome = true)
    (hu : e.unwind id error = (error', e')) : error' = error := by
  obtain ⟨⟨frame, frames⟩, hf⟩ := Option.isSome_iff_exists.mp ho
  obtain ⟨v, e₁, hu₁, -⟩ := unwind_found hf error
  rw [hu₁] at hu
  exact (Prod.mk.inj hu).1.symm

theorem protect_error {e : Engine} {id : ScopeId} {body : Host κ χ → Option (Record κ χ α)} {b r : Record κ χ α}
    {hb : Host κ χ} (hbegin : beginProtected h.engine = .ok id e) (hbody : body { h with engine := e } = some b)
    (hout : b.outcome = .error error hb) (ho : (findFrame id hb.engine.frames).isSome = true)
    (hp : Host.protect body h = some r) (hr : r.outcome = .error error' h') : error' = error := by
  rw [protect_failed hbegin hbody hout hp] at hr
  cases hr
  exact unwind_error ho rfl

structure Tallied (origin error : Error) (calls covered : Nat) : Prop where
  panics : error.panics = calls
  calls : calls ≤ covered + error.isUncaught.toNat
  root : error.root = origin.root

theorem Tallied.throw {origin : Error} {calls covered : Nat} (ht : Tallied origin error calls covered)
    (hthrow : Host.throw handlers error h = some (error', h')) :
    Tallied origin error' (calls + (h.given? error).toList.length) covered := by
  obtain ⟨hpanics, huncaught⟩ := panics_of_throw hthrow
  refine ⟨by rw [hpanics, ht.panics], ?_, (throw_root hthrow).trans ht.root⟩
  have hcalls := ht.calls
  cases hg : h.given? error with
  | none =>
    rw [hg] at huncaught
    simpa [huncaught] using hcalls
  | some given =>
    have hcaught : error.isUncaught = false := by
      refine Bool.eq_false_iff.mpr fun hu => ?_
      rw [given?_eq_none (.inr hu)] at hg
      cases hg
    rw [hg] at huncaught
    rw [hcaught] at hcalls
    simpa [huncaught] using hcalls

theorem Tallied.carry {origin : Error} {calls covered : Nat} (ht : Tallied origin error calls covered) (h : Host κ χ) :
    Tallied origin (h.engine.carry error).1 calls (covered + (h.covers error).toNat) := by
  unfold Engine.carry covers
  cases hv : h.engine.stack.back? with
  | none => simpa using ht
  | some v =>
    refine ⟨(error.panics_carrying v).trans ht.panics, ?_, (error.root_carrying v).trans ht.root⟩
    simpa [error.isUncaught_carrying v] using ht.calls

theorem Journey.tallied {origin : Error} {calls : List (Host κ χ)} {covered : Nat} (ho : origin.panics = 0)
    (hj : Journey handlers origin error calls covered) : Tallied origin error calls.length covered := by
  induction hj with
  | start => exact ⟨ho, Nat.zero_le _, rfl⟩
  | thrown _ ht ih =>
    rw [List.length_append]
    exact ih.throw ht
  | @rethrown _ _ _ _ h _ _ ht ih =>
    rw [List.length_append]
    exact (ih.carry h).throw ht
  | unwound _ ho hu ih =>
    obtain rfl := unwind_error ho hu
    exact ih
  | resumed _ hbegin hbody hout ho hp hr ih =>
    obtain rfl := protect_error hbegin hbody hout ho hp hr
    exact ih

/-- An error that came out uncaught is not given to the handler again when it is thrown, and no error is
while a scope is open. On the way of an error each call of the handler puts one wrapper around it; a further
call takes a value that was put around it after the last one, by raising it again. -/
theorem handler_runs_counted (handlers : Handlers κ χ) :
    (∀ (error : Error) (h : Host κ χ), h.engine.frames ≠ [] ∨ error.isUncaught = true →
      throw handlers error h = some (error, h)) ∧
    (∀ (error : Error) (h : Host κ χ),
      h.engine.frames ≠ [] ∨ (error.isUncaught = true ∧ h.engine.stack.back? = none) →
      rethrow handlers error h = some ((h.engine.carry error).1, h.update fun e => (e.carry error).2) ∧
        (h.engine.carry error).1.panics = error.panics) ∧
    ∀ (origin error : Error) (calls : List (Host κ χ)) (covered : Nat), origin.panics = 0 →
      Journey handlers origin error calls covered →
      error.panics = calls.length ∧ calls.length ≤ covered + 1 ∧ error.root = origin.root := by
  refine ⟨fun error h hs => throw_of_not_given (given?_eq_none hs), fun error h hs => ?_, ?_⟩
  · constructor
    · refine throw_of_not_given (given?_eq_none ?_)
      rcases hs with hf | ⟨hu, hempty⟩
      · refine .inl ?_
        show (h.engine.carry error).2.frames ≠ []
        rw [carry_engine]
        exact hf
      · refine .inr ?_
        simp only [hempty, hu]
    · unfold Engine.carry
      split
      · exact error.panics_carrying _
      · rfl
  · intro origin error calls covered ho hj
    have ht := hj.tallied ho
    have hbool := error.isUncaught.toNat_le
    exact ⟨ht.panics, by have := ht.calls; omega, ht.root⟩

theorem protect_failing {v : Value} (error : Error) (hc : error.carried? = some v) (hf : h.engine.frames = [])
    (hroom : 0 < h.engine.limits.tryLimit) :
    ∃ r e', Host.protect (fun h => some (⟨.error error h, 0, 0⟩ : Record κ χ α)) h = some r ∧
      r.outcome = .error error { h with engine := e' } ∧ e'.frames = [] ∧ e'.stack.back? = some v := by
  obtain ⟨frame, hopens, hbegin⟩ := begun_of_room (h := h) (by simpa [hf] using hroom)
  have hfound : findFrame frame.id (h.engine.inScope frame).frames = some (frame, []) := by
    rw [inScope, hf]
    exact findFrame_top frame []
  obtain ⟨e', hu, htop, -⟩ := unwind_keeps hfound error
  obtain ⟨w, e₁, hu₁, -, hlevel⟩ := unwind_found hfound error
  obtain rfl : e₁ = e' := (Prod.mk.inj (hu₁.symm.trans hu)).2
  have hframes : e₁.frames = [] := congrArg Level.frames hlevel
  simp only [exceptionValue, hc] at htop
  simp only [Host.protect, hbegin, Option.map_some, Host.endProtected, within, stateOf, Engine.endProtected, hu, receive]
  exact ⟨_, e₁, rfl, rfl, hframes, htop⟩

theorem throw_unhandled {v : Value} (handlers : Handlers κ χ) (error : Error) (h : Host κ χ)
    (hc : error.carried? = some v) (hu : error.isUncaught = false) (hf : h.engine.frames = []) (hk : h.handler = none) :
    ∃ given h', h.given? error = some given ∧ throw handlers error h = some (.uncaught error, h') ∧
      h'.engine.frames = [] ∧ h'.engine.limits = h.engine.limits ∧ h'.handler = none := by
  have hgiven : h.given? error = some (h.update (pushThrown v)) := by
    simp only [given?, hf, hu, exceptionValue, hc]
    rfl
  have hpanic : panic handlers (h.update (pushThrown v)) = some ((h.update (pushThrown v)).update reportUncaught) := by
    simp only [panic, update, hk]
  have hthrow : throw handlers error h = _ := throw_of_given hgiven
  rw [hpanic, Option.map_some] at hthrow
  exact ⟨_, _, hgiven, hthrow, hf, rfl, hk⟩

theorem journey_twice {v : Value} (text : String) (handlers : Handlers κ χ) (hf : h.engine.frames = [])
    (hk : h.handler = none) (hroom : 0 < h.engine.limits.tryLimit) :
    ∃ (h₁ h₂ h₃ : Host κ χ) (r : Record κ χ α) (first second : Host κ χ),
      throw handlers (.thrown v text) h = some (.uncaught (.thrown v text), h₁) ∧
      Host.protect (fun h => some ⟨.error (.uncaught (.thrown v text)) h, 0, 0⟩) h₁ = some r ∧
      r.outcome = .error (.uncaught (.thrown v text)) h₂ ∧
      rethrow handlers (.uncaught (.thrown v text)) h₂ = some (.uncaught (.rethrown v (.uncaught (.thrown v text))), h₃) ∧
      h₂.regiven? (.uncaught (.thrown v text)) = some second ∧
      Journey handlers (.thrown v text) (.uncaught (.rethrown v (.uncaught (.thrown v text)))) [first, second] 1 := by
  obtain ⟨first, h₁, hgiven, hthrow, hf₁, hl₁, hk₁⟩ :=
    throw_unhandled handlers (.thrown v text) h rfl rfl hf hk
  obtain ⟨r, e', hprotect, hout, hf', htop⟩ :=
    protect_failing (α := α) (.uncaught (.thrown v text)) rfl hf₁ (by rw [hl₁]; exact hroom)
  have hcarry : e'.carry (.uncaught (.thrown v text)) =
      (.rethrown v (.uncaught (.thrown v text)), { e' with stack := e'.stack.pop }) := by
    simp only [Engine.carry, htop]
    rfl
  obtain ⟨second, h₃, hgiven₂, hthrow₂, -⟩ :=
    throw_unhandled handlers (.rethrown v (.uncaught (.thrown v text)))
      { h₁ with engine := { e' with stack := e'.stack.pop } } rfl rfl hf' hk₁
  have hrethrow : rethrow handlers (.uncaught (.thrown v text)) { h₁ with engine := e' } =
      some (.uncaught (.rethrown v (.uncaught (.thrown v text))), h₃) := by
    rw [rethrow, hcarry]
    exact hthrow₂
  have hregiven : regiven? (.uncaught (.thrown v text)) { h₁ with engine := e' } = some second := by
    simp only [regiven?, update, hcarry]
    exact hgiven₂
  refine ⟨h₁, { h₁ with engine := e' }, h₃, r, first, second, hthrow, hprotect, hout, hrethrow, hregiven, ?_⟩
  have hcovers : covers (.uncaught (.thrown v text)) { h₁ with engine := e' } = true := by
    simp only [covers, htop]
    rfl
  have hj := (Journey.start.thrown hthrow).rethrown hrethrow
  rwa [hgiven, hregiven, hcovers] at hj

theorem create_default : ∃ e, create? .none {} = some e ∧ e.frames = [] ∧ 0 < e.limits.tryLimit := by
  have hok : (create? .none {}).any (fun e => decide (0 < e.limits.tryLimit)) = true := by decide +kernel
  obtain ⟨e, he, hl⟩ := (Option.any_eq_true _ _).mp hok
  exact ⟨e, he, (create_frames he).2, of_decide_eq_true hl⟩

theorem handler_runs_counted_rethrown :
    ∃ (e : Engine) (error : Error) (calls : List (Host Unit Unit)), create? .none {} = some e ∧
      Journey (fun _ _ => none) (.thrown (.string "v") "v") error calls 1 ∧ calls.length = 2 ∧ error.panics = 2 := by
  obtain ⟨e, he, hf, hroom⟩ := create_default
  obtain ⟨h₁, h₂, h₃, r, first, second, -, -, -, -, -, hj⟩ :=
    journey_twice (α := Unit) (v := .string "v") (h := ofEngine e) "v" (fun _ _ => none) hf rfl hroom
  have hcounted := (handler_runs_counted (fun _ _ => none)).2.2 _ _ _ _ rfl hj
  exact ⟨e, _, _, he, hj, rfl, hcounted.1⟩

theorem handler_runs_twice :
    ∃ (e : Engine) (h₁ h₂ h₃ : Host Unit Unit) (r : Record Unit Unit Unit) (first second : Host Unit Unit),
      create? .none {} = some e ∧
      throw (fun _ _ => none) (.thrown (.string "v") "v") (ofEngine e) = some (.uncaught (.thrown (.string "v") "v"), h₁) ∧
      Host.protect (fun h => some ⟨.error (.uncaught (.thrown (.string "v") "v")) h, 0, 0⟩) h₁ = some r ∧
      r.outcome = .error (.uncaught (.thrown (.string "v") "v")) h₂ ∧
      rethrow (fun _ _ => none) (.uncaught (.thrown (.string "v") "v")) h₂ =
        some (.uncaught (.rethrown (.string "v") (.uncaught (.thrown (.string "v") "v"))), h₃) ∧
      h₂.regiven? (.uncaught (.thrown (.string "v") "v")) = some second ∧
      Journey (fun _ _ => none) (.thrown (.string "v") "v")
        (.uncaught (.rethrown (.string "v") (.uncaught (.thrown (.string "v") "v")))) [first, second] 1 := by
  obtain ⟨e, he, hf, hroom⟩ := create_default
  obtain ⟨h₁, h₂, h₃, r, first, second, hrun⟩ :=
    journey_twice (α := Unit) (v := .string "v") (h := ofEngine e) "v" (fun _ _ => none) hf rfl hroom
  exact ⟨e, h₁, h₂, h₃, r, first, second, he, hrun⟩

end Host

end ScriptEngine
