import ScriptEngine.Proofs.Host.Rethrow
import ScriptEngine.Proofs.Machine.Flight

namespace ScriptEngine

open Engine Host

variable {κ χ α : Type}

namespace Program

def andThen : Program κ χ α → (α → Program κ χ α) → Program κ χ α
  | .done (.ok a), next => next a
  | .done (.error error), _ => .done (.error error)
  | .act action rest, next => .act action fun answer h => (rest answer h).andThen next
  | .protect body rest, next => .protect body fun answer h => (rest answer h).andThen next

theorem andThen_run {panics : Panics κ χ} {fuel : Nat} {p : Program κ χ α} {next : α → Program κ χ α} {h h₀ : Host κ χ}
    {r₀ r₁ : Record κ χ α} {a : α} (hrun : p.run panics fuel h = some r₀) (ho : r₀.outcome = .ok a h₀)
    (hnext : (next a).run panics fuel h₀ = some r₁) :
    ∃ r, (p.andThen next).run panics fuel h = some r ∧ r.outcome = r₁.outcome ∧
      r.collections = r₀.collections + r₁.collections := by
  induction p generalizing h r₀ with
  | done result =>
    cases result with
    | error error =>
      obtain rfl := Option.some.inj hrun
      cases ho
    | ok b =>
      obtain rfl := Option.some.inj hrun
      cases ho
      exact ⟨r₁, hnext, rfl, (Nat.zero_add _).symm⟩
  | act action rest ih =>
    obtain ⟨outcome, ha, hmap⟩ := Option.bind_eq_some_iff.mp hrun
    obtain ⟨r₂, hrest, rfl⟩ := Option.map_eq_some_iff.mp hmap
    obtain ⟨r, hr, hout, hcollections⟩ := ih _ _ hrest ho
    refine ⟨r.since (action.collections panics fuel h) h.engine.stack.size, ?_, hout, ?_⟩
    · simp only [andThen, run, ha, Option.bind_some, hr, Option.map_some]
    · simp only [Record.since, hcollections, Nat.add_assoc]
  | protect body rest _ ih =>
    obtain ⟨b, hb, hmap⟩ := Option.bind_eq_some_iff.mp hrun
    obtain ⟨r₂, hrest, rfl⟩ := Option.map_eq_some_iff.mp hmap
    obtain ⟨r, hr, hout, hcollections⟩ := ih _ _ hrest ho
    refine ⟨r.since b.collections b.low, ?_, hout, ?_⟩
    · simp only [andThen, run, hb, Option.bind_some, hr, Option.map_some]
    · simp only [Record.since, hcollections, Nat.add_assoc]

end Program

namespace Host

variable {h : Host κ χ} {m n k fuel : Nat}

theorem settled_inside (hs : h.engine.Settled m) (hroom : h.engine.frames.length + k ≤ h.engine.limits.tryLimit) :
    (h.inside k).engine.Settled m := by
  induction k generalizing h with
  | zero => exact hs
  | succ k ih =>
    obtain ⟨frame, hopens, hbegin⟩ := begun_of_room (h := h) (by omega)
    rw [inside, hbegin]
    refine ih (settled_inScope hs hopens) ?_
    simp only [inScope, List.length_cons]
    omega

end Host

theorem Engine.call_eq_result (e : Engine) (fuel : Nat) (receiver callee : Value) (args : List Value) :
    e.call fuel receiver callee args = (Machine.step^[fuel] ⟨e, [], .calling receiver callee args⟩).result? :=
  Machine.run_eq_result fuel _

theorem Value.eq_object_of_handle? {v : Value} {a : Handle} (h : v.handle? = some a) : v = .object a := by
  cases v with
  | object b => exact congrArg Value.object (Option.some.inj h)
  | _ => cases h

def Machine.thrown? (m : Machine) : Option (Entry × CallFrame × List CallFrame × Value) :=
  match m.control with
  | .running entry (g :: callers) =>
    match g.unit.code[g.next]? with
    | some .throw => m.engine.stack.back?.map fun v => (entry, g, callers, v)
    | _ => none
  | _ => none

theorem Machine.throws_of_thrown? {m : Machine} {entry : Entry} {g : CallFrame} {callers : List CallFrame} {v : Value}
    (h : m.thrown? = some (entry, g, callers, v)) : m.Throws entry g callers v := by
  unfold thrown? at h
  split at h
  · rename_i hcontrol
    split at h
    · rename_i hinstr
      obtain ⟨w, hw, heq⟩ := Option.map_eq_some_iff.mp h
      cases heq
      exact ⟨hcontrol, hinstr, hw⟩
    · cases h
  · cases h

namespace Host

variable {h : Host κ χ} {e' : Engine} {receiver callee v : Value} {args : List Value} {error : Error} {m n fuel : Nat}

theorem call_panics (hh : h.engine.heap.OnlyCompiled) (hf : h.engine.frames = [])
    (hcall : h.engine.call fuel receiver callee args = some (.error error e')) (hc : error.carried? = some v)
    (hu : error.isUncaught = false) (handlers : Handlers κ χ) :
    Host.call fuel handlers receiver callee args h =
      (panic handlers { h with engine := e'.pushThrown v }).map fun after =>
        .error (.uncaught error) (after.update (cutStack h.engine.stack.size)) := by
  have hlevel : e'.level = h.engine.level := (call_level hh hcall).1
  have hframes : e'.frames = [] := (congrArg Level.frames hlevel).trans hf
  have hsize : e'.stack.size = h.engine.stack.size := congrArg (·.stack.length) hlevel
  have hv : e'.exceptionValue error = (v, e') := by simp only [exceptionValue, hc]
  simp only [Host.call, hcall, Option.bind_some, surface, throw, hframes, hv, hsize, hu,
    List.isEmpty_nil, Bool.not_true, Bool.or_false, Bool.false_eq_true, if_false, Option.map_map]
  rfl

/-- A body that calls a function inside so many scopes, and a step of the call that throws a value. -/
structure Throwing (panics : Panics κ χ) (fuel k : Nat) (h : Host κ χ) where
  body : Program κ χ Value
  record : Record κ χ Value
  result : Value
  host : Host κ χ
  receiver : Value
  callee : Value
  args : List Value
  step : Nat
  entry : Entry
  frame : CallFrame
  callers : List CallFrame
  value : Value
  ran : body.run panics fuel (h.inside k) = some record
  came : record.outcome = .ok result host
  throws : (Machine.step^[step] ⟨host.engine, [], .calling receiver callee args⟩).Throws entry frame callers value

namespace Throwing

variable {panics : Panics κ χ} {k : Nat} (t : Throwing panics fuel k h)

def start : Machine :=
  ⟨t.host.engine, [], .calling t.receiver t.callee t.args⟩

def thrown : Machine :=
  Machine.step^[t.step] t.start

def rescue? : Option Rescue :=
  Task.rescue? (.loop t.entry (t.frame :: t.callers) :: t.thrown.tasks)

structure Caught (m : Nat) (rescue : Rescue) (j : Nat) : Prop where
  binds : rescue.Binds t.value (Machine.step^[j + t.step] t.start)
  kept : m + t.record.collections + Machine.collections (j + t.step + 1) t.start < 2 ^ 32 - 2 →
    t.thrown.engine.heap.Retains t.value (Machine.step^[j + t.step + 1] t.start).engine.heap

structure Leaves (error : Error) (e : Engine) : Prop where
  ends : ∃ j, Machine.step^[j + t.step] t.start = ⟨e, [], .returning (.error error)⟩
  carried : error.carried? = some t.value
  recasts : Error.Recasts (.thrown t.value (t.thrown.engine.display t.value)) error

/-- The host has the value on top of the stack, in the cell that it had: in its handler if no scope is
open, or else when the outermost of the scopes returns. -/
structure Shown (error : Error) (e : Engine) : Prop where
  kept : t.thrown.engine.heap.Retains t.value e.heap
  handler : t.host.engine.frames = [] → ∀ handlers, Host.call fuel handlers t.receiver t.callee t.args t.host =
    (panic handlers { t.host with engine := e.pushThrown t.value }).map fun after =>
      .error (.uncaught error) (after.update (cutStack t.host.engine.stack.size))
  scopes : ∀ n id next, k = n + 1 → (h.inside k).engine.frames.head?.map (·.id) = some id →
    (∃ g ∈ t.host.engine.frames, g.id = id) → next t.result = Program.calls t.receiver t.callee t.args →
    ∃ f : Failing panics fuel n h Value, f.body = t.body.andThen next ∧ f.error = error ∧ f.host.engine = e ∧
      ∃ r error' h', f.HandsOn r error' h' t.value

variable {t}

theorem passes (hp : panics.Lawful) (hs : h.engine.Settled m)
    (hroom : h.engine.frames.length + k ≤ h.engine.limits.tryLimit) (hn : m + t.record.collections < 2 ^ 32 - 2) :
    t.host.engine.Settled (m + t.record.collections) := by
  have hpass := (t.body.run_lawful hp fuel _ t.record t.ran m (settled_inside hs hroom) (by omega)).1
  have hhost : t.record.host = t.host := congrArg stateOf t.came
  rw [hhost] at hpass
  exact hpass.settled

theorem orderly (hh : t.host.engine.heap.OnlyCompiled) : t.start.Orderly t.host.engine.level :=
  .calling hh t.receiver t.callee t.args

theorem caught {rescue : Rescue} (hs : t.host.engine.Settled (m + t.record.collections)) (hr : t.rescue? = some rescue) :
    ∃ j, t.Caught m rescue j := by
  have hfresh : t.start.Recorded fun _ => False :=
    fun _ _ _ hmem => absurd (List.suffix_nil.mp hmem) (List.cons_ne_nil _ _)
  obtain ⟨j, hbinds, hkept⟩ := (orderly hs.heap.compiled).caught hfresh hs.heap.tidy t.throws hr
  exact ⟨j, hbinds, fun hn => hkept _ hs.heap (by omega)⟩

theorem fails {error : Error} {e : Engine} {next : Value → Program κ χ Value} {id : ScopeId}
    (t : Throwing panics fuel (n + 1) h) (hh : t.host.engine.heap.OnlyCompiled)
    (hcall : t.host.engine.call fuel t.receiver t.callee t.args = some (.error error e))
    (hid : (h.inside (n + 1)).engine.frames.head?.map (·.id) = some id) (hopen : ∃ g ∈ t.host.engine.frames, g.id = id)
    (hnext : next t.result = Program.calls t.receiver t.callee t.args) :
    ∃ f : Failing panics fuel n h Value, f.body = t.body.andThen next ∧ f.error = error ∧ f.host.engine = e ∧ f.Open ∧
      f.record.collections = t.record.collections + Machine.collections fuel t.start := by
  obtain ⟨g, hg, hgid⟩ := hopen
  have hcalls := Program.calls_run panics fuel hh (List.ne_nil_of_mem hg) t.receiver t.callee t.args
  rw [hcall] at hcalls
  obtain ⟨r₁, hr₁, hpair⟩ := Option.map_eq_some_iff.mp hcalls
  obtain ⟨hout₁, hcollections₁⟩ := Prod.mk.inj hpair
  obtain ⟨b, hb, hout, hcollections⟩ := Program.andThen_run t.ran t.came (hnext ▸ hr₁)
  have hframes : e.frames = t.host.engine.frames := congrArg Level.frames (call_level hh hcall).1
  refine ⟨⟨t.body.andThen next, b, error, _, id, hb, hout.trans hout₁, hid⟩, rfl, rfl, rfl, ⟨g, ?_, hgid⟩, ?_⟩
  · exact hframes ▸ hg
  · rw [hcollections, hcollections₁]
    rfl

theorem shown {error : Error} {e : Engine} (hp : panics.Lawful) (hs : h.engine.Settled m)
    (hroom : h.engine.frames.length + k ≤ h.engine.limits.tryLimit)
    (hs₀ : t.host.engine.Settled (m + t.record.collections))
    (hcall : t.host.engine.call fuel t.receiver t.callee t.args = some (.error error e)) (hleaves : t.Leaves error e)
    (hkept : t.thrown.engine.heap.Retains t.value e.heap)
    (hn : m + t.record.collections + Machine.collections fuel t.start + k < 2 ^ 32 - 2) : t.Shown error e := by
  refine ⟨hkept, fun hframes handlers => ?_, ?_⟩
  · exact call_panics hs₀.heap.compiled hframes hcall hleaves.carried (hleaves.recasts.uncaught rfl) handlers
  · rintro n id next rfl hid hopen hnext
    obtain ⟨f, hbody, rfl, hhost, hfopen, hcollections⟩ := t.fails hs₀.heap.compiled hcall hid hopen hnext
    obtain ⟨r, error', h', v, hh⟩ := Failing.handsOn_of_open hp hs (by omega) hfopen (by rw [hcollections]; omega)
    obtain ⟨rfl, -, -⟩ := hh.outer.carried _ hleaves.carried
    exact ⟨f, hbody, rfl, hhost, r, error', h', hh⟩

theorem left (hs : t.host.engine.Settled (m + t.record.collections)) (hr : t.rescue? = none) :
    ∃ error e, t.Leaves error e ∧ ((t.host.engine.call fuel t.receiver t.callee t.args).isSome →
      m + t.record.collections + Machine.collections fuel t.start < 2 ^ 32 - 2 →
      t.host.engine.call fuel t.receiver t.callee t.args = some (.error error e) ∧
        t.thrown.engine.heap.Retains t.value e.heap) := by
  obtain ⟨j, error, e, hend, hc, hcause, hkept⟩ := (orderly hs.heap.compiled).uncaught t.throws hr
  refine ⟨error, e, ⟨⟨j, hend⟩, hc, hcause⟩, fun hends hn => ?_⟩
  have hresult : (Machine.step^[j + t.step] t.start).result? = some (.error error e) := by
    rw [hend]
    rfl
  obtain ⟨r, hcall⟩ := Option.isSome_iff_exists.mp hends
  have hstep := hcall
  rw [call_eq_result] at hstep
  obtain rfl : .error error e = r := Machine.result?_unique hresult hstep
  have hle : Machine.collections (j + t.step) t.start ≤ Machine.collections fuel t.start :=
    Machine.collections_le_of_result? hstep (j + t.step)
  exact ⟨hcall, hkept _ hs.heap (by omega)⟩

end Throwing

/-- In every state that a host can reach. Whatever error a body fails with inside so many scopes that
raise it again: if the innermost one is open by then, they hand the error on with the value that this one
had; if not, it can have no value, and they end with the error that says so. Whatever a script throws
that a body calls: it is what the innermost open try statement binds, or else what the host has on top
of the stack. -/
theorem thrown_values_keep_identity {handler : κ → Program κ χ Unit} (hr : Reached handler m h) (hm : m < 2 ^ 32 - 2)
    (hroom : h.engine.frames.length + n + 1 ≤ h.engine.limits.tryLimit) :
    (∀ {α : Type} {fuel : Nat} (f : Failing (Program.panics handler fuel) fuel n h α),
      (f.Open → m + f.record.collections + (n + 1) < 2 ^ 32 - 2 → ∃ r error' h' v, f.HandsOn r error' h' v) ∧
      (¬ f.Open → f.Unbalanced)) ∧
    ∀ {k fuel : Nat} (t : Throwing (Program.panics handler fuel) fuel k h), k ≤ n + 1 →
      m + t.record.collections < 2 ^ 32 - 2 →
      (∀ rescue, t.rescue? = some rescue → ∃ j, t.Caught m rescue j) ∧
      (t.rescue? = none → ∃ error e, t.Leaves error e ∧
        ((t.host.engine.call fuel t.receiver t.callee t.args).isSome →
          m + t.record.collections + Machine.collections fuel t.start + k < 2 ^ 32 - 2 → t.Shown error e)) := by
  have hs := hr.settled (by omega)
  have hp := Program.panics_lawful handler
  refine ⟨fun f => ⟨Failing.handsOn_of_open (hp _) hs hroom, Failing.unbalanced_of_closed hroom⟩, ?_⟩
  intro k fuel t hk hn
  have hs₀ := t.passes (hp fuel) hs (by omega) hn
  refine ⟨fun rescue => Throwing.caught hs₀, fun hnone => ?_⟩
  obtain ⟨error, e, hleaves, hleft⟩ := Throwing.left hs₀ hnone
  refine ⟨error, e, hleaves, fun hends hn => ?_⟩
  obtain ⟨hcall, hkept⟩ := hleft hends (by omega)
  exact Throwing.shown (hp fuel) hs (by omega) hs₀ hcall hleaves hkept hn

def failing? (panics : Panics κ χ) (fuel n : Nat) (h : Host κ χ) (body : Program κ χ α) :
    Option (Failing panics fuel n h α) :=
  match hr : body.run panics fuel (h.inside (n + 1)), hi : (h.inside (n + 1)).engine.frames.head?.map (·.id) with
  | some record, some scope =>
    match ho : record.outcome with
    | .error error host => some ⟨body, record, error, host, scope, hr, ho, hi⟩
    | .ok _ _ => none
  | _, _ => none

def throwing? (panics : Panics κ χ) (fuel k : Nat) (h : Host κ χ) (body : Program κ χ Value) (step : Nat) :
    Option (Throwing panics fuel k h) :=
  match hr : body.run panics fuel (h.inside k) with
  | some record =>
    match ho : record.outcome with
    | .ok f host =>
      match ht : (Machine.step^[step] ⟨host.engine, [], .calling .undefined f []⟩).thrown? with
      | some (entry, frame, callers, value) =>
        some ⟨body, record, f, host, .undefined, f, [], step, entry, frame, callers, value, hr, ho,
          Machine.throws_of_thrown? ht⟩
      | none => none
    | .error _ _ => none
  | none => none

instance {panics : Panics κ χ} (f : Failing panics fuel n h α) : Decidable f.Open :=
  inferInstanceAs (Decidable (∃ g ∈ f.host.engine.frames, g.id = f.scope))

def throwing : Program Unit Unit Unit :=
  .act (.operate .newObject) fun answer _ =>
    match answer with
    | .ok (.value v) => .done (.error (.thrown v "object"))
    | answer => .done (answer.map fun _ => ())

def loading (l : Loading) : Program Unit Unit Value :=
  .act l.action fun answer _ => .replied answer

def caught : Loading :=
  .text "caught" "function f(x) { throw x; } function g(y) { try { f(y); } catch (e) { e; } } g('v');" .program

def uncaught : Loading :=
  .text "uncaught" "function f(x) { throw x; } function g(y) { f(y); } g('v');" .program

theorem thrown_values_keep_identity_of_each :
    ∃ e, create? .none {} = some e ∧
      (∃ f r error' h' a, failing? (Program.panics .quiet 30) 30 2 (ofEngine e) throwing = some f ∧ f.Open ∧
        f.error.carried? = some (.object a) ∧ f.HandsOn r error' h' (.object a)) ∧
      (∃ t rescue j, throwing? (Program.panics .quiet 30) 30 3 (ofEngine e) (loading caught) 15 = some t ∧
        t.rescue? = some rescue ∧ t.Caught 0 rescue j) ∧
      ∃ t error e', throwing? (Program.panics .quiet 30) 30 3 (ofEngine e) (loading uncaught) 14 = some t ∧
        t.rescue? = none ∧ t.Leaves error e' ∧ t.Shown error e' := by
  have hok : (create? .none {}).any (fun e =>
      (failing? (Program.panics .quiet 30) 30 2 (ofEngine e) throwing).any fun f =>
      (f.error.carried?.bind Value.handle?).any fun _ =>
      (throwing? (Program.panics .quiet 30) 30 3 (ofEngine e) (loading caught) 15).any fun t =>
      (throwing? (Program.panics .quiet 30) 30 3 (ofEngine e) (loading uncaught) 14).any fun t' =>
        t.rescue?.isSome && t'.rescue?.isNone && f.Open && e.frames.length + 2 + 1 ≤ e.limits.tryLimit &&
          0 + f.record.collections + (2 + 1) < 2 ^ 32 - 2 && 0 + t.record.collections < 2 ^ 32 - 2 &&
          0 + t'.record.collections < 2 ^ 32 - 2 && (t'.host.engine.call 30 t'.receiver t'.callee t'.args).isSome &&
          0 + t'.record.collections + Machine.collections 30 t'.start + 3 < 2 ^ 32 - 2) = true := by
    decide +kernel
  obtain ⟨e, he, hrest⟩ := (Option.any_eq_true _ _).mp hok
  obtain ⟨f, hf, hrest⟩ := (Option.any_eq_true _ _).mp hrest
  obtain ⟨a, ha, hrest⟩ := (Option.any_eq_true _ _).mp hrest
  obtain ⟨t, ht, hrest⟩ := (Option.any_eq_true _ _).mp hrest
  obtain ⟨t', ht', hrest⟩ := (Option.any_eq_true _ _).mp hrest
  simp only [Bool.and_eq_true, decide_eq_true_eq] at hrest
  obtain ⟨⟨⟨⟨⟨⟨⟨⟨hsome, hnone⟩, hopen⟩, hroom⟩, hn⟩, hn₁⟩, hn₂⟩, hends⟩, hn₃⟩ := hrest
  obtain ⟨w, hw, hwa⟩ := Option.bind_eq_some_iff.mp ha
  obtain rfl := Value.eq_object_of_handle? hwa
  have hreached : Reached Program.quiet 0 (ofEngine e) := .created he
  obtain ⟨hbody, hscript⟩ := thrown_values_keep_identity hreached (by omega) hroom
  refine ⟨e, he, ?_, ?_, ?_⟩
  · obtain ⟨r, error', h', v, hh⟩ := (hbody f).1 hopen hn
    obtain ⟨rfl, -, -⟩ := hh.outer.carried _ hw
    exact ⟨f, r, error', h', a, hf, hopen, hw, hh⟩
  · obtain ⟨rescue, hrescue⟩ := Option.isSome_iff_exists.mp hsome
    obtain ⟨j, hcaught⟩ := (hscript t (Nat.le_refl 3) hn₁).1 rescue hrescue
    exact ⟨t, rescue, j, ht, hrescue, hcaught⟩
  · have hnone := Option.isNone_iff_eq_none.mp hnone
    obtain ⟨error, e', hleaves, hshown⟩ := (hscript t' (Nat.le_refl 3) hn₂).2 hnone
    exact ⟨t', error, e', ht', hnone, hleaves, hshown hends hn₃⟩

def entering : Program Unit Unit Unit :=
  .act (.operate .enter) fun _ _ => .act (.operate .enter) fun answer _ => .done (answer.map fun _ => ())

def closing (id : ScopeId) : Program Unit Unit Unit :=
  .act (.operate (.unwind id (.thrown (.string "u") "u"))) fun _ _ =>
    .act (.operate .pop) fun _ _ => .done (.error (.thrown (.string "v") "v"))

theorem closed_scopes_lose_value :
    ∃ (h : Host Unit Unit) (m : Nat) (f : Failing (Program.panics .quiet 20) 20 1 h Unit) (r : Record Unit Unit Unit)
      (error' : Error) (h' : Host Unit Unit), Reached Program.quiet m h ∧ m < 2 ^ 32 - 2 ∧
      h.engine.frames.length + 1 + 1 ≤ h.engine.limits.tryLimit ∧ m + f.record.collections + (1 + 1) < 2 ^ 32 - 2 ∧
      f.Live ∧ f.error = .thrown (.string "v") "v" ∧ f.outermost = some r ∧ r.outcome = .error error' h' ∧
      h'.engine.stack.back? ≠ some (.string "v") ∧ error'.root ≠ f.error.root := by
  have hok : (create? .none {}).any (fun e =>
      (entering.run (Program.panics .quiet 20) 20 (ofEngine e)).any fun r₀ =>
      r₀.host.engine.frames.head?.any fun scope =>
      (failing? (Program.panics .quiet 20) 20 1 r₀.host (closing scope.id)).any fun f =>
      f.outermost.any fun r =>
      (failureOf? r.outcome).any fun failed =>
        0 + r₀.collections < 2 ^ 32 - 2 && r₀.host.engine.frames.length + 1 + 1 ≤ r₀.host.engine.limits.tryLimit &&
          0 + r₀.collections + f.record.collections + (1 + 1) < 2 ^ 32 - 2 && f.error = .thrown (.string "v") "v" &&
          failed.2.engine.stack.back? ≠ some (.string "v") && failed.1.root ≠ f.error.root) = true := by
    decide +kernel
  obtain ⟨e, he, hrest⟩ := (Option.any_eq_true _ _).mp hok
  obtain ⟨r₀, hr₀, hrest⟩ := (Option.any_eq_true _ _).mp hrest
  obtain ⟨scope, -, hrest⟩ := (Option.any_eq_true _ _).mp hrest
  obtain ⟨f, -, hrest⟩ := (Option.any_eq_true _ _).mp hrest
  obtain ⟨r, hr, hrest⟩ := (Option.any_eq_true _ _).mp hrest
  obtain ⟨⟨error', h'⟩, hfailed, hrest⟩ := (Option.any_eq_true _ _).mp hrest
  simp only [Bool.and_eq_true, decide_eq_true_eq] at hrest
  obtain ⟨⟨⟨⟨⟨hm, hroom⟩, hn⟩, herror⟩, htop⟩, hroot⟩ := hrest
  have hlive : f.Live := by
    intro a ha
    rw [herror] at ha
    cases ha
  exact ⟨r₀.host, 0 + r₀.collections, f, r, error', h', .ran (.created he) hr₀, hm, hroom, hn, hlive, herror, hr,
    eq_error_of_failureOf? hfailed, htop, hroot⟩

end Host

end ScriptEngine
