import ScriptEngine.Proofs.Host.Protection
import ScriptEngine.Proofs.Machine.Scoping

namespace ScriptEngine

open Engine

theorem Machine.run_proceeds {m : Machine} {fuel : Nat} {r : EStateM.Result Error Engine Value}
    (hr : run fuel m = some r) : m.engine.Proceeds false (stateOf r) := by
  fun_induction run fuel m with
  | case1 fuel e result =>
    obtain rfl := Option.some.inj hr
    rw [stateOf_resultIn]
    exact .refl e
  | case2 => cases hr
  | case3 fuel m _ ih => exact (step_proceeds m).trans (ih hr)

theorem Operation.perform_changes (operation : Operation) (e : Engine) :
    e.scoping.Changes (stateOf (operation.perform e)).scoping := by
  have hproceeds {x : EngineM Reply} (hx : Proceeding false id x) : e.scoping.Changes (stateOf (x e)).scoping :=
    (hx e).scoping
  cases operation with
  | push v => exact hproceeds (.bind (push_proceeds v) fun _ => .pure _)
  | pop => exact hproceeds (.bind allows_proceeds.popped fun _ => .pure _)
  | newObject => exact hproceeds (.bind (fun e => .still rfl rfl rfl) fun _ => .pure _)
  | exceptionValue error => exact hproceeds (.bind (fun e => exceptionValue_proceeds error e) fun _ => .pure _)
  | bind unit compiled env => exact hproceeds (.bind (fun e => .still rfl rfl rfl) fun _ => .pure _)
  | setProperty target name value => exact hproceeds (.bind (change_proceeds _) fun _ => .pure _)
  | makeRef value =>
    refine hproceeds (.bind (fun e => ?_) fun _ => .pure _)
    have hcount : e.Proceeds false { e with nextRef := e.nextRef + 1 } := .still rfl rfl rfl
    have hset (key : String) : Proceeding false id (do
        Engine.setProperty (.object e.registry) key value
        return key) := .bind (change_proceeds _) fun _ => .pure _
    exact hcount.trans (hset _ _)
  | unref key => exact hproceeds (.bind (fun e => .still rfl rfl rfl) fun _ => .pure _)
  | gc => exact hproceeds (.bind (fun e => .still rfl rfl rfl) fun _ => .pure _)
  | enter => exact hproceeds (.bind allows_proceeds.enterProtected fun _ => .pure _)
  | leave id => exact hproceeds (.bind (allows_proceeds.leaveProtected id) fun _ => .pure _)
  | unwind id error => exact hproceeds (.bind (fun e => unwind_proceeds id error e) fun _ => .pure _)
  | redirect output diagnostics => exact .refl

namespace Host

variable {κ χ α : Type} {panics : Panics κ χ} {h h' : Host κ χ}

def Scoped (x : Host κ χ → Option (Record κ χ α)) : Prop :=
  ∀ h r, x h = some r → h.engine.scoping.Changes r.host.engine.scoping

theorem throw_changes {error error' : Error} (hp : ∀ k, Scoped (panics k))
    (ht : throw panics.handlers error h = some (error', h')) : h.engine.scoping.Changes h'.engine.scoping := by
  simp only [throw] at ht
  split at ht
  · obtain ⟨-, rfl⟩ := Prod.mk.inj (Option.some.inj ht)
    exact .refl
  · obtain ⟨v, heap, -, hv⟩ := exceptionValue_spec error h.engine
    simp only [hv] at ht
    cases hk : h.handler with
    | none =>
      simp only [panic, hk, Option.map_some, Option.some.injEq, Prod.mk.injEq] at ht
      obtain ⟨-, rfl⟩ := ht
      exact .refl
    | some k =>
      simp only [panic, hk, Panics.handlers, Option.map_map, Option.map_eq_some_iff] at ht
      obtain ⟨r, hr, hrest⟩ := ht
      obtain ⟨-, rfl⟩ := Prod.mk.inj hrest
      exact hp k { h with engine := pushThrown v { h.engine with heap } } r (by rw [hk]; exact hr)

theorem surface_changes {r : EStateM.Result Error Engine α} {outcome : Outcome κ χ α} (hp : ∀ k, Scoped (panics k))
    (hr : surface panics.handlers h r = some outcome) :
    (stateOf r).scoping.Changes (stateOf outcome).engine.scoping := by
  cases r with
  | ok a e =>
    obtain rfl := Option.some.inj hr
    exact .refl
  | error error e =>
    simp only [surface, Option.map_eq_some_iff] at hr
    obtain ⟨⟨error', h'⟩, ht, rfl⟩ := hr
    exact throw_changes (h := { h with engine := e }) hp ht

end Host

open Host

variable {κ χ α : Type} {panics : Panics κ χ} {h h' : Host κ χ}

theorem Action.perform_changes {action : Action κ χ} {fuel : Nat} {outcome : Outcome κ χ Reply}
    (hp : ∀ k, Scoped (panics k)) (ha : action.perform panics.handlers fuel h = some outcome) :
    h.engine.scoping.Changes (stateOf outcome).engine.scoping := by
  cases action with
  | operate operation =>
    obtain rfl := Option.some.inj ha
    rw [engine_receive]
    exact operation.perform_changes h.engine
  | throw error =>
    obtain ⟨⟨error', h'⟩, ht, rfl⟩ := Option.map_eq_some_iff.mp ha
    exact throw_changes hp ht
  | rethrow error =>
    obtain ⟨⟨error', h'⟩, ht, rfl⟩ := Option.map_eq_some_iff.mp ha
    have hcarry := (@carry_proceeds false error h.engine).scoping
    exact hcarry.trans (throw_changes (h := { h with engine := (h.engine.carry error).2 }) hp ht)
  | load name source mode =>
    obtain ⟨outcome', hr, rfl⟩ := Option.map_eq_some_iff.mp ha
    rw [stateOf_reply]
    exact (@load_proceeds false name source mode h.engine).scoping.trans (surface_changes hp hr)
  | loadFile path file =>
    obtain ⟨outcome', hr, rfl⟩ := Option.map_eq_some_iff.mp ha
    rw [stateOf_reply]
    exact (@loadFile_proceeds false path file h.engine).scoping.trans (surface_changes hp hr)
  | call receiver callee args =>
    obtain ⟨outcome', hc, rfl⟩ := Option.map_eq_some_iff.mp ha
    obtain ⟨r, hr, hsurf⟩ := Option.bind_eq_some_iff.mp hc
    rw [stateOf_reply]
    exact (Machine.run_proceeds hr).scoping.trans (surface_changes hp hsurf)
  | setHandler handler =>
    obtain rfl := Option.some.inj ha
    exact .refl
  | setContext context =>
    obtain rfl := Option.some.inj ha
    exact .refl

theorem Host.Scoped.protect {body : Host κ χ → Option (Record κ χ α)} (hb : Scoped body) :
    Scoped (Host.protect body) := by
  intro h r hr
  have hbegin := (@beginProtected_proceeds false h.engine).scoping
  simp only [Host.protect] at hr
  cases hx : beginProtected h.engine with
  | error error e =>
    rw [hx] at hr hbegin
    obtain rfl := Option.some.inj hr
    exact hbegin
  | ok id e =>
    rw [hx] at hr hbegin
    obtain ⟨b, hrun, rfl⟩ := Option.map_eq_some_iff.mp hr
    have hend := (@endProtected_proceeds _ false id (within b.outcome)).scoping
    rw [stateOf_within] at hend
    refine (hbegin.trans (hb _ b hrun)).trans ?_
    rw [Record.host, Record.host, Host.endProtected, engine_receive]
    exact hend

theorem Program.run_scoped (hp : ∀ k, Scoped (panics k)) (fuel : Nat) (p : Program κ χ α) :
    Scoped (p.run panics fuel) := by
  induction p with
  | done result =>
    intro h r hr
    cases result <;>
    · obtain rfl := Option.some.inj hr
      exact .refl
  | act action next ih =>
    intro h r hr
    obtain ⟨outcome, ha, hmap⟩ := Option.bind_eq_some_iff.mp hr
    obtain ⟨rest, hnext, rfl⟩ := Option.map_eq_some_iff.mp hmap
    exact (action.perform_changes hp ha).trans (ih _ _ _ rest hnext)
  | protect body next ihb ih =>
    intro h r hr
    obtain ⟨b, hb, hmap⟩ := Option.bind_eq_some_iff.mp hr
    obtain ⟨rest, hnext, rfl⟩ := Option.map_eq_some_iff.mp hmap
    exact (ihb.protect h b hb).trans (ih _ _ _ rest hnext)

theorem Program.panics_scoped (handler : κ → Program κ χ Unit) (fuel : Nat) (k : κ) :
    Scoped (Program.panics handler fuel k) := by
  induction fuel generalizing k with
  | zero =>
    intro h r hr
    cases hr
  | succ fuel ih => exact run_scoped ih fuel (handler k)

inductive Host.Later (handler : κ → Program κ χ Unit) (h : Host κ χ) : Host κ χ → Prop
  | same : Later handler h h
  | ran {α : Type} {p : Program κ χ α} {fuel : Nat} {h' : Host κ χ} {r : Record κ χ α} :
      Later handler h h' → p.run (Program.panics handler fuel) fuel h' = some r → Later handler h r.host
  | raised {error : Error} {h' : Host κ χ} :
      Later handler h h' → h'.engine.frames = [] →
        Later handler h (h'.update fun e => (e.exceptionValue error).2.pushThrown (e.exceptionValue error).1)

theorem Engine.pushThrown_changes (error : Error) (e : Engine) :
    e.scoping.Changes ((e.exceptionValue error).2.pushThrown (e.exceptionValue error).1).scoping :=
  (@exceptionValue_proceeds false error e).scoping

theorem Host.Later.changes {handler : κ → Program κ χ Unit} (hl : Later handler h h') :
    h.engine.scoping.Changes h'.engine.scoping := by
  induction hl with
  | same => exact .refl
  | ran _ hr ih => exact ih.trans (Program.run_scoped (Program.panics_scoped handler _) _ _ _ _ hr)
  | raised _ _ ih => exact ih.trans (pushThrown_changes _ _)

theorem Host.Reached.ordered {handler : κ → Program κ χ Unit} {n : Nat} (hr : Reached handler n h) :
    h.engine.scoping.Ordered := by
  induction hr with
  | @created flags limits e hc =>
    have hnone := (create_frames hc).2
    constructor <;> simp [scoping, ofEngine, hnone]
  | ran _ hr ih => exact ih.changes (Program.run_scoped (Program.panics_scoped handler _) _ _ _ _ hr)
  | raised _ _ ih => exact ih.changes (pushThrown_changes _ _)

namespace Scoping

variable {s : Scoping} {id : ScopeId}

def Newest (s : Scoping) (id : ScopeId) : Prop :=
  id ∈ s.scopes ∧ ∀ other ∈ s.scopes, other.serial ≤ id.serial

instance (s : Scoping) (id : ScopeId) : Decidable (s.Newest id) :=
  inferInstanceAs (Decidable (_ ∧ ∀ other ∈ s.scopes, other.serial ≤ id.serial))

theorem Ordered.newest_iff {first : ScopeId} {rest : List ScopeId} (ho : s.Ordered) (hs : s.scopes = first :: rest) :
    s.Newest id ↔ first = id := by
  have hp := ho.increasing
  rw [hs] at hp
  have hlt := (List.pairwise_cons.mp hp).1
  simp only [Newest, hs]
  constructor
  · rintro ⟨hmem, hall⟩
    rcases List.mem_cons.mp hmem with rfl | hmem
    · rfl
    · exact absurd (hall first (.head _)) (Nat.not_le.mpr (hlt id hmem))
  · rintro rfl
    refine ⟨.head _, ?_⟩
    intro other hmem
    rcases List.mem_cons.mp hmem with rfl | hmem
    · exact Nat.le_refl _
    · exact Nat.le_of_lt (hlt other hmem)

end Scoping

namespace Engine

variable {e : Engine} {id : ScopeId}

theorem leaveProtected_newest (ho : e.scoping.Ordered) (id : ScopeId) :
    leaveProtected id e =
      if e.scoping.Newest id then .ok ⟨⟩ { e with frames := e.frames.tail } else .error .unbalancedScope e := by
  rw [leaveProtected_eq]
  cases hf : e.frames with
  | nil =>
    have hnone : ¬e.scoping.Newest id := by
      rintro ⟨hmem, -⟩
      simp [scoping, hf] at hmem
    rw [if_neg hnone]
  | cons frame frames =>
    have hs : e.scoping.scopes = frame.id :: frames.map (·.id) := by simp [scoping, hf]
    simp only [ho.newest_iff hs, List.tail_cons]

theorem findFrame_filter {frames rest : List ProtectedFrame} {frame : ProtectedFrame}
    (hp : (frames.map (·.id)).Pairwise (fun a b => b.serial < a.serial))
    (hf : findFrame id frames = some (frame, rest)) : rest = frames.filter (·.id.serial < id.serial) := by
  induction frames with
  | nil => cases hf
  | cons f frames ih =>
    obtain ⟨hlt, hp⟩ := List.pairwise_cons.mp hp
    simp only [findFrame] at hf
    split at hf
    · rename_i hid
      cases hf
      subst hid
      rw [List.filter_cons_of_neg (by simp), List.filter_eq_self.mpr]
      intro g hg
      exact decide_eq_true (hlt g.id (List.mem_map_of_mem hg))
    · obtain ⟨hid, inner, hi⟩ := findFrame_eq_some hf
      have hmem : id ∈ frames.map (·.id) := by
        rw [hi, ← hid]
        simp
      have hnot : ¬f.id.serial < id.serial := Nat.not_lt.mpr (Nat.le_of_lt (hlt id hmem))
      rw [List.filter_cons_of_neg (by simpa using hnot)]
      exact ih hp hf

theorem findFrame_eq_none {frames : List ProtectedFrame} :
    findFrame id frames = none ↔ id ∉ frames.map (·.id) := by
  induction frames with
  | nil => simp [findFrame]
  | cons f frames ih =>
    simp only [findFrame, List.map_cons, List.mem_cons, not_or]
    split
    · rename_i hid
      simp [hid]
    · rename_i hid
      rw [ih]
      exact ⟨fun h => ⟨fun he => hid he.symm, h⟩, fun h => h.2⟩

theorem unwind_closed (hn : id ∉ e.scoping.scopes) (error : Error) :
    (e.unwind id error).1 = .unbalancedScope ∧ (e.unwind id error).2.frames = e.frames := by
  obtain ⟨v, h, -, hv⟩ := exceptionValue_spec .unbalancedScope e
  simp only [unwind, findFrame_eq_none.mpr hn, hv]
  exact ⟨trivial, rfl⟩

theorem unwind_opened (ho : e.scoping.Ordered) (hm : id ∈ e.scoping.scopes) (error : Error) :
    (e.unwind id error).1 = error ∧ (e.unwind id error).2.frames = e.frames.filter (·.id.serial < id.serial) := by
  cases hf : findFrame id e.frames with
  | none => exact absurd hm (findFrame_eq_none.mp hf)
  | some found =>
    obtain ⟨frame, frames⟩ := found
    obtain ⟨v, e', hu, -, hl⟩ := unwind_found hf error
    rw [hu, ← findFrame_filter ho.increasing hf]
    exact ⟨rfl, congrArg Level.frames hl⟩

theorem leaveProtected_closed (ho : e.scoping.Ordered) (hn : id ∉ e.scoping.scopes) :
    leaveProtected id e = .error .unbalancedScope e := by
  rw [leaveProtected_newest ho, if_neg]
  exact fun h => hn h.1

end Engine

/-- In every state that a host can reach, and at every moment of every call that it makes there, the
open scopes have different ids, each stands at its depth, and their numbers increase up to the next
one. The scope entered last is the only one that can be left. Resuming a scope that is open closes
it and the scopes entered after it. A scope that was open once and is not open any more is not open
in any later state, and can be neither left nor resumed there. -/
theorem Host.scopes_disciplined {handler : κ → Program κ χ Unit} {n : Nat} (hr : Reached handler n h) :
    (∀ receiver callee args k,
      let s := (Machine.step^[k] ⟨h.engine, [], .calling receiver callee args⟩).engine.scoping
      s.scopes.Nodup ∧ s.scopes.reverse.map (·.depth) = List.range s.scopes.length ∧
        (s.scopes.reverse.map (·.serial) ++ [s.next]).Pairwise (· < ·)) ∧
    (∀ id, leaveProtected id h.engine =
      if h.engine.scoping.Newest id then .ok ⟨⟩ { h.engine with frames := h.engine.frames.tail }
      else .error .unbalancedScope h.engine) ∧
    (∀ id error, ((h.engine.unwind id error).1, (h.engine.unwind id error).2.frames) =
      if id ∈ h.engine.scoping.scopes then (error, h.engine.frames.filter (·.id.serial < id.serial))
      else (.unbalancedScope, h.engine.frames)) ∧
    ∀ id ∈ h.engine.scoping.scopes, ∀ h₁, Later handler h h₁ → id ∉ h₁.engine.scoping.scopes →
      ∀ h₂, Later handler h₁ h₂ →
        (∀ receiver callee args k,
          id ∉ (Machine.step^[k] ⟨h₂.engine, [], .calling receiver callee args⟩).engine.scoping.scopes) ∧
        leaveProtected id h₂.engine = .error .unbalancedScope h₂.engine ∧
        ∀ error, ((h₂.engine.unwind id error).1, (h₂.engine.unwind id error).2.frames) =
          (.unbalancedScope, h₂.engine.frames) := by
  have ho := hr.ordered
  refine ⟨?_, leaveProtected_newest ho, ?_, ?_⟩
  · intro receiver callee args k
    have hk := ho.changes (Machine.steps_proceed ⟨h.engine, [], .calling receiver callee args⟩ k).scoping
    exact ⟨hk.nodup, hk.depths, hk.serials⟩
  · intro id error
    split
    · rename_i hm
      obtain ⟨herror, hframes⟩ := unwind_opened ho hm error
      rw [herror, hframes]
    · rename_i hm
      obtain ⟨herror, hframes⟩ := unwind_closed hm error
      rw [herror, hframes]
  · intro id hm h₁ hl hclosed h₂ hl'
    have hissued : id.serial < h₁.engine.scoping.next := Nat.lt_of_lt_of_le (ho.below hm) (Scoping.next_le hl.changes)
    have hgone {t : Scoping} (ht : h₁.engine.scoping.Changes t) : id ∉ t.scopes :=
      Scoping.not_mem_of_changes ht hissued hclosed
    refine ⟨?_, ?_, ?_⟩
    · intro receiver callee args k
      have hk := Machine.steps_proceed ⟨h₂.engine, [], .calling receiver callee args⟩ k
      exact hgone (hl'.changes.trans hk.scoping)
    · exact leaveProtected_closed (ho.changes (hl.changes.trans hl'.changes)) (hgone hl'.changes)
    · intro error
      obtain ⟨herror, hframes⟩ := unwind_closed (hgone hl'.changes) error
      rw [herror, hframes]

def Program.operates : List Operation → Program Unit Unit Unit
  | [] => .done (.ok ())
  | operation :: operations => .act (.operate operation) fun _ _ => operates operations

theorem Host.scopes_disciplined_of_discarded :
    ∃ e r₀ r₁ r₂ id other, create? .none {} = some e ∧
      (Program.operates [.enter, .enter]).run (Program.panics .quiet 0) 0 (ofEngine e) = some r₀ ∧
      id ∈ r₀.host.engine.scoping.scopes ∧
      (Program.operates [.unwind ⟨0, 0⟩ .unbalancedScope]).run (Program.panics .quiet 0) 0 r₀.host = some r₁ ∧
      id ∉ r₁.host.engine.scoping.scopes ∧
      (Program.operates [.enter, .enter]).run (Program.panics .quiet 0) 0 r₁.host = some r₂ ∧
      other ∈ r₂.host.engine.scoping.scopes ∧ other.depth = id.depth ∧
      leaveProtected id r₂.host.engine = .error .unbalancedScope r₂.host.engine := by
  have hok : (create? .none {}).any (fun e =>
      ((Program.operates [.enter, .enter]).run (Program.panics .quiet 0) 0 (ofEngine e)).any fun r₀ =>
      ((Program.operates [.unwind ⟨0, 0⟩ .unbalancedScope]).run (Program.panics .quiet 0) 0 r₀.host).any fun r₁ =>
      ((Program.operates [.enter, .enter]).run (Program.panics .quiet 0) 0 r₁.host).any fun r₂ =>
        decide (⟨1, 1⟩ ∈ r₀.host.engine.scoping.scopes) && decide (⟨1, 1⟩ ∉ r₁.host.engine.scoping.scopes) &&
          decide (⟨1, 3⟩ ∈ r₂.host.engine.scoping.scopes)) = true := by decide +kernel
  obtain ⟨e, he, hl⟩ := (Option.any_eq_true _ _).mp hok
  obtain ⟨r₀, hr₀, hl⟩ := (Option.any_eq_true _ _).mp hl
  obtain ⟨r₁, hr₁, hl⟩ := (Option.any_eq_true _ _).mp hl
  obtain ⟨r₂, hr₂, hl⟩ := (Option.any_eq_true _ _).mp hl
  simp only [Bool.and_eq_true, decide_eq_true_eq] at hl
  obtain ⟨⟨hopen, hclosed⟩, hother⟩ := hl
  have hstale := (scopes_disciplined (.ran (.created he) hr₀)).2.2.2
  have hleave := (hstale _ hopen _ (.ran .same hr₁) hclosed _ (.ran .same hr₂)).2.1
  exact ⟨e, r₀, r₁, r₂, ⟨1, 1⟩, ⟨1, 3⟩, he, hr₀, hopen, hr₁, hclosed, hr₂, hother, rfl, hleave⟩

end ScriptEngine
