import ScriptEngine.Proofs.Engine.Native
import ScriptEngine.Proofs.Engine.Touch
import Mathlib.Data.List.Range
import Mathlib.Logic.Relation

namespace ScriptEngine

structure Scoping where
  scopes : List ScopeId
  next : Nat

namespace Scoping

inductive Change : Scoping → Scoping → Prop
  | enter (s : Scoping) : Change s ⟨⟨s.scopes.length, s.next⟩ :: s.scopes, s.next + 1⟩
  | close {s : Scoping} {kept : List ScopeId} (h : kept <:+ s.scopes) : Change s ⟨kept, s.next⟩

abbrev Changes : Scoping → Scoping → Prop := Relation.ReflTransGen Change

structure Ordered (s : Scoping) : Prop where
  depths : s.scopes.reverse.map (·.depth) = List.range s.scopes.length
  serials : (s.scopes.reverse.map (·.serial) ++ [s.next]).Pairwise (· < ·)

variable {s t : Scoping} {id : ScopeId} {kept : List ScopeId}

theorem Ordered.below (h : s.Ordered) (hid : id ∈ s.scopes) : id.serial < s.next := by
  have hp := (List.pairwise_append.mp h.serials).2.2
  exact hp id.serial (List.mem_map_of_mem (List.mem_reverse.mpr hid)) s.next (List.mem_singleton_self _)

theorem Ordered.increasing (h : s.Ordered) : s.scopes.Pairwise (fun a b => b.serial < a.serial) := by
  have hp := (List.pairwise_append.mp h.serials).1
  rw [List.pairwise_map, List.pairwise_reverse] at hp
  exact hp

theorem Ordered.nodup (h : s.Ordered) : s.scopes.Nodup := by
  refine h.increasing.imp ?_
  rintro a b hlt rfl
  exact Nat.lt_irrefl _ hlt

theorem Ordered.enter (h : s.Ordered) : Ordered ⟨⟨s.scopes.length, s.next⟩ :: s.scopes, s.next + 1⟩ := by
  constructor
  · simp only [List.reverse_cons, List.map_append, h.depths, List.length_cons, List.range_succ, List.map_cons,
      List.map_nil]
  · simp only [List.reverse_cons, List.map_append, List.map_cons, List.map_nil]
    refine List.pairwise_append.mpr ⟨h.serials, List.pairwise_singleton _ _, ?_⟩
    intro a ha b hb
    rw [List.mem_singleton.mp hb]
    rcases List.mem_append.mp ha with ha | ha
    · obtain ⟨id, hid, rfl⟩ := List.mem_map.mp ha
      exact Nat.lt_succ_of_lt (h.below (List.mem_reverse.mp hid))
    · rw [List.mem_singleton.mp ha]
      exact Nat.lt_succ_self _

theorem Ordered.close (h : s.Ordered) (hk : kept <:+ s.scopes) : Ordered ⟨kept, s.next⟩ := by
  have hr : kept.reverse <+: s.scopes.reverse := List.reverse_prefix.mpr hk
  constructor
  · have hm := hr.map (·.depth)
    rw [h.depths] at hm
    rw [List.prefix_iff_eq_take.mp hm, List.take_range, List.length_map, List.length_reverse,
      Nat.min_eq_left hk.length_le]
  · exact h.serials.sublist ((hr.map (·.serial)).sublist.append (List.Sublist.refl _))

theorem Ordered.changes (h : s.Ordered) (hc : s.Changes t) : t.Ordered := by
  induction hc with
  | refl => exact h
  | tail _ hstep ih =>
    cases hstep with
    | enter => exact ih.enter
    | close hk => exact ih.close hk

theorem next_le (hc : s.Changes t) : s.next ≤ t.next := by
  induction hc with
  | refl => exact Nat.le_refl _
  | tail _ hstep ih =>
    cases hstep with
    | enter => exact Nat.le_succ_of_le ih
    | close _ => exact ih

theorem not_mem_of_changes (hc : s.Changes t) (hlt : id.serial < s.next) (hn : id ∉ s.scopes) : id ∉ t.scopes := by
  induction hc with
  | refl => exact hn
  | @tail t u hst hstep ih =>
    have hle : s.next ≤ t.next := next_le hst
    cases hstep with
    | enter =>
      intro hm
      rcases List.mem_cons.mp hm with rfl | hm
      · exact absurd hlt (Nat.not_lt.mpr hle)
      · exact ih hm
    | close hk => exact fun hm => ih (hk.subset hm)

end Scoping

namespace Engine

variable {α : Type} {silent : Bool} {e e' e'' : Engine}

def scoping (e : Engine) : Scoping :=
  ⟨e.frames.map (·.id), e.nextSerial⟩

structure Proceeds (silent : Bool) (e e' : Engine) : Prop where
  scoping : e.scoping.Changes e'.scoping
  diagnostics : e'.diagnostics = e.diagnostics
  output : silent = true → e'.output = e.output

namespace Proceeds

theorem still (hs : e'.scoping = e.scoping) (hd : e'.diagnostics = e.diagnostics) (ho : e'.output = e.output) :
    e.Proceeds silent e' :=
  ⟨by rw [hs], hd, fun _ => ho⟩

theorem refl (e : Engine) : e.Proceeds silent e := .still rfl rfl rfl

theorem trans (h : e.Proceeds silent e') (h' : e'.Proceeds silent e'') : e.Proceeds silent e'' :=
  ⟨h.scoping.trans h'.scoping, h'.diagnostics.trans h.diagnostics, fun hs => (h'.output hs).trans (h.output hs)⟩

theorem enter {frame : ProtectedFrame} (hid : frame.id = ⟨e.frames.length, e.nextSerial⟩) :
    e.Proceeds silent { e with frames := frame :: e.frames, nextSerial := e.nextSerial + 1 } := by
  have hlen : (e.frames.map (·.id)).length = e.frames.length := List.length_map _
  have henter := Scoping.Change.enter e.scoping
  simp only [Engine.scoping, hlen, ← hid] at henter
  exact ⟨.single henter, rfl, fun _ => rfl⟩

theorem close {frames : List ProtectedFrame} (h : frames <:+ e.frames) : e.Proceeds silent { e with frames } :=
  ⟨.single (.close (h.map _)), rfl, fun _ => rfl⟩

end Proceeds

end Engine

def Proceeding {ε σ α : Type} (silent : Bool) (engine : σ → Engine) (x : EStateM ε σ α) : Prop :=
  ∀ s, (engine s).Proceeds silent (engine (stateOf (x s)))

namespace Proceeding

variable {ε σ α β : Type} {silent : Bool} {engine : σ → Engine} {x : EStateM ε σ α}

theorem pure (a : α) : Proceeding silent engine (Pure.pure a : EStateM ε σ α) := fun _ => .refl _

theorem bind {f : α → EStateM ε σ β} (hx : Proceeding silent engine x) (hf : ∀ a, Proceeding silent engine (f a)) :
    Proceeding silent engine (x >>= f) :=
  Relates.bind .trans hx hf

theorem get {f : σ → EStateM ε σ β} (hf : ∀ s, Proceeding silent engine (f s)) :
    Proceeding silent engine (MonadState.get >>= f) :=
  fun s => hf s s

end Proceeding

namespace Engine

variable {α : Type} {silent : Bool} {e e' : Engine}

section Operations

theorem allows_proceeds : Allows (fun _ => True) (Proceeds silent) where
  refl := .refl
  trans := .trans
  touches h := by
    cases h with
    | enterProtected _ hid => exact .enter hid
    | leaveProtected hf => exact .close hf
    | push | restack | enterTrace | retrace | rescope | alloc | write => exact .still rfl rfl rfl

theorem push_proceeds (v : Value) : Proceeding silent id (push v) := allows_proceeds.push v

theorem change_proceeds (f : Heap → Except Fault Heap) : Proceeding silent id (EngineM.change f) := by
  intro e
  rw [change_eq]
  split <;> exact .still rfl rfl rfl

theorem exceptionValue_proceeds (error : Error) (e : Engine) : e.Proceeds silent (e.exceptionValue error).2 := by
  obtain ⟨v, h, -, hv⟩ := exceptionValue_spec error e
  rw [hv]
  exact .still rfl rfl rfl

end Operations

section Protection

theorem unwind_proceeds (id : ScopeId) (error : Error) (e : Engine) : e.Proceeds silent (e.unwind id error).2 := by
  cases hf : findFrame id e.frames with
  | none =>
    obtain ⟨v, h, -, hv⟩ := exceptionValue_spec .unbalancedScope e
    simp only [unwind, hf, hv]
    exact .still rfl rfl rfl
  | some found =>
    obtain ⟨frame, frames⟩ := found
    obtain ⟨-, inner, hi⟩ := findFrame_eq_some hf
    obtain ⟨v, h, -, hv⟩ := exceptionValue_spec error { e with frames }
    simp only [unwind, hf, hv]
    have hclose : e.Proceeds silent { e with frames } := by
      refine .close ?_
      rw [hi]
      exact (List.suffix_cons frame frames).trans (List.suffix_append inner _)
    exact hclose.trans (.still rfl rfl rfl)

theorem beginProtected_proceeds : Proceeding silent id beginProtected := by
  intro e
  have henter := (@allows_proceeds silent).enterProtected e
  simp only [beginProtected]
  cases hx : enterProtected e with
  | ok id e₁ =>
    rw [hx] at henter
    exact henter
  | error error e₁ =>
    rw [hx] at henter
    exact henter.trans ((exceptionValue_proceeds error e₁).trans (.still rfl rfl rfl))

theorem endProtected_proceeds (id : ScopeId) (r : EStateM.Result Error Engine α) :
    (stateOf r).Proceeds silent (stateOf (endProtected id r)) := by
  cases r with
  | error error e => exact unwind_proceeds id error e
  | ok a e =>
    have hleave := (@allows_proceeds silent).leaveProtected id e
    simp only [endProtected]
    cases hx : leaveProtected id e with
    | ok _ e₁ =>
      rw [hx] at hleave
      exact hleave
    | error error e₁ =>
      rw [hx] at hleave
      exact hleave.trans (unwind_proceeds id error e₁)

theorem carry_proceeds (error : Error) (e : Engine) : e.Proceeds silent (e.carry error).2 := by
  rw [carry_engine]
  exact .still rfl rfl rfl

theorem carried_proceeds (r : EStateM.Result Error Engine α) : (stateOf r).Proceeds silent (stateOf (carried r)) := by
  cases r with
  | ok a e => exact .refl _
  | error error e => exact carry_proceeds error e

theorem protect_proceeds {body : EngineM α} (hb : Proceeding silent id body) : Proceeding silent id (protect body) := by
  intro e
  have hbegin := @beginProtected_proceeds silent e
  simp only [protect]
  cases hx : beginProtected e with
  | error error e₁ =>
    rw [hx] at hbegin
    exact hbegin
  | ok scope e₁ =>
    rw [hx] at hbegin
    exact hbegin.trans ((hb e₁).trans (endProtected_proceeds scope (body e₁)))

theorem guarding_proceeds {body : EngineM α} (hb : Proceeding silent id body) : Proceeding silent id (guarding body) :=
  fun e => (protect_proceeds hb e).trans (carried_proceeds _)

end Protection

section Loading

theorem compile_proceeds (name source : String) : Proceeding silent id (compile name source) := by
  intro e
  refine Ensures.state (P := fun e' => e.Proceeds silent e') (.get ?_)
  generalize SyntaxTree.acquire name source e.ledger = acquired
  obtain ⟨parsed, ledger⟩ := acquired
  refine .bind (.set ?_)
  cases parsed with
  | error d => exact .throw (.still rfl rfl rfl)
  | ok tree =>
    refine .bind (.modified ?_)
    cases tree.compile e.strict with
    | error d => exact .throw (.still rfl rfl rfl)
    | ok unit => exact .pure (.still rfl rfl rfl)

theorem target_proceeds (mode : LoadMode) (e : Engine) : e.Proceeds silent (e.target mode).2 := by
  simp only [target]
  split <;> exact .still rfl rfl rfl

theorem load_proceeds (name source : String) (mode : LoadMode) : Proceeding silent id (load name source mode) := by
  refine guarding_proceeds (.bind (compile_proceeds name source) fun unit => ?_)
  exact .bind (fun e => target_proceeds mode e) fun env e => .still rfl rfl rfl

theorem readFile_proceeds (path : String) (file : Option Stream) : Proceeding silent id (readFile path file) := by
  intro e
  refine Ensures.state (P := fun e' => e.Proceeds silent e') (.get ?_)
  generalize SourceBuffer.ofFile path file e.ledger = opened
  obtain ⟨read, ledger⟩ := opened
  refine .bind (.set ?_)
  cases read with
  | ok buffer => exact .pure (.still rfl rfl rfl)
  | error error => exact .throw (.still rfl rfl rfl)

theorem loadBuffer_proceeds (path : String) (buffer : SourceBuffer) :
    Proceeding silent id (loadBuffer path buffer) := by
  intro e
  have hload := @load_proceeds silent path buffer.text .program e
  simp only [loadBuffer]
  cases hx : load path buffer.text .program e <;>
  · rw [hx] at hload
    exact hload.trans (.still rfl rfl rfl)

theorem loadFile_proceeds (path : String) (file : Option Stream) : Proceeding silent id (loadFile path file) :=
  guarding_proceeds (.bind (readFile_proceeds path file) fun buffer => loadBuffer_proceeds path buffer)

end Loading

section Functions

theorem print_proceeds (args : List Value) : Proceeding false id (print args) := by
  intro e
  refine Ensures.state (P := fun e' => e.Proceeds false e') (.get ?_)
  split
  · exact .set ⟨.refl, rfl, fun h => nomatch h⟩
  · exact .fault (.refl _)

theorem makeError_proceeds (name : ErrorName) (args : List Value) (e : Engine) :
    e.Proceeds silent (e.makeError name args).2 := by
  simp only [makeError]
  split <;> exact .still rfl rfl rfl

theorem native_proceeds (f : Builtin) (args : List Value) : Proceeding false id (native f args) := by
  refine .get fun e => ?_
  cases f with
  | print => exact .bind (print_proceeds args) fun _ => .pure _
  | makeError name => exact .bind (fun e => makeError_proceeds name args e) fun _ => .pure _
  | string => cases args <;> exact .pure _
  | number => cases args <;> exact .pure _
  | isNaN => exact .pure _
  | isFinite => exact .pure _
  | eval =>
    cases args with
    | nil => exact .pure _
    | cons value args =>
      cases value with
      | string source => exact .bind (load_proceeds "(eval)" source .eval) fun _ => .pure _
      | undefined | null | boolean | number | object => exact .pure _
  | gc => exact .bind (fun e => .still rfl rfl rfl) fun _ => .pure _
  | math function => exact .pure _

theorem callNative_proceeds (f : Builtin) (args : List Value) : Proceeding false id (callNative f args) := by
  intro e
  have htrace := (@allows_proceeds false).enterTrace ⟨f.name, "native", 0⟩ e
  simp only [callNative]
  cases ht : enterTrace ⟨f.name, "native", 0⟩ e with
  | error error e₁ =>
    rw [ht] at htrace
    exact htrace
  | ok _ e₁ =>
    rw [ht] at htrace
    have hnative := htrace.trans (native_proceeds f args e₁)
    dsimp only
    cases hn : native f args e₁ with
    | error error e₂ =>
      rw [hn] at hnative
      exact hnative.trans (.still rfl rfl rfl)
    | ok result e₂ =>
      rw [hn] at hnative
      cases result with
      | value v => exact hnative.trans (.still rfl rfl rfl)
      | run closure => exact hnative

end Functions

end Engine

end ScriptEngine
