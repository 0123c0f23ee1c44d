import ScriptEngine.Engine.Native
import ScriptEngine.Proofs.Engine.Internal
import ScriptEngine.Proofs.Heap.Evolution

namespace ScriptEngine

structure Level where
  stack : List Value
  trace : List TraceEntry
  scopes : List Handle
  env : Handle
  frames : List ProtectedFrame
  loops : Nat

structure Level.Beneath (L M : Level) : Prop where
  stack : L.stack <+: M.stack
  trace : L.trace <+: M.trace
  scopes : L.scopes ++ [L.env] <+: M.scopes ++ [M.env]
  frames : M.frames = L.frames
  loops : M.loops = L.loops

theorem Level.Beneath.refl (L : Level) : L.Beneath L :=
  ⟨List.prefix_rfl, List.prefix_rfl, List.prefix_rfl, rfl, rfl⟩

theorem Level.Beneath.trans {L M N : Level} (h : L.Beneath M) (h' : M.Beneath N) : L.Beneath N :=
  ⟨h.stack.trans h'.stack, h.trace.trans h'.trace, h.scopes.trans h'.scopes,
    h'.frames.trans h.frames, h'.loops.trans h.loops⟩

structure ProtectedFrame.Marks (frame : ProtectedFrame) (L : Level) : Prop where
  stackDepth : frame.stackDepth = L.stack.length
  traceDepth : frame.traceDepth = L.trace.length
  scopeDepth : frame.scopeDepth = L.scopes.length
  env : frame.env = L.env

namespace Engine

def level (e : Engine) : Level :=
  ⟨e.stack.toList, e.trace.toList, e.scopes.toList, e.env, e.frames, e.loops⟩

def fixed (e : Engine) : Bool × Limits × Handle × Handle × Handle :=
  (e.strict, e.limits, e.registry, e.global, e.globalEnv)

structure Ages (e : Engine) (n : Nat) (e' : Engine) : Prop where
  heap : e.heap.Evolves n e'.heap
  serial : e.nextSerial ≤ e'.nextSerial
  fixed : e'.fixed = e.fixed

namespace Ages

variable {e e' e'' : Engine} {m n : Nat}

theorem refl : e.Ages n e := ⟨.refl, Nat.le_refl _, rfl⟩

theorem trans (h : e.Ages m e') (h' : e'.Ages n e'') : e.Ages (m + n) e'' :=
  ⟨h.heap.trans h'.heap, Nat.le_trans h.serial h'.serial, h'.fixed.trans h.fixed⟩

theorem after (h : e.Ages 0 e') (h' : e'.Ages n e'') : e.Ages n e'' := by
  simpa using h.trans h'

theorem mono (h : e.Ages m e') (hmn : m ≤ n) : e.Ages n e' :=
  ⟨h.heap.mono hmn, h.serial, h.fixed⟩

end Ages

theorem length_stack (e : Engine) : e.level.stack.length = e.stack.size :=
  Array.length_toList

theorem length_scopes (e : Engine) : e.level.scopes.length = e.scopes.size :=
  Array.length_toList

theorem length_trace (e : Engine) : e.level.trace.length = e.trace.size :=
  Array.length_toList

theorem level_loops (e : Engine) (n : Nat) : level { e with loops := n } = { e.level with loops := n } := rfl

theorem level_reset (e : Engine) (l : List Value) (h : Heap) :
    (e.reset l h).level = { e.level with stack := l } := rfl

theorem level_cutStack (e : Engine) (depth : Nat) :
    (e.cutStack depth).level = { e.level with stack := e.level.stack.take depth } := by
  simp [level, cutStack]

theorem ages_reset {e : Engine} {n : Nat} {l : List Value} {h : Heap} (hh : e.heap.Evolves n h) :
    e.Ages n (e.reset l h) := ⟨hh, Nat.le_refl _, rfl⟩

theorem exceptionValue_spec (error : Error) (e : Engine) :
    ∃ v h, e.heap.Evolves 0 h ∧ e.exceptionValue error = (v, { e with heap := h }) := by
  simp only [exceptionValue]
  split
  · exact ⟨_, e.heap, .refl, rfl⟩
  · split
    · rename_i name message _
      exact ⟨_, (e.newError name message).2.heap, .alloc .refl trivial, rfl⟩
    · exact ⟨_, e.heap, .refl, rfl⟩

structure Opens (e : Engine) (frame : ProtectedFrame) : Prop where
  marks : frame.Marks e.level
  serial : frame.id.serial = e.nextSerial
  heapMark : frame.heapMark = e.heap.born

theorem enterProtected_ensures (e : Engine) :
    Ensures enterProtected
      (fun id e' => ∃ frame : ProtectedFrame, frame.id = id ∧ e.Opens frame ∧
        e' = { e with frames := frame :: e.frames, nextSerial := e.nextSerial + 1 })
      (fun error e' => error.isInternal = false ∧ e' = e) e := by
  refine .get ?_
  split
  · exact .bind (.fault ⟨rfl, rfl⟩)
  · exact ⟨⟨⟨_, _⟩, _, _, _, _, _⟩, rfl,
      ⟨⟨by simp [level], by simp [level], by simp [level], rfl⟩, rfl, rfl⟩, rfl⟩

theorem leaveProtected_ensures (id : ScopeId) (e : Engine) :
    Ensures (leaveProtected id)
      (fun _ e' => ∃ frame frames, e.frames = frame :: frames ∧ frame.id = id ∧ e' = { e with frames })
      (fun error e' => error = .unbalancedScope ∧ e' = e ∧ ∀ frame frames, e.frames = frame :: frames → frame.id ≠ id)
      e := by
  refine .get ?_
  cases hf : e.frames with
  | nil =>
    refine .throw ⟨rfl, rfl, ?_⟩
    intro frame frames h
    cases h
  | cons frame frames =>
    by_cases hid : frame.id = id
    · simp only [if_pos hid]
      exact ⟨frame, frames, rfl, hid, rfl⟩
    · simp only [if_neg hid]
      refine .throw ⟨rfl, rfl, ?_⟩
      intro frame frames h
      cases h
      exact hid

theorem leaveProtected_top {e : Engine} {frame : ProtectedFrame} {frames : List ProtectedFrame}
    (hf : e.frames = frame :: frames) : leaveProtected frame.id e = .ok () { e with frames } := by
  have hx := leaveProtected_ensures frame.id e
  cases hl : leaveProtected frame.id e with
  | ok u e' =>
    obtain ⟨top, rest, ht, -, rfl⟩ := hx.ok hl
    rw [hf] at ht
    cases ht
    rfl
  | error error e' =>
    obtain ⟨-, -, hne⟩ := hx.error hl
    exact absurd rfl (hne frame frames hf)

theorem findFrame_top (frame : ProtectedFrame) (frames : List ProtectedFrame) :
    findFrame frame.id (frame :: frames) = some (frame, frames) := if_pos rfl

theorem findFrame_eq_some {id : ScopeId} {frames : List ProtectedFrame} {frame : ProtectedFrame}
    {rest : List ProtectedFrame} (h : findFrame id frames = some (frame, rest)) :
    frame.id = id ∧ ∃ inner, frames = inner ++ frame :: rest := by
  induction frames with
  | nil => cases h
  | cons f frames ih =>
    simp only [findFrame] at h
    split at h
    · rename_i hid
      cases h
      exact ⟨hid, [], rfl⟩
    · obtain ⟨hid, inner, rfl⟩ := ih h
      exact ⟨hid, f :: inner, rfl⟩

theorem unwind_found {e : Engine} {id : ScopeId} {frame : ProtectedFrame}
    {frames : List ProtectedFrame} (hf : findFrame id e.frames = some (frame, frames)) (error : Error) :
    ∃ v e', e.unwind id error = (error, e') ∧ e.Ages 1 e' ∧
      e'.level = ⟨e.level.stack.take frame.stackDepth ++ [v], e.level.trace.take (max frame.traceDepth 1),
        e.level.scopes.take frame.scopeDepth, frame.env, frames, e.loops⟩ := by
  obtain ⟨v, h, hh, hv⟩ := exceptionValue_spec error { e with frames }
  refine ⟨v, ({ e with frames, heap := h }.restore frame v).collectSince frame.heapMark, ?_, ?_, ?_⟩
  · simp only [unwind, hf, hv]
  · exact ⟨hh.collect _ _, Nat.le_refl _, rfl⟩
  · simp [level, restore, collectSince]

theorem carry_top {e : Engine} {l : List Value} {v : Value} (hs : e.level.stack = l ++ [v])
    (error : Error) :
    ∃ e', e.carry error = (error.carrying v, e') ∧ e.Ages 0 e' ∧ e'.level = { e.level with stack := l } := by
  have hlist : e.stack.toList = l ++ [v] := hs
  have hb : e.stack.back? = some v := by
    rw [← Array.getLast?_toList, hlist, List.getLast?_concat]
  refine ⟨{ e with stack := e.stack.pop }, by simp only [carry, hb], ⟨.refl, Nat.le_refl _, rfl⟩, ?_⟩
  simp only [level, Array.toList_pop, hlist, List.dropLast_concat]

theorem carry_engine (error : Error) (e : Engine) :
    (e.carry error).2 = { e with stack := e.stack.pop } := by
  simp only [carry]
  cases hb : e.stack.back? with
  | some v => rfl
  | none =>
    have hempty : e.stack = #[] := Array.back?_eq_none_iff.mp hb
    cases e
    simp_all

theorem carry_heap (error : Error) (e : Engine) : (e.carry error).2.heap = e.heap := by
  simp only [carry]
  split <;> rfl

theorem carried_heap {α : Type} (r : EStateM.Result Error Engine α) :
    (stateOf (carried r)).heap = (stateOf r).heap := by
  cases r with
  | ok a e => rfl
  | error error e => exact carry_heap error e

def Keeps (e : Engine) (n : Nat) (e' : Engine) : Prop :=
  e.Ages n e' ∧ e'.level = e.level

def KeepsFailing (e : Engine) (n : Nat) (error : Error) (e' : Engine) : Prop :=
  error.isInternal = false ∧ e.Keeps n e'

section Guard

variable {α : Type} {e : Engine} {L : Level} {frame : ProtectedFrame}

theorem guard_ok (he : e.level = { L with frames := frame :: L.frames }) (a : α) :
    ∃ e', carried (endProtected frame.id (.ok a e)) = .ok a e' ∧ e.Ages 0 e' ∧ e'.level = L := by
  have hf : e.frames = frame :: L.frames := congrArg Level.frames he
  refine ⟨{ e with frames := L.frames }, ?_, ⟨.refl, Nat.le_refl _, rfl⟩, ?_⟩
  · simp only [endProtected, leaveProtected_top hf, carried]
  · show { e.level with frames := L.frames } = L
    rw [he]

theorem guard_error (extra : List Value) (hm : frame.Marks L)
    (he : e.level = { L with frames := frame :: L.frames, stack := L.stack ++ extra }) (error : Error) :
    ∃ v e', carried (endProtected frame.id (.error error e : EStateM.Result Error Engine α)) =
        .error (error.carrying v) e' ∧ e.Ages 1 e' ∧ e'.level = L := by
  have hf : e.frames = frame :: L.frames := congrArg Level.frames he
  have hloops : e.loops = L.loops := congrArg Level.loops he
  obtain ⟨v, e₁, hu, ha, hl⟩ := unwind_found (by rw [hf]; exact findFrame_top frame L.frames) error
  have hs : e₁.level.stack = L.stack ++ [v] := by
    rw [hl, he, hm.stackDepth]
    simp
  obtain ⟨e₂, hc, ha', hl'⟩ := carry_top hs error
  refine ⟨v, e₂, by simp only [endProtected, hu, carried, hc], ha.trans ha', ?_⟩
  rw [hl', hl]
  simp only [he, hm.traceDepth, hm.scopeDepth, hm.env, List.take_length,
    List.take_of_length_le (Nat.le_max_left _ _), hloops]

theorem beginProtected_ensures (e : Engine) :
    Ensures beginProtected
      (fun id e' => ∃ frame : ProtectedFrame, frame.id = id ∧ e.Opens frame ∧
        e' = { e with frames := frame :: e.frames, nextSerial := e.nextSerial + 1 })
      (fun error e' => error.isInternal = false ∧
        e' = pushThrown (e.exceptionValue error).1 (e.exceptionValue error).2) e := by
  have hen := enterProtected_ensures e
  simp only [Ensures, beginProtected]
  cases hx : enterProtected e with
  | ok id e' => exact hen.ok hx
  | error error e' =>
    obtain ⟨hi, rfl⟩ := hen.error hx
    exact ⟨hi, rfl⟩

theorem carry_begun_error {error : Error} {e' : Engine} (hb : beginProtected e = .error error e') :
    ∃ error' e'', e'.carry error = (error', e'') ∧ e.KeepsFailing 0 error' e'' := by
  obtain ⟨hi, rfl⟩ := (beginProtected_ensures e).error hb
  obtain ⟨v, h, hh, hv⟩ := exceptionValue_spec error e
  rw [hv]
  have htop : (pushThrown v { e with heap := h }).level.stack = e.level.stack ++ [v] := by
    simp [level, pushThrown]
  obtain ⟨e'', hc, ha, hl⟩ := carry_top htop error
  refine ⟨_, e'', hc, (Error.isInternal_carrying v error).trans hi, ?_, hl⟩
  exact ⟨hh.trans ha.heap, ha.serial, ha.fixed⟩

theorem beginProtected_heap {id : ScopeId} {e' : Engine} (hb : beginProtected e = .ok id e') : e'.heap = e.heap := by
  obtain ⟨frame, -, -, rfl⟩ := (beginProtected_ensures e).ok hb
  rfl

theorem beginProtected_ok {id : ScopeId} {e' : Engine} (hb : beginProtected e = .ok id e') :
    ∃ frame : ProtectedFrame, frame.id = id ∧ frame.Marks e.level ∧ e.Ages 0 e' ∧
      e'.level = { e.level with frames := frame :: e.level.frames } := by
  obtain ⟨frame, hid, ho, rfl⟩ := (beginProtected_ensures e).ok hb
  exact ⟨frame, hid, ho.marks, ⟨.refl, Nat.le_succ _, rfl⟩, rfl⟩

end Guard

theorem guarding_ensures {α : Type} {body : EngineM α} {n : Nat}
    (hb : ∀ e, Ensures body (fun _ => e.Keeps n) (e.KeepsFailing n) e) (e : Engine) :
    Ensures (guarding body) (fun _ => e.Keeps (n + 1)) (e.KeepsFailing (n + 1)) e := by
  simp only [Ensures, guarding]
  cases hbegin : beginProtected e with
  | error error e₁ =>
    obtain ⟨error', e₂, hc, hi, ha, hl⟩ := carry_begun_error hbegin
    simp only [protect, hbegin, carried, hc]
    exact ⟨hi, ha.mono (by omega), hl⟩
  | ok id e₁ =>
    obtain ⟨frame, rfl, hm, ha, hl⟩ := beginProtected_ok hbegin
    simp only [protect, hbegin]
    have he := hb e₁
    cases hbody : body e₁ with
    | ok a e₂ =>
      obtain ⟨ha₂, hl₂⟩ := he.ok hbody
      obtain ⟨e₃, hg, ha₃, hl₃⟩ := guard_ok (hl₂.trans hl) a
      rw [hg]
      exact ⟨((ha.trans ha₂).trans ha₃).mono (by omega), hl₃⟩
    | error error e₂ =>
      obtain ⟨hi, ha₂, hl₂⟩ := he.error hbody
      obtain ⟨v, e₃, hg, ha₃, hl₃⟩ := guard_error (α := α) [] hm
        (by rw [hl₂, hl, List.append_nil]) error
      rw [hg]
      exact ⟨(Error.isInternal_carrying v error).trans hi, ((ha.trans ha₂).trans ha₃).mono (by omega), hl₃⟩

end Engine

end ScriptEngine
