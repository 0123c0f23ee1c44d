import ScriptEngine.Proofs.Host.Delivery
import ScriptEngine.Proofs.Machine.Catch
import ScriptEngine.Proofs.Machine.Launch

/-!
An error on its way out. A thrown value comes to the innermost try statement that is open, in
whatever frame and behind whatever calls of built-in functions it waits, or to the host if there is
none. Each task on the way hands on the same value.
-/

namespace ScriptEngine

open Engine

/-- An open try statement: where its clause goes on, in the frame that opened it, and what waits
behind that frame. -/
structure Rescue where
  handler : Handler
  frame : CallFrame
  callers : List CallFrame
  entry : Entry
  tasks : List Task

def Rescue.resumed (t : Rescue) (e : Engine) : Machine :=
  ⟨e, t.tasks, .running t.entry (t.frame :: t.callers)⟩

def Loop.rescue? (entry : Entry) (tasks : List Task) : List CallFrame → Option Rescue
  | [] => none
  | frame :: callers =>
    match frame.handlers with
    | [] => rescue? entry tasks callers
    | handler :: handlers => some ⟨handler, { frame with handlers, next := handler.catchAt }, callers, entry, tasks⟩

def Task.rescue? : List Task → Option Rescue
  | [] => none
  | .loop entry frames :: tasks => (Loop.rescue? entry tasks frames).or (rescue? tasks)
  | .guard _ :: tasks | .native _ :: tasks => rescue? tasks

theorem Loop.catch?_eq (error : Error) (e : Engine) (entry : Entry) (tasks : List Task) (frames : List CallFrame) :
    catch? error e frames = (rescue? entry tasks frames).map fun t =>
      ⟨(e.unwind t.handler.scope error).2, t.frame :: t.callers⟩ := by
  induction frames with
  | nil => rfl
  | cons frame callers ih =>
    cases hh : frame.handlers with
    | nil => simpa only [catch?, rescue?, hh] using ih
    | cons handler handlers => simp only [catch?, rescue?, hh, Option.map_some]

theorem Loop.rescue?_next (entry : Entry) (tasks : List Task) (frame : CallFrame) (callers : List CallFrame)
    (next : Nat) : rescue? entry tasks ({ frame with next } :: callers) = rescue? entry tasks (frame :: callers) := rfl

theorem Loop.rescue?_eq_some {entry : Entry} {tasks : List Task} {frames : List CallFrame} {t : Rescue}
    (h : rescue? entry tasks frames = some t) :
    t.entry = entry ∧ t.tasks = tasks ∧ ∃ g ∈ frames, g.unit = t.frame.unit ∧ t.frame.next = t.handler.catchAt ∧
      ∃ outer, g.handlers = t.handler :: outer := by
  induction frames with
  | nil => cases h
  | cons frame callers ih =>
    cases hh : frame.handlers with
    | nil =>
      simp only [rescue?, hh] at h
      obtain ⟨hentry, htasks, g, hg, hrest⟩ := ih h
      exact ⟨hentry, htasks, g, .tail _ hg, hrest⟩
    | cons handler handlers =>
      simp only [rescue?, hh] at h
      obtain rfl := Option.some.inj h
      exact ⟨rfl, rfl, frame, .head _, rfl, rfl, handlers, hh⟩

theorem Task.rescue?_eq_some {tasks : List Task} {t : Rescue} (h : rescue? tasks = some t) :
    ∃ g, .frame g ∈ Machine.layers tasks ∧ g.unit = t.frame.unit ∧ t.frame.next = t.handler.catchAt ∧
      ∃ outer, g.handlers = t.handler :: outer := by
  induction tasks with
  | nil => cases h
  | cons task tasks ih =>
    have hlater (h : rescue? tasks = some t) : ∃ g, .frame g ∈ Machine.layers (task :: tasks) ∧
        g.unit = t.frame.unit ∧ t.frame.next = t.handler.catchAt ∧ ∃ outer, g.handlers = t.handler :: outer := by
      obtain ⟨g, hg, hrest⟩ := ih h
      exact ⟨g, List.mem_append_right _ hg, hrest⟩
    cases task with
    | guard scope => exact hlater h
    | native base => exact hlater h
    | loop entry frames =>
      simp only [rescue?] at h
      cases hl : Loop.rescue? entry tasks frames with
      | none =>
        rw [hl] at h
        exact hlater h
      | some t' =>
        rw [hl] at h
        obtain rfl := Option.some.inj h
        obtain ⟨-, -, g, hg, hrest⟩ := Loop.rescue?_eq_some hl
        refine ⟨g, List.mem_append_left _ ?_, hrest⟩
        exact List.mem_append_left _ (List.mem_map_of_mem hg)

namespace Engine

variable {e : Engine} {error : Error} {v : Value} {n : Nat}

theorem unwind_retains (hc : error.carried? = some v) (hs : e.heap.Sound n) (hn : n + 2 < 2 ^ 32) (id : ScopeId) :
    e.heap.Retains v (e.unwind id error).2.heap := by
  cases hf : findFrame id e.frames with
  | some found =>
    obtain ⟨frame, frames⟩ := found
    obtain ⟨w, e', hu, -, hd, -⟩ := unwind_delivers hf hs hn error
    rw [hu]
    exact (hd.carried v hc).1 ▸ (hd.carried v hc).2.2
  | none =>
    simp only [unwind, hf]
    exact .alloc hs.tidy v _

theorem guard_carried {α : Type} {frame : ProtectedFrame} {frames : List ProtectedFrame} (hf : e.frames = frame :: frames)
    (hc : error.carried? = some v) :
    ∃ e', carried (endProtected frame.id (.error error e : EStateM.Result Error Engine α)) =
      .error (error.carrying v) e' ∧ e'.heap = (e.unwind frame.id error).2.heap := by
  have hfound : findFrame frame.id e.frames = some (frame, frames) := by
    rw [hf]
    exact findFrame_top frame frames
  have hv : (e.exceptionValue error).1 = v := by simp only [exceptionValue, hc]
  have hstack := unwind_stack hfound error
  obtain ⟨w, e₁, hu, -, -⟩ := unwind_found hfound error
  rw [hu, hv] at hstack
  obtain ⟨e₂, hcarry, -, -⟩ := carry_top hstack error
  have hheap := carry_heap error e₁
  rw [hcarry] at hheap
  refine ⟨e₂, ?_, ?_⟩
  · simp only [endProtected, hu, carried, hcarry]
  · rw [hu]
    exact hheap

end Engine

namespace Machine

variable {L₀ : Level} {fl : List Nat} {m : Machine} {error : Error} {v : Value} {e : Engine} {entry : Entry}
  {tasks : List Task}

theorem collections_zero (m : Machine) : collections 0 m = 0 := by
  by_cases hend : ∃ e result, m = ⟨e, [], .returning result⟩
  · obtain ⟨e, result, rfl⟩ := hend
    rfl
  · rw [collections]
    exact fun e result hm => hend ⟨e, result, hm⟩

theorem collections_succ (fuel : Nat) (m : Machine) :
    collections (fuel + 1) m = m.engine.heap.collectionsTo m.step.engine.heap + collections fuel m.step := by
  by_cases hend : ∃ e result, m = ⟨e, [], .returning result⟩
  · obtain ⟨e, result, rfl⟩ := hend
    simp [collections, step, Heap.collectionsTo]
  · rw [collections]
    exact fun e result hm => hend ⟨e, result, hm⟩

theorem collections_add (j k : Nat) (m : Machine) :
    collections (j + k) m = collections k m + collections j (step^[k] m) := by
  induction k generalizing m with
  | zero => simp [collections_zero]
  | succ k ih =>
    rw [← Nat.add_assoc, collections_succ, ih, collections_succ k, Function.iterate_succ_apply, Nat.add_assoc]

theorem eq_of_result? {r : EStateM.Result Error Engine Value} (h : m.result? = some r) :
    ∃ e result, m = ⟨e, [], .returning result⟩ := by
  obtain ⟨e, tasks, control⟩ := m
  cases control with
  | running entry frames => cases h
  | calling receiver callee args => cases h
  | returning result =>
    cases tasks with
    | nil => exact ⟨e, result, rfl⟩
    | cons task tasks => cases h

theorem of_result? {k : Nat} {r : EStateM.Result Error Engine Value} (h : (step^[k] m).result? = some r) (more : Nat) :
    (step^[more + k] m).result? = some r ∧ collections (more + k) m = collections k m := by
  rw [Function.iterate_add_apply, collections_add]
  generalize step^[k] m = ended at h ⊢
  obtain ⟨e, result, rfl⟩ := eq_of_result? h
  have hfixed : step ⟨e, [], .returning result⟩ = ⟨e, [], .returning result⟩ := rfl
  rw [Function.iterate_fixed hfixed, collections, Nat.add_zero]
  exact ⟨h, rfl⟩

theorem collections_le_of_result? {k : Nat} {r : EStateM.Result Error Engine Value} (h : (step^[k] m).result? = some r)
    (j : Nat) : collections j m ≤ collections k m := by
  rcases Nat.le_total j k with hle | hle
  · obtain ⟨more, rfl⟩ := Nat.exists_eq_add_of_le' hle
    rw [collections_add]
    exact Nat.le_add_right _ _
  · obtain ⟨more, rfl⟩ := Nat.exists_eq_add_of_le' hle
    exact Nat.le_of_eq (of_result? h more).2

theorem result?_unique {j k : Nat} {r r' : EStateM.Result Error Engine Value} (h : (step^[j] m).result? = some r)
    (h' : (step^[k] m).result? = some r') : r = r' := by
  rcases Nat.le_total j k with hle | hle
  · obtain ⟨more, rfl⟩ := Nat.exists_eq_add_of_le' hle
    exact Option.some.inj ((of_result? h more).1.symm.trans h')
  · obtain ⟨more, rfl⟩ := Nat.exists_eq_add_of_le' hle
    exact (Option.some.inj ((of_result? h' more).1.symm.trans h)).symm

theorem Orderly.sound (h : m.Orderly L₀) {n : Nat} (hs : m.engine.heap.Sound n) (k : Nat)
    (hn : n + collections k m + 1 < 2 ^ 32) : (Machine.step^[k] m).engine.heap.Sound (n + collections k m) := by
  induction k generalizing m n with
  | zero =>
    rw [collections_zero]
    exact hs
  | succ k ih =>
    rw [collections_succ] at hn ⊢
    rw [Function.iterate_succ_apply, ← Nat.add_assoc]
    exact ih h.step (hs.evolves h.ages.heap (by omega)) (by omega)

def Lands (v : Value) (error : Error) (m : Machine) : Option Rescue → Prop
  | some t => m = t.resumed m.engine ∧ m.engine.stack.back? = some v
  | none => ∃ error', m = ⟨m.engine, [], .returning (.error error')⟩ ∧ error'.carried? = some v ∧ error.Recasts error'

def Flies (v : Value) (error : Error) (found : Option Rescue) (m : Machine) : Prop :=
  ∃ j, Lands v error (step^[j] m) found ∧ ∀ n, m.engine.heap.Sound n → n + collections j m + 2 < 2 ^ 32 →
    m.engine.heap.Retains v (step^[j] m).engine.heap

theorem Lands.recast {error' : Error} {found : Option Rescue} (h : Lands v error' m found) (hr : error.Recasts error') :
    Lands v error m found := by
  cases found with
  | some t => exact h
  | none =>
    obtain ⟨error'', hm, hc, hr'⟩ := h
    exact ⟨error'', hm, hc, hr.trans hr'⟩

theorem Flies.recast {error' : Error} {found : Option Rescue} (h : Flies v error' found m) (hr : error.Recasts error') :
    Flies v error found m := by
  obtain ⟨j, hl, hv⟩ := h
  exact ⟨j, hl.recast hr, hv⟩

theorem Flies.since {found : Option Rescue} (ho : m.Orderly L₀) (h : Flies v error found m.step)
    (hv : ∀ n, m.engine.heap.Sound n → n + 2 < 2 ^ 32 → m.engine.heap.Retains v m.step.engine.heap) :
    Flies v error found m := by
  obtain ⟨j, hl, hr⟩ := h
  refine ⟨j + 1, hl, fun n hs hn => ?_⟩
  rw [collections_succ] at hn
  rw [Function.iterate_succ_apply]
  exact (hv n hs (by omega)).trans (hr _ (hs.evolves ho.ages.heap (by omega)) (by omega))

theorem Orderly.struck {s : Loop} (h : m.Orderly L₀) (hs : m.Strikes entry tasks error s) (hc : error.carried? = some v) :
    match Loop.rescue? entry tasks s.frames with
    | some t => ∃ e, m.step = t.resumed e ∧ e.stack.back? = some v ∧ e = (s.engine.unwind t.handler.scope error).2
    | none => ∃ e, m.step = ⟨e, tasks, .returning (.error error)⟩ ∧ e.heap = s.engine.heap := by
  obtain ⟨fl, hfits⟩ := h.fits
  have hcaught := hfits.caught h.compiled hs
  rw [hs.step, raise]
  rw [Loop.catch?_eq error s.engine entry tasks s.frames] at hcaught ⊢
  cases hf : Loop.rescue? entry tasks s.frames with
  | some t =>
    obtain ⟨rfl, rfl, -⟩ := Loop.rescue?_eq_some hf
    rw [hf] at hcaught
    refine ⟨_, rfl, ?_, rfl⟩
    cases hcaught with
    | intro hT hrest hsits hx hu =>
      obtain ⟨low, -, hstack⟩ := hx.stack
      have hv : (s.engine.exceptionValue error).1 = v := by simp only [exceptionValue, hc]
      rw [← Array.getLast?_toList]
      have hlist : (s.engine.unwind t.handler.scope error).2.stack.toList = low ++ [v] := by
        rw [← hv]
        exact hstack
      rw [hlist, List.getLast?_concat]
  | none =>
    simp only [Option.map_none, failLoop, hc]
    exact ⟨_, rfl, rfl⟩

theorem Orderly.struck_flies {s : Loop} (h : m.Orderly L₀) (hs : m.Strikes entry tasks error s)
    (hc : error.carried? = some v) (hheap : s.engine.heap = m.engine.heap)
    (hrest : ∀ e, m.step = ⟨e, tasks, .returning (.error error)⟩ → m.step.Flies v error (Task.rescue? tasks)) :
    m.Flies v error ((Loop.rescue? entry tasks s.frames).or (Task.rescue? tasks)) := by
  have hstruck := h.struck hs hc
  cases hf : Loop.rescue? entry tasks s.frames with
  | some t =>
    rw [hf] at hstruck
    obtain ⟨e, hstep, htop, he⟩ := hstruck
    refine Flies.since h ⟨0, ?_, fun n _ _ => .refl _ _⟩ fun n hsound hn => ?_
    · rw [hstep]
      exact ⟨rfl, htop⟩
    · rw [← hheap] at hsound ⊢
      rw [hstep, Rescue.resumed, he]
      exact unwind_retains hc hsound hn _
  | none =>
    rw [hf] at hstruck
    obtain ⟨e, hstep, hkept⟩ := hstruck
    refine Flies.since h (hrest e hstep) fun n _ _ => ?_
    have hsame : m.step.engine.heap = m.engine.heap := by
      rw [hstep]
      exact hkept.trans hheap
    rw [hsame]
    exact .refl _ _

theorem Orderly.guard_step {e : Engine} {scope : ScopeId} (h : Orderly L₀ ⟨e, .guard scope :: tasks, .returning (.error error)⟩)
    (hc : error.carried? = some v) :
    ∃ e', Machine.step ⟨e, .guard scope :: tasks, .returning (.error error)⟩ =
        ⟨e', tasks, .returning (.error (error.carrying v))⟩ ∧
      e'.heap = (e.unwind scope error).2.heap := by
  obtain ⟨fl, -, L, extra, hst, he, -⟩ := h.fits
  generalize hM : L = M at hst
  cases hst with
  | @guard _ _ L f hst hm =>
    have hf : e.frames = f :: L.frames := by
      have hframes := congrArg Level.frames he
      rw [hM] at hframes
      exact hframes
    obtain ⟨e', hg, hheap⟩ := guard_carried (α := Value) hf hc
    refine ⟨e', ?_, hheap⟩
    simp only [Machine.step, resume, resultIn, hg]

theorem Orderly.flies {e : Engine} (h : Orderly L₀ ⟨e, tasks, .returning (.error error)⟩) (hc : error.carried? = some v) :
    Flies v error (Task.rescue? tasks) ⟨e, tasks, .returning (.error error)⟩ := by
  induction tasks generalizing e error with
  | nil => exact ⟨0, ⟨error, rfl, hc, .refl error⟩, fun n _ _ => .refl _ _⟩
  | cons task tasks ih =>
    have hnext := h.step
    cases task with
    | guard scope =>
      obtain ⟨e', hstep, hheap⟩ := h.guard_step hc
      rw [hstep] at hnext
      have hfly := (ih hnext (Error.carried?_carrying v error)).recast (.carrying error v)
      refine Flies.since h (by rw [hstep]; exact hfly) fun n hs hn => ?_
      have hkept := unwind_retains hc hs hn scope
      rw [← hheap] at hkept
      rw [hstep]
      exact hkept
    | native base => exact Flies.since h (ih hnext hc) fun n _ _ => .refl _ _
    | loop entry frames =>
      refine h.struck_flies .handed hc rfl fun e' hstep => ?_
      rw [hstep] at hnext ⊢
      exact ih hnext hc

structure Throws (m : Machine) (entry : Entry) (g : CallFrame) (callers : List CallFrame) (v : Value) : Prop where
  control : m.control = .running entry (g :: callers)
  instr : g.unit.code[g.next]? = some .throw
  top : m.engine.stack.back? = some v

end Machine

theorem Environment.define_new {h : Heap} (ht : h.Tidy) (outer : Option Handle) (name : String) (v : Value) :
    ∃ h', define (alloc h none outer).2 (alloc h none outer).1 name v = .ok h' ∧
      get h' (alloc h none outer).1 name = .ok v ∧ ∀ w, h.Retains w h' := by
  have hfree := Option.map_eq_none_iff.mp (Heap.cell?_alloc_before ht (.object (.of .plain)))
  have hnames := Heap.slot?_alloc_new ht (.object (.of .plain))
  have hlive {a : Handle} {s : Slot} (hs : h.slot? a = some s) := Heap.slot?_alloc_of_live ht (.object (.of .plain)) hs
  have ht₁ := ht.alloc (.object (.of .plain))
  simp only [alloc, Heap.allocObject]
  generalize h.alloc (.object (.of .plain)) = made at *
  obtain ⟨names, h₁⟩ := made
  have hnames₂ := Heap.slot?_alloc_of_live ht₁ (.environment ⟨names, outer⟩) hnames
  have hscope := Heap.slot?_alloc_new ht₁ (.environment ⟨names, outer⟩)
  have hlive₂ {a : Handle} {s : Slot} (hs : h.slot? a = some s) :=
    Heap.slot?_alloc_of_live ht₁ (.environment ⟨names, outer⟩) (hlive hs)
  simp only at hnames₂ hscope hlive₂ ⊢
  generalize h₁.alloc (.environment ⟨names, outer⟩) = opened at *
  obtain ⟨env, h₂⟩ := opened
  simp only at hnames₂ hscope hlive₂ ⊢
  have hne : names ≠ env := by
    rintro rfl
    cases congrArg Slot.cell (Option.some.inj (hnames₂.symm.trans hscope))
  have hlt := Heap.index_lt_of_slot? hnames₂
  refine ⟨h₂.setSlot names ⟨h.epoch, h.born, .object ⟨.plain, none, [(name, v)]⟩⟩, ?_, ?_, ?_⟩
  · simp only [define, bindings, Heap.environment?, Heap.cell?, hscope, Option.map_some, Heap.insertProperty?, hnames₂,
      bind, Except.bind, pure, Except.pure]
    rfl
  · simp only [get, lookup, Heap.chainLimit, lookupWithin, Heap.environment?, Heap.object?, Heap.cell?,
      Heap.slot?_setSlot, hne, hscope, hlt, and_true, false_and, if_false, if_true, Option.map_some, Option.bind_some,
      PropertyMap.get?]
  · intro w a s ha hs
    have hother : names ≠ a := by
      rintro rfl
      rw [hfree] at hs
      cases hs
    refine ⟨s, ?_, rfl⟩
    rw [Heap.slot?_setSlot, if_neg fun h => hother h.1]
    exact hlive₂ hs

namespace Loop

variable {e : Engine} {g : CallFrame} {callers : List CallFrame} {v : Value} {name : String}

theorem step_of_instr {instr : Instr} {Q : Signal → Loop → Prop} {R : Error → Loop → Prop}
    (hi : g.unit.code[g.next]? = some instr)
    (hx : ∀ trace, Ensures (execute { g with next := g.next + 1 } callers instr) Q R
      ⟨{ e with trace }, { g with next := g.next + 1 } :: callers⟩) : Ensures step Q R ⟨e, g :: callers⟩ := by
  refine .get ?_
  dsimp only
  rw [hi]
  dsimp only
  split
  · exact .bind (.modified (.bind (.modified (hx _))))
  · exact .bind (.modified (hx e.trace))

theorem step_throw (hi : g.unit.code[g.next]? = some .throw) (hv : e.stack.back? = some v) :
    ∃ e', step ⟨e, g :: callers⟩ = .error (.thrown v (e.display v)) ⟨e', { g with next := g.next + 1 } :: callers⟩ ∧
      e'.heap = e.heap := by
  have hx : Ensures step (fun _ _ => False) (fun error s => error = .thrown v (e.display v) ∧
      s.frames = { g with next := g.next + 1 } :: callers ∧ s.engine.heap = e.heap) ⟨e, g :: callers⟩ := by
    refine step_of_instr hi fun trace => ?_
    have hthrow : Ensures (simple { g with next := g.next + 1 } .throw) (fun _ _ => False)
        (fun error e' => error = .thrown v (e.display v) ∧ e'.heap = e.heap) { e with trace } := by
      refine .bind (.modifyGet (.get (.throw ⟨?_, rfl⟩)))
      simp only [pop, hv, Option.getD_some, display]
    exact .bind (.within (hthrow.mono (fun _ _ h => h.elim) fun _ _ h => ⟨h.1, rfl, h.2⟩))
  cases hs : step ⟨e, g :: callers⟩ with
  | ok signal s => exact (hx.ok hs).elim
  | error error s =>
    obtain ⟨rfl, hf, hh⟩ := hx.error hs
    obtain ⟨e', frames⟩ := s
    obtain rfl : frames = _ := hf
    exact ⟨e', rfl, hh⟩

theorem enterCatch_binds {low : List Value} {h : Heap} (ht : h.Tidy) :
    Ensures (simple g (.enterCatch name)) (fun _ e' => Environment.get e'.heap e'.env name = .ok v ∧ h.Retains v e'.heap)
      (fun _ _ => False) (e.reset (low ++ [v]) h) := by
  obtain ⟨h', hdefine, hget, hkept⟩ := Environment.define_new ht (some e.env) name v
  refine .bind (.popped (.get ?_))
  refine .bind (.bind (.change (fun h'' hd => .modified ?_) fun f hf => ?_))
  · obtain rfl := Except.ok.inj (hdefine.symm.trans hd)
    exact ⟨hget, hkept v⟩
  · cases hdefine.symm.trans hf

theorem step_enterCatch (hi : g.unit.code[g.next]? = some (.enterCatch name)) (hv : e.stack.back? = some v)
    (ht : e.heap.Tidy) :
    ∃ e', step ⟨e, g :: callers⟩ = .ok .proceed ⟨e', { g with next := g.next + 1 } :: callers⟩ ∧
      Environment.get e'.heap e'.env name = .ok v ∧ e.heap.Retains v e'.heap := by
  obtain ⟨low, hlow⟩ := Array.back?_eq_some_iff.mp hv
  have hx : Ensures step (fun signal s => signal = .proceed ∧ s.frames = { g with next := g.next + 1 } :: callers ∧
      Environment.get s.engine.heap s.engine.env name = .ok v ∧ e.heap.Retains v s.engine.heap) (fun _ _ => False)
      ⟨e, g :: callers⟩ := by
    refine step_of_instr hi fun trace => ?_
    have hstack : (low.toList ++ [v]).toArray = e.stack := by
      rw [hlow]
      exact Array.toList_inj.mp Array.toList_push.symm
    have hreset : { e with trace }.reset (low.toList ++ [v]) e.heap = { e with trace } := by
      rw [reset, hstack]
    have hcatch : Ensures (simple { g with next := g.next + 1 } (.enterCatch name))
        (fun _ e' => Environment.get e'.heap e'.env name = .ok v ∧ e.heap.Retains v e'.heap) (fun _ _ => False)
        { e with trace } := by
      rw [← hreset]
      exact enterCatch_binds ht
    exact .bind (.within (hcatch.mono (fun _ _ h => .pure ⟨rfl, rfl, h⟩) fun _ _ h => h.elim))
  cases hs : step ⟨e, g :: callers⟩ with
  | error error s => exact (hx.error hs).elim
  | ok signal s =>
    obtain ⟨rfl, hf, hrest⟩ := hx.ok hs
    obtain ⟨e', frames⟩ := s
    obtain rfl : frames = _ := hf
    exact ⟨e', rfl, hrest⟩

end Loop

/-- The catch clause of the statement runs next, with the value on top of the stack, and then has the
value under the name that it binds. -/
structure Rescue.Binds (t : Rescue) (v : Value) (m : Machine) : Prop where
  machine : m = t.resumed m.engine
  top : m.engine.stack.back? = some v
  bound : ∃ a name, t.frame.unit.Clause a t.handler.catchAt t.handler.exitAt name ∧
    Environment.get m.step.engine.heap m.step.engine.env name = .ok v ∧
    m.step = { t with frame := { t.frame with next := t.handler.catchAt + 1 } }.resumed m.step.engine

namespace Machine

variable {L₀ : Level} {m : Machine} {entry : Entry} {g : CallFrame} {callers : List CallFrame} {v : Value} {error : Error}

theorem Orderly.throws (h : m.Orderly L₀) (ht : m.Throws entry g callers v) :
    m.Flies v (.thrown v (m.engine.display v)) (Task.rescue? (.loop entry (g :: callers) :: m.tasks)) := by
  obtain ⟨e, tasks, control⟩ := m
  obtain ⟨rfl, hi, hv⟩ := ht
  obtain ⟨e', hstep, hheap⟩ := Loop.step_throw hi hv
  rw [Task.rescue?, ← Loop.rescue?_next entry tasks g callers (g.next + 1)]
  refine h.struck_flies (.raised hstep) rfl hheap fun e'' hs => ?_
  have hnext := h.step
  rw [hs] at hnext ⊢
  exact hnext.flies rfl

theorem Orderly.clause (h : m.Orderly L₀) (h₀ : m.Recorded fun _ => False) (k : Nat) {handler : Handler}
    {outer : List Handler} (hg : .frame g ∈ (Machine.step^[k] m).allLayers) (hh : g.handlers = handler :: outer) :
    ∃ a name, g.unit.Clause a handler.catchAt handler.exitAt name := by
  rw [← map_tower (Machine.step^[k] m).allLayers (Machine.step^[k] m).engine.level] at hg
  obtain ⟨⟨l, N⟩, hmem, rfl⟩ := List.mem_map.mp hg
  obtain ⟨up, rest, hT⟩ := List.append_of_mem hmem
  obtain ⟨tried, g₀, -, hr⟩ := h.recorded_run h₀ k g N rest ⟨up, hT.symm⟩ [] handler outer hh
  obtain ⟨next, hg₀⟩ := hr.frame
  obtain ⟨σ, floor, s, L, hs⟩ := (h.run k).sits g N hmem
  have hunit : g₀.unit = g.unit := by rw [hg₀]
  obtain ⟨name, hclause⟩ := CodeUnit.Compiled.clause (hunit ▸ hs.compiled) hr.instr
  exact ⟨g₀.next, name, hunit ▸ hclause⟩

theorem Lands.binds {t : Rescue} {a : Nat} {name : String} (h : Lands v error m (some t)) (ht : m.engine.heap.Tidy)
    (hn : t.frame.next = t.handler.catchAt) (hc : t.frame.unit.Clause a t.handler.catchAt t.handler.exitAt name) :
    t.Binds v m ∧ m.engine.heap.Retains v m.step.engine.heap := by
  obtain ⟨hm, htop⟩ := h
  obtain ⟨e, tasks, control⟩ := m
  obtain ⟨rfl, rfl⟩ : tasks = t.tasks ∧ control = .running t.entry (t.frame :: t.callers) := by
    simpa [Rescue.resumed] using hm
  cases hc with
  | intro hstmt hpart hat htry hcatch =>
    rw [← hn] at hcatch
    have hentered : ∃ e', Loop.step ⟨e, t.frame :: t.callers⟩ =
          .ok .proceed ⟨e', { t.frame with next := t.frame.next + 1 } :: t.callers⟩ ∧
        Environment.get e'.heap e'.env name = .ok v ∧ e.heap.Retains v e'.heap :=
      Loop.step_enterCatch hcatch htop ht
    obtain ⟨e', hstep, hget, hkept⟩ := hentered
    have hs : step ⟨e, t.tasks, .running t.entry (t.frame :: t.callers)⟩ =
        ⟨e', t.tasks, .running t.entry ({ t.frame with next := t.frame.next + 1 } :: t.callers)⟩ := by
      simp only [step, hstep]
    rw [hn] at hcatch hs
    refine ⟨⟨rfl, htop, a, name, .intro hstmt hpart hat htry hcatch, ?_, ?_⟩, ?_⟩
    · rw [hs]
      exact hget
    · rw [hs]
      rfl
    · rw [hs]
      exact hkept

theorem Orderly.tidy (h : m.Orderly L₀) (ht : m.engine.heap.Tidy) (k : Nat) : (Machine.step^[k] m).engine.heap.Tidy := by
  induction k generalizing m with
  | zero => exact ht
  | succ k ih => exact ih h.step (ht.evolves h.ages.heap)

section Throwing

variable {i : Nat}

theorem Orderly.caught {t : Rescue} (h : m.Orderly L₀) (h₀ : m.Recorded fun _ => False) (ht : m.engine.heap.Tidy)
    (hthrows : (Machine.step^[i] m).Throws entry g callers v)
    (hf : Task.rescue? (.loop entry (g :: callers) :: (Machine.step^[i] m).tasks) = some t) :
    ∃ j, t.Binds v (Machine.step^[j + i] m) ∧
      ∀ n, m.engine.heap.Sound n → n + collections (j + i + 1) m + 2 < 2 ^ 32 →
        (Machine.step^[i] m).engine.heap.Retains v (Machine.step^[j + i + 1] m).engine.heap := by
  obtain ⟨j, hlands, hkept⟩ := (h.run i).throws hthrows
  rw [hf] at hlands
  simp only [← Function.iterate_add_apply] at hlands hkept
  obtain ⟨g', hmem, hunit, hnext, outer, hhandlers⟩ := Task.rescue?_eq_some hf
  have hopen : .frame g' ∈ (Machine.step^[i] m).allLayers := by
    rw [allLayers, hthrows.control]
    exact hmem
  obtain ⟨a, name, hclause⟩ := h.clause h₀ i hopen hhandlers
  rw [hunit] at hclause
  obtain ⟨hbinds, hlast⟩ := hlands.binds (h.tidy ht (j + i)) hnext hclause
  refine ⟨j, hbinds, fun n hs hn => ?_⟩
  rw [Nat.add_comm (j + i), collections_add, collections_add j i] at hn
  rw [Function.iterate_succ_apply']
  exact (hkept _ (h.sound hs i (by omega)) (by omega)).trans hlast

theorem Orderly.uncaught (h : m.Orderly L₀) (hthrows : (Machine.step^[i] m).Throws entry g callers v)
    (hf : Task.rescue? (.loop entry (g :: callers) :: (Machine.step^[i] m).tasks) = none) :
    ∃ j error e, Machine.step^[j + i] m = ⟨e, [], .returning (.error error)⟩ ∧ error.carried? = some v ∧
      Error.Recasts (.thrown v ((Machine.step^[i] m).engine.display v)) error ∧
      ∀ n, m.engine.heap.Sound n → n + collections (j + i) m + 2 < 2 ^ 32 →
        (Machine.step^[i] m).engine.heap.Retains v e.heap := by
  obtain ⟨j, hlands, hkept⟩ := (h.run i).throws hthrows
  rw [hf] at hlands
  simp only [← Function.iterate_add_apply] at hlands hkept
  obtain ⟨error, hm, hc, hcause⟩ := hlands
  refine ⟨j, error, _, hm, hc, hcause, fun n hs hn => ?_⟩
  rw [collections_add] at hn
  exact hkept _ (h.sound hs i (by omega)) (by omega)

end Throwing

end Machine

end ScriptEngine
