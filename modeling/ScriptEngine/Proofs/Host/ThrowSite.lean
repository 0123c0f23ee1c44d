import ScriptEngine.Proofs.Host.Evolution
import ScriptEngine.Proofs.Host.Limits
import ScriptEngine.Proofs.Machine.Flight

namespace ScriptEngine

open Engine

theorem Heap.Retains.root {h : Heap} {v : Value} {roots : List Handle} (hv : ∀ a, v = .object a → a ∈ roots)
    (since : Nat) : h.Retains v (h.collectSince since roots).2 := by
  intro a s ha hs
  have hmarked := marked_pending (nextEpoch h.epoch) h.slots roots a (hv a ha)
  have hcontent := content_mark (nextEpoch h.epoch) h.slots roots a.index
  have hslot : h.slots[a.index]?.join = some s := hs
  rw [slot?_collectSince]
  cases hm : (mark (nextEpoch h.epoch) h.slots roots)[a.index]?.join with
  | none =>
    have hnone := congrArg Option.join hcontent
    rw [Option.join_map_eq_map_join, Option.join_map_eq_map_join, hm, hslot] at hnone
    cases hnone
  | some t =>
    have hmark : t.mark = nextEpoch h.epoch := hmarked t hm
    refine ⟨t, by simp [Option.filter, isGarbage, hmark], ?_⟩
    have hsame := congrArg Option.join hcontent
    rw [Option.join_map_eq_map_join, Option.join_map_eq_map_join, hm, hslot] at hsame
    exact Option.some.inj hsame

namespace Engine

variable {e : Engine} {error : Error} {v : Value} {id : ScopeId} {frame : ProtectedFrame} {frames : List ProtectedFrame}

def errorObject (e : Engine) (name : ErrorName) (message : String) : Object :=
  ⟨.error, none, [("name", .string name.text), ("message", .string message), ("stack", .string e.stackTrace)]⟩

theorem stackTrace_eq {above : List TraceEntry} (h : e.trace.toList = .bottom :: above) :
    e.stackTrace = String.join ((above.reverse ++ [TraceEntry.bottom]).map ("\n\tat " ++ ·.render)) := by
  rw [stackTrace, h, List.reverse_cons]

theorem exceptionValue_made (ht : e.heap.Tidy) (hc : error.carried? = none) :
    ∃ a name message, error.description? = some (name, message) ∧ (e.exceptionValue error).1 = .object a ∧
      e.heap.slot? a = none ∧ (e.exceptionValue error).2.heap.object? a = some (e.errorObject name message) := by
  obtain ⟨name, message, hd⟩ := Error.exists_description hc
  simp only [exceptionValue, hc, hd]
  refine ⟨_, name, message, rfl, rfl, ?_, Heap.object?_of_slot? (Heap.slot?_alloc_new ht _) rfl⟩
  exact Option.map_eq_none_iff.mp (Heap.cell?_alloc_before ht _)

theorem exceptionValue_congr (e' : Engine) (error : Error) (hheap : e'.heap = e.heap) (htrace : e'.trace = e.trace) :
    (e'.exceptionValue error).1 = (e.exceptionValue error).1 ∧
      (e'.exceptionValue error).2.heap = (e.exceptionValue error).2.heap := by
  simp only [exceptionValue]
  cases error.carried? with
  | some v => exact ⟨rfl, hheap⟩
  | none =>
    cases error.description? with
    | none => exact ⟨rfl, hheap⟩
    | some parts => simp only [newError, newObject, alloc, stackTrace, hheap, htrace, and_self]

theorem unwind_keeps (hf : findFrame id e.frames = some (frame, frames)) (error : Error) :
    ∃ e', e.unwind id error = (error, e') ∧ e'.stack.back? = some (e.exceptionValue error).1 ∧
      (e.exceptionValue error).2.heap.Retains (e.exceptionValue error).1 e'.heap := by
  obtain ⟨v, h, -, hv⟩ := exceptionValue_spec error { e with frames }
  obtain ⟨hvalue, hheap⟩ := exceptionValue_congr (e := e) { e with frames } error rfl rfl
  rw [hv] at hvalue hheap
  rw [← hvalue, ← hheap]
  refine ⟨({ e with frames, heap := h }.restore frame v).collectSince frame.heapMark, ?_, ?_, ?_⟩
  · simp only [unwind, hf, hv]
  · simp [collectSince, restore]
  · apply Heap.Retains.root
    rintro a rfl
    refine List.mem_append_right _ (List.mem_filterMap.mpr ⟨.object a, ?_, rfl⟩)
    simp [restore]

theorem unwind_retains_carried (hc : error.carried? = some v) (ht : e.heap.Tidy) (id : ScopeId) :
    e.heap.Retains v (e.unwind id error).2.heap := by
  cases hf : findFrame id e.frames with
  | some found =>
    obtain ⟨e', hu, -, hkept⟩ := unwind_keeps hf error
    simp only [exceptionValue, hc] at hkept
    rw [hu]
    exact hkept
  | none =>
    simp only [unwind, hf]
    exact .alloc ht v _

end Engine

namespace Loop

variable {L₀ L M : Level} {ls : List Layer} {fl : List Nat} {e : Engine} {entry : Entry} {tasks : List Task}
  {t : Rescue}

theorem finds_cons {frame : CallFrame} {callers : List CallFrame} {σ : Nat → Shape} {floor : Nat} {shape : Shape}
    (hs : frame.Sits σ floor shape L M) (hb : M.Beneath e.level)
    (ih : L.Beneath e.level → rescue? entry tasks callers = some t → (findFrame t.handler.scope e.frames).isSome = true)
    (ht : rescue? entry tasks (frame :: callers) = some t) : (findFrame t.handler.scope e.frames).isSome = true := by
  cases hh : frame.handlers with
  | nil =>
    simp only [rescue?, hh] at ht
    exact ih ((hs.beneath hh).trans hb) ht
  | cons handler handlers =>
    simp only [rescue?, hh] at ht
    obtain rfl := Option.some.inj ht
    -- A scope that is not open would turn every error into another one.
    obtain ⟨-, e', hu, -⟩ := hs.caught hb hh (.fault .stackOverflow)
    cases hf : findFrame handler.scope e.frames with
    | some found => rfl
    | none =>
      simp only [unwind, hf] at hu
      cases congrArg Prod.fst hu

theorem finds_outside {frames : List CallFrame} (hst : Stacked L₀ (frames.map .frame ++ ls) fl L)
    (hb : L.Beneath e.level) (ht : rescue? entry tasks frames = some t) :
    (findFrame t.handler.scope e.frames).isSome = true := by
  induction frames generalizing fl L with
  | nil => cases ht
  | cons frame callers ih =>
    cases hst with
    | frame hst hs _ => exact finds_cons hs hb (fun hb' ht' => ih hst hb' ht') ht

theorem Struck.finds {s : Loop} (h : Struck L₀ ls fl s) (ht : rescue? entry tasks s.frames = some t) :
    (findFrame t.handler.scope s.engine.frames).isSome = true := by
  cases h with
  | inside hst hs => exact finds_cons hs (.refl _) (fun hb ht' => finds_outside hst hb ht') ht
  | outside hst hb => exact finds_outside hst hb ht

theorem Struck.trace {s : Loop} (h : Struck L₀ ls fl s) : L₀.trace <+: s.engine.trace.toList := by
  cases h with
  | @inside e frame callers fl L σ floor shape hst hs =>
    obtain ⟨t, ht⟩ := hs.trace
    show L₀.trace <+: e.level.trace
    rw [ht]
    exact hst.grows.2.trans (List.prefix_append _ _)
  | outside hst hb => exact hst.grows.2.trans hb.trace

end Loop

namespace Machine

variable {L₀ : Level} {fl : List Nat} {m : Machine} {entry : Entry} {tasks : List Task} {error : Error} {s : Loop}
  {v : Value} {i : Nat}

theorem Fits.struck (hh : m.engine.heap.OnlyCompiled) (h : Fits L₀ fl m) (hs : m.Strikes entry tasks error s) :
    m.engine.Ages 1 s.engine ∧ ∃ fl', Loop.Struck L₀ (.entry entry :: layers tasks) fl' s := by
  cases hs with
  | raised hstep =>
    obtain ⟨-, ha, fl', -, hstruck⟩ := (Loop.step_ensures hh h).error hstep
    exact ⟨ha, fl', hstruck⟩
  | @handed e tasks entry frames error =>
    obtain ⟨-, L, extra, hst, he, hx⟩ := h
    obtain rfl : extra = [] := hx.resolve_right (by rintro ⟨_, _, h⟩; cases h)
    rw [List.append_nil] at he
    have hst' : Stacked L₀ (frames.map .frame ++ .entry entry :: layers tasks) fl L := by
      simpa [layers, Task.layers] using hst
    exact ⟨.refl, fl, .outside hst' (he ▸ .refl _)⟩
  | @unanswered e e' tasks entry frames error v hp =>
    have hst : Stacked L₀ (layers (.loop entry frames :: tasks)) fl e.level := h
    have hst' : Stacked L₀ (frames.map .frame ++ .entry entry :: layers tasks) fl e.level := by
      simpa [layers, Task.layers] using hst
    obtain ⟨-, ha, fl', -, hstruck⟩ := (Loop.push_awaited v .refl hst' rfl List.suffix_rfl).error hp
    exact ⟨ha, fl', hstruck⟩

theorem Orderly.delivered {e : Engine} (h : Orderly L₀ ⟨e, tasks, .returning (.error error)⟩) (ht : e.heap.Tidy)
    (hc : error.carried? = some v) :
    ∃ j, Lands v error (Machine.step^[j] ⟨e, tasks, .returning (.error error)⟩) (Task.rescue? tasks) ∧
      e.heap.Retains v (Machine.step^[j] ⟨e, tasks, .returning (.error error)⟩).engine.heap := by
  -- The tasks that wait are left one after the other, the innermost first.
  induction tasks generalizing e error with
  | nil => exact ⟨0, ⟨error, rfl, hc, .refl error⟩, .refl _ _⟩
  | cons task tasks ih =>
    have hnext := h.step
    have htidy := h.tidy ht 1
    rw [Function.iterate_one] at htidy
    cases task with
    | guard scope =>
      obtain ⟨e', hstep, hheap⟩ := h.guard_step hc
      rw [hstep] at hnext htidy
      obtain ⟨j, hlands, hkept⟩ := ih hnext htidy (Error.carried?_carrying v error)
      refine ⟨j + 1, ?_, ?_⟩ <;> rw [Function.iterate_succ_apply, hstep]
      · exact hlands.recast (.carrying error v)
      · exact (hheap ▸ unwind_retains_carried hc ht scope).trans hkept
    | native base =>
      obtain ⟨j, hlands, hkept⟩ := ih hnext htidy hc
      exact ⟨j + 1, hlands, hkept⟩
    | loop entry frames =>
      have hstruck := h.struck .handed hc
      simp only [Task.rescue?]
      cases hf : Loop.rescue? entry tasks frames with
      | some t =>
        rw [hf] at hstruck
        obtain ⟨e', hstep, htop, he⟩ := hstruck
        refine ⟨1, ?_, ?_⟩ <;> rw [Function.iterate_one, hstep]
        · exact ⟨rfl, htop⟩
        · rw [he]
          exact unwind_retains_carried hc ht t.handler.scope
      | none =>
        rw [hf] at hstruck
        obtain ⟨e', hstep, hheap⟩ := hstruck
        rw [hstep] at hnext htidy
        obtain ⟨j, hlands, hkept⟩ := ih hnext htidy hc
        refine ⟨j + 1, ?_, ?_⟩ <;> rw [Function.iterate_succ_apply, hstep]
        · exact hlands
        · rw [← hheap]
          exact hkept

theorem failLoop_made (hc : error.carried? = none) (entry : Entry) (e : Engine) :
    ∃ e', failLoop entry error e = (.rethrown (e.exceptionValue error).1 error, e') ∧
      e'.heap = (e.exceptionValue error).2.heap := by
  obtain ⟨hvalue, hheap⟩ := exceptionValue_congr (e := e) { e with loops := e.loops - 1 } error rfl rfl
  simp only [failLoop, hc, hvalue]
  exact ⟨_, rfl, hheap⟩

theorem Orderly.delivers (h : m.Orderly L₀) (ht : m.engine.heap.Tidy) (hs : m.Strikes entry tasks error s)
    (hc : error.carried? = none) :
    ∃ a name message, error.description? = some (name, message) ∧ s.engine.heap.slot? a = none ∧
      ∃ j, Lands (.object a) error (Machine.step^[j] m) (Task.rescue? (.loop entry s.frames :: tasks)) ∧
        (Machine.step^[j] m).engine.heap.object? a = some (s.engine.errorObject name message) := by
  obtain ⟨fl, hfits⟩ := h.fits
  obtain ⟨hages, fl', hstruck⟩ := hfits.struck h.compiled hs
  obtain ⟨a, name, message, hd, hvalue, hfree, hmade⟩ := exceptionValue_made (ht.evolves hages.heap) hc
  refine ⟨a, name, message, hd, hfree, ?_⟩
  have hnext := h.step
  have htidy := h.tidy ht 1
  rw [Function.iterate_one] at htidy
  have hstep := hs.step
  rw [raise, Loop.catch?_eq error s.engine entry tasks s.frames] at hstep
  simp only [Task.rescue?]
  cases hf : Loop.rescue? entry tasks s.frames with
  | some t =>
    obtain ⟨rfl, rfl, -⟩ := Loop.rescue?_eq_some hf
    obtain ⟨⟨frame, frames⟩, hfound⟩ := Option.isSome_iff_exists.mp (hstruck.finds hf)
    obtain ⟨e', hu, htop, hkept⟩ := unwind_keeps hfound error
    simp only [hf, Option.map_some, hu] at hstep
    rw [hvalue] at htop hkept
    refine ⟨1, ?_, ?_⟩ <;> rw [Function.iterate_one, hstep]
    · exact ⟨rfl, htop⟩
    · exact hkept.object? hmade
  | none =>
    obtain ⟨e', hfail, hheap⟩ := failLoop_made hc entry s.engine
    simp only [hf, Option.map_none, hfail, hvalue] at hstep
    rw [hstep] at hnext htidy
    obtain ⟨j, hlands, hkept⟩ := hnext.delivered htidy rfl
    have hrecast : error.Recasts (.rethrown (.object a) error) := by
      refine ⟨rfl, fun hflat => ?_, fun _ => rfl⟩
      cases error with
      | rethrown => cases hc
      | _ => exact hflat
    refine ⟨j + 1, ?_, ?_⟩ <;> rw [Function.iterate_succ_apply, hstep]
    · exact hlands.recast hrecast
    · exact hkept.object? (hheap ▸ hmade)

def striking? (m : Machine) : Option (Entry × List Task × Error × Loop) :=
  match m.control with
  | .running entry frames =>
    (failureOf? (Loop.step ⟨m.engine, frames⟩)).map fun (error, s) => (entry, m.tasks, error, s)
  | .calling _ _ _ | .returning _ => none

theorem strikes_of_striking? (h : m.striking? = some (entry, tasks, error, s)) : m.Strikes entry tasks error s := by
  obtain ⟨e, waiting, control⟩ := m
  cases control with
  | calling receiver callee args => cases h
  | returning result => cases h
  | running entry' frames =>
    obtain ⟨⟨error', s'⟩, hf, heq⟩ := Option.map_eq_some_iff.mp h
    cases heq
    exact .raised (eq_error_of_failureOf? hf)

theorem Strikes.mem_allLayers (hs : m.Strikes entry tasks error s) {l : Layer} (hl : l ∈ layers tasks) :
    l ∈ m.allLayers := by
  cases hs with
  | raised _ => exact List.mem_append_right _ hl
  | handed => exact List.mem_append_right _ (List.mem_append_right _ hl)
  | unanswered _ => exact List.mem_append_right _ (List.mem_append_right _ hl)

theorem Orderly.enterCatch (h : m.Orderly L₀) (h₀ : m.Recorded fun _ => False)
    (hs : (Machine.step^[i] m).Strikes entry tasks error s) {t : Rescue}
    (hf : Task.rescue? (.loop entry s.frames :: tasks) = some t) :
    ∃ name, t.frame.unit.code[t.frame.next]? = some (.enterCatch name) := by
  simp only [Task.rescue?] at hf
  cases hl : Loop.rescue? entry tasks s.frames with
  | some t' =>
    rw [hl] at hf
    obtain rfl := Option.some.inj hf
    have hcaught := Loop.catch?_eq error s.engine entry tasks s.frames
    rw [hl] at hcaught
    obtain ⟨entry', g, callers, name, hcontrol, hi⟩ := h.atCatch h₀ ⟨entry, tasks, error, s, _, hs, hcaught⟩
    rw [hs.step, raise, hcaught] at hcontrol
    cases hcontrol
    exact ⟨name, hi⟩
  | none =>
    rw [hl] at hf
    obtain ⟨g, hmem, hunit, hnext, outer, hhandlers⟩ := Task.rescue?_eq_some hf
    obtain ⟨a, name, hclause⟩ := h.clause h₀ i (hs.mem_allLayers hmem) hhandlers
    cases hclause with
    | intro _ _ _ _ hcatch => exact ⟨name, by rw [← hunit, hnext]; exact hcatch⟩

theorem Orderly.level_of_failed {e : Engine} (h : Orderly L₀ ⟨e, [], .returning (.error error)⟩) : e.level = L₀ := by
  obtain ⟨fl, -, L, extra, hst, he, hx⟩ := h.fits
  obtain rfl : extra = [] := hx.resolve_right (by rintro ⟨_, _, h⟩; cases h)
  cases hst with
  | host => rw [he, List.append_nil]

end Machine

structure Rescue.Catches (t : Rescue) (v : Value) (m : Machine) : Prop where
  machine : m = t.resumed m.engine
  top : m.engine.stack.back? = some v
  bound : ∃ name, t.frame.unit.code[t.frame.next]? = some (.enterCatch name) ∧
    Environment.get m.step.engine.heap m.step.engine.env name = .ok v

theorem Rescue.catches_of_lands {t : Rescue} {v : Value} {error : Error} {m : Machine} {name : String}
    (h : m.Lands v error (some t)) (ht : m.engine.heap.Tidy)
    (hi : t.frame.unit.code[t.frame.next]? = some (.enterCatch name)) :
    t.Catches v m ∧ m.engine.heap.Retains v m.step.engine.heap := by
  obtain ⟨hm, htop⟩ := h
  obtain ⟨e', hstep, hget, hkept⟩ :
      ∃ e', Loop.step ⟨m.engine, t.frame :: t.callers⟩ =
          .ok .proceed ⟨e', { t.frame with next := t.frame.next + 1 } :: t.callers⟩ ∧
        Environment.get e'.heap e'.env name = .ok v ∧ m.engine.heap.Retains v e'.heap :=
    Loop.step_enterCatch hi htop ht
  have hs : m.step = ⟨e', t.tasks, .running t.entry ({ t.frame with next := t.frame.next + 1 } :: t.callers)⟩ := by
    rw [hm, Rescue.resumed]
    simp only [Machine.step, hstep]
  refine ⟨⟨hm, htop, name, hi, ?_⟩, ?_⟩ <;> rw [hs]
  · exact hget
  · exact hkept

namespace Host

variable {κ χ : Type} {h : Host κ χ} {n i : Nat} {start : Machine} {entry : Entry} {tasks : List Task} {error : Error}
  {s : Loop}

inductive Starts (h : Host κ χ) : Machine → Prop
  | call (receiver callee : Value) (args : List Value) : Starts h ⟨h.engine, [], .calling receiver callee args⟩
  | script {scope : ScopeId} {e : Engine} (l : Loading) : beginProtected h.engine = .ok scope e →
      Starts h (.ofLoaded (l.load e))

theorem Starts.orderly {handler : κ → Program κ χ Unit} (hs : h.Starts start) (hr : Reached handler n h) :
    start.Orderly start.engine.level ∧ start.engine.heap.Tidy ∧ start.engine.trace = #[.bottom] ∧
      start.Recorded fun _ => False := by
  obtain ⟨htidy, hcompiled⟩ := hr.tidy
  have hrest := hr.atRest
  cases hs with
  | call receiver callee args =>
    refine ⟨.calling hcompiled receiver callee args, htidy, hrest.trace, ?_⟩
    exact fun _ _ _ hmem => absurd (List.suffix_nil.mp hmem) (List.cons_ne_nil _ _)
  | @script scope e l hb =>
    have hheap := beginProtected_heap hb
    obtain ⟨ho, hkeeps⟩ := Machine.orderly_of_load (hheap ▸ hcompiled) (l.load_ensures e)
    have hloaded := (AtRest.beginProtected.returned hrest hb).keeps hkeeps
    rw [← hkeeps.2] at ho
    exact ⟨ho, (hheap ▸ htidy).evolves hkeeps.1.heap, hloaded.trace, Machine.recorded_ofLoaded _⟩

/-- In every state that a host can reach, and at every step of what it starts there that raises an error
without a value: one error object is made for the error. Its stack names the entries of the trace at that
step, the innermost first, down to the bottom entry. The catch clause of the innermost open try statement
has this object, in whichever loop it waits, or else every scope of the host that is resumed with the error
that the run ends with. -/
theorem stack_names_throw_site {handler : κ → Program κ χ Unit} (hr : Reached handler n h) (hstart : h.Starts start)
    (hs : (Machine.step^[i] start).Strikes entry tasks error s) (hc : error.carried? = none) :
    ∃ a name message above made, error.description? = some (name, message) ∧
      s.engine.trace.toList = .bottom :: above ∧ s.engine.heap.slot? a = none ∧
      made = { kind := .error, parent := none
               properties := [("name", .string name.text), ("message", .string message),
                 ("stack", .string (String.join ((above.reverse ++ [TraceEntry.bottom]).map ("\n\tat " ++ ·.render))))] } ∧
      (∀ t, Task.rescue? (.loop entry s.frames :: tasks) = some t →
        ∃ j, t.Catches (.object a) (Machine.step^[j + i] start) ∧
          (Machine.step^[j + i] start).engine.heap.object? a = some made ∧
          (Machine.step^[j + i + 1] start).engine.heap.object? a = some made) ∧
      (Task.rescue? (.loop entry s.frames :: tasks) = none →
        ∃ j error' e, Machine.step^[j + i] start = ⟨e, [], .returning (.error error')⟩ ∧
          error'.carried? = some (.object a) ∧ error'.root = error.root ∧ e.heap.object? a = some made ∧
          e.frames = start.engine.frames ∧
          ∀ f ∈ start.engine.frames, ∃ e',
            (Engine.endProtected f.id (.error error' e) : EStateM.Result Error Engine Value) = .error error' e' ∧
            e'.stack.back? = some (.object a) ∧ e'.heap.object? a = some made) := by
  obtain ⟨ho, htidy, htrace, hrecorded⟩ := hstart.orderly hr
  obtain ⟨a, name, message, hd, hfree, j, hlands, hmade⟩ := (ho.run i).delivers (ho.tidy htidy i) hs hc
  obtain ⟨fl, hfits⟩ := (ho.run i).fits
  obtain ⟨-, fl', hstruck⟩ := hfits.struck (ho.run i).compiled hs
  obtain ⟨above, habove⟩ : ∃ above, s.engine.trace.toList = .bottom :: above := by
    obtain ⟨above, habove⟩ := hstruck.trace
    refine ⟨above, habove.symm.trans ?_⟩
    simp [level, htrace]
  have hmade' : s.engine.errorObject name message = { kind := .error, parent := none, properties :=
      [("name", .string name.text), ("message", .string message),
        ("stack", .string (String.join ((above.reverse ++ [TraceEntry.bottom]).map ("\n\tat " ++ ·.render))))] } := by
    rw [errorObject, stackTrace_eq habove]
  simp only [← Function.iterate_add_apply] at hlands hmade
  refine ⟨a, name, message, above, _, hd, habove, hfree, hmade', fun t ht => ?_, fun hnone => ?_⟩
  · rw [ht] at hlands
    obtain ⟨binding, hi⟩ := ho.enterCatch hrecorded hs ht
    obtain ⟨hcatches, hkept⟩ := Rescue.catches_of_lands hlands (ho.tidy htidy (j + i)) hi
    refine ⟨j, hcatches, hmade, ?_⟩
    rw [Function.iterate_succ_apply']
    exact hkept.object? hmade
  · rw [hnone] at hlands
    obtain ⟨error', hend, hcarried, hrecasts⟩ := hlands
    have hlevel := (hend ▸ ho.run (j + i)).level_of_failed
    have hframes : (Machine.step^[j + i] start).engine.frames = start.engine.frames := congrArg Level.frames hlevel
    refine ⟨j, error', _, hend, hcarried, hrecasts.root, hmade, hframes, fun f hf => ?_⟩
    have hopen : (findFrame f.id (Machine.step^[j + i] start).engine.frames).isSome = true := by
      rw [Option.isSome_iff_ne_none, ne_eq, findFrame_eq_none, not_not, hframes]
      exact List.mem_map_of_mem hf
    obtain ⟨⟨frame, frames⟩, hfound⟩ := Option.isSome_iff_exists.mp hopen
    obtain ⟨e', hu, htop, hkept⟩ := unwind_keeps hfound error'
    simp only [exceptionValue, hcarried] at htop hkept
    exact ⟨e', by simp only [Engine.endProtected, hu], htop, hkept.object? hmade⟩

def straying : Loading :=
  .text "deep" ("function f() \x7b return missing; \x7d\ntry \x7b\n  eval('f();');\n\x7d catch (e) \x7b \x7d\nf();") .program

theorem stack_names_throw_site_of_straying :
    ∃ e start entry tasks error s t entry' tasks' error' s' a a' j j' e',
      create? .none {} = some e ∧ (ofEngine e : Host Unit Unit).Starts start ∧
      (Machine.step^[12] start).Strikes entry tasks error s ∧
      Task.rescue? (.loop entry s.frames :: tasks) = some t ∧ t.Catches (.object a) (Machine.step^[j + 12] start) ∧
      ((Machine.step^[j + 12] start).engine.heap.object? a).bind (·.properties.get? "stack") = some (.string
        "\n\tat f (deep:1)\n\tat script ((eval):1)\n\tat eval (native)\n\tat script (deep:3)\n\tat -top- (native)") ∧
      (Machine.step^[21] start).Strikes entry' tasks' error' s' ∧
      (∃ error'', Machine.step^[j' + 21] start = ⟨e', [], .returning (.error error'')⟩ ∧
        error''.carried? = some (.object a')) ∧
      (e'.heap.object? a').bind (·.properties.get? "stack") = some (.string
        "\n\tat f (deep:1)\n\tat script (deep:5)\n\tat -top- (native)") := by
  have hok : (create? .none {}).any (fun e =>
      (valueOf? (beginProtected e)).any fun begun =>
      (Machine.step^[12] (.ofLoaded (straying.load begun.2))).striking?.any fun (entry, tasks, error, s) =>
      (Machine.step^[21] (.ofLoaded (straying.load begun.2))).striking?.any fun (entry', tasks', error', s') =>
        error.carried?.isNone && (Task.rescue? (.loop entry s.frames :: tasks)).isSome &&
          error'.carried?.isNone && (Task.rescue? (.loop entry' s'.frames :: tasks')).isNone &&
          s.engine.stackTrace = "\n\tat f (deep:1)\n\tat script ((eval):1)\n\tat eval (native)\n\tat script (deep:3)" ++
            "\n\tat -top- (native)" &&
          s'.engine.stackTrace = "\n\tat f (deep:1)\n\tat script (deep:5)\n\tat -top- (native)") = true := by
    decide +kernel
  obtain ⟨e, hc, hrest⟩ := (Option.any_eq_true _ _).mp hok
  obtain ⟨⟨scope, e₁⟩, hb, hrest⟩ := (Option.any_eq_true _ _).mp hrest
  obtain ⟨⟨entry, tasks, error, s⟩, hfirst, hrest⟩ := (Option.any_eq_true _ _).mp hrest
  obtain ⟨⟨entry', tasks', error', s'⟩, hsecond, hrest⟩ := (Option.any_eq_true _ _).mp hrest
  simp only [Bool.and_eq_true, decide_eq_true_eq, Option.isNone_iff_eq_none] at hrest
  obtain ⟨⟨⟨⟨⟨hc₁, hsome⟩, hc₂⟩, hnone⟩, htrace₁⟩, htrace₂⟩ := hrest
  obtain ⟨t, ht⟩ := Option.isSome_iff_exists.mp hsome
  have hr : Reached (κ := Unit) (χ := Unit) .quiet 0 (ofEngine e) := .created hc
  have hstart : (ofEngine e : Host Unit Unit).Starts (.ofLoaded (straying.load e₁)) :=
    .script straying (eq_ok_of_valueOf? hb)
  have hs₁ := Machine.strikes_of_striking? hfirst
  have hs₂ := Machine.strikes_of_striking? hsecond
  obtain ⟨a, name, message, above, made, -, habove, -, rfl, hcaught, -⟩ := stack_names_throw_site hr hstart hs₁ hc₁
  obtain ⟨a', name', message', above', made', -, habove', -, rfl, -, hended⟩ := stack_names_throw_site hr hstart hs₂ hc₂
  obtain ⟨j, hcatches, hobject, -⟩ := hcaught t ht
  obtain ⟨j', error'', e', hend, hcarried, -, hobject', -⟩ := hended hnone
  refine ⟨e, _, entry, tasks, error, s, t, entry', tasks', error', s', a, a', j, j', e', hc, hstart, hs₁, ht, hcatches,
    ?_, hs₂, ⟨error'', hend, hcarried⟩, ?_⟩
  · rw [hobject, ← stackTrace_eq habove, htrace₁]
    rfl
  · rw [hobject', ← stackTrace_eq habove', htrace₂]
    rfl

end Host

end ScriptEngine
