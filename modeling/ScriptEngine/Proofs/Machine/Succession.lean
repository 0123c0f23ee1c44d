import Mathlib.Logic.Function.Iterate
import ScriptEngine.Proofs.Machine.Turn

namespace ScriptEngine

namespace Engine

variable {e : Engine}

theorem exceptionValue_frames (error : Error) (e : Engine) (frames : List ProtectedFrame) :
    ({ e with frames }.exceptionValue error).1 = (e.exceptionValue error).1 := by
  simp only [exceptionValue]
  split
  · rfl
  · split <;> rfl

theorem unwind_stack {id : ScopeId} {frame : ProtectedFrame} {frames : List ProtectedFrame}
    (hf : findFrame id e.frames = some (frame, frames)) (error : Error) :
    (e.unwind id error).2.level.stack = e.level.stack.take frame.stackDepth ++ [(e.exceptionValue error).1] := by
  obtain ⟨v, h, -, hv⟩ := exceptionValue_spec error { e with frames }
  rw [← exceptionValue_frames error e frames, hv]
  simp [unwind, hf, hv, level, restore, collectSince]

end Engine

namespace CallFrame

structure Resumes (floor : Nat) (h : Handler) (v : Value) (g : CallFrame) (N : Level) (g' : CallFrame) (N' : Level) :
    Prop where
  works : g.Works floor N g' N'
  handlers : g.handlers = h :: g'.handlers
  next : g'.next = h.catchAt
  stack : ∃ low, low.length = floor ∧ N'.stack = low ++ [v]
  scope : ∃ f, N.frames = f :: N'.frames ∧ N'.scopes = N.scopes.take f.scopeDepth ∧ N'.env = f.env

variable {g g' : CallFrame} {σ : Nat → Shape} {floor : Nat} {s : Shape} {L M N N' : Level} {handler : Handler} {v : Value}

theorem Resumes.shorter (h : g.Resumes floor handler v N g' N') : g'.handlers <:+ g.handlers := by
  rw [h.handlers]
  exact List.suffix_cons _ _

theorem Resumes.since {n : Nat} (h : g.Resumes floor handler v M g' N') (ha : g.Alters floor N M) :
    { g with next := n }.Resumes floor handler v N g' N' := by
  have hw : { g with next := n }.Works floor N g' N' := h.works.since ha
  obtain ⟨stack, trace, rfl⟩ := ha.level
  exact ⟨hw, h.handlers, h.next, h.stack, h.scope⟩

theorem Sits.resumes {e : Engine} {handlers : List Handler} (h : g.Sits σ floor s L M)
    (hb : M.Beneath e.level) (hh : g.handlers = handler :: handlers) (error : Error) :
    ∃ e', e.unwind handler.scope error = (error, e') ∧
      g.Resumes floor handler (e.exceptionValue error).1 M { g with handlers, next := handler.catchAt } e'.level := by
  obtain ⟨r, e', hu, -, hs', -⟩ := h.caught hb hh error
  refine ⟨e', hu, ?_⟩
  obtain ⟨fs, hfs, hcov⟩ := h.tries
  obtain ⟨t, ht⟩ := h.trace
  obtain ⟨cs, hcs, hsc⟩ := h.scopes
  rw [hh] at hcov
  generalize s.tries = tries at hcov
  cases hcov with
  | @cons _ try₁ f _ ts fs hc hf1 hf2 hf3 hle hσ hrest =>
    have hfound : Engine.findFrame f.id e.frames = some (f, fs ++ L.frames) := by
      rw [show e.frames = f :: (fs ++ L.frames) from hb.frames.trans hfs]
      exact Engine.findFrame_top f _
    have hstack := Engine.unwind_stack hfound error
    obtain ⟨v, e₁, hu₁, -, hl⟩ := Engine.unwind_found hfound error
    obtain rfl : e' = e₁ := congrArg Prod.snd (hu.symm.trans hu₁)
    rw [hu, hf1, take_of_initial hb.stack h.floor_le] at hstack
    have hdepth : f.scopeDepth ≤ M.scopes.length := by
      rw [hf3, hsc]
      simp only [List.length_append, List.length_cons]
      omega
    have hscopes : e'.level.scopes = M.scopes.take f.scopeDepth := by
      have hM : M.scopes <+: e.level.scopes := by
        rw [← hb.cut_scopes.1]
        exact List.take_prefix ..
      rw [hl]
      exact take_of_initial hM hdepth
    have henv : e'.level.env = f.env := by rw [hl]
    have hframes : M.frames = f :: e'.level.frames := by
      rw [hl]
      exact hfs
    have hplaces : e'.level.places = M.places := by
      have htrace : e'.level.trace = M.trace := by
        rw [hl]
        show e.level.trace.take (max f.traceDepth 1) = M.trace
        rw [hf2, Nat.max_eq_left (by simp [ht]), take_of_initial hb.trace (Nat.le_refl _), List.take_length]
      rw [Level.places, htrace, Level.places]
    refine ⟨⟨⟨_, rfl⟩, ?_, hplaces, .resumes hh hframes hdepth ?_, hs'.below.trans h.below.symm⟩, hh, rfl,
      ⟨M.stack.take floor, ?_, hstack⟩, f, hframes, hscopes, henv⟩
    · intro i hi _
      rw [hstack, List.getElem?_append_left (by rw [List.length_take_of_le h.floor_le]; exact hi),
        List.getElem?_take_of_lt hi]
    · rw [Level.chain, hscopes, henv]
    · exact List.length_take_of_le h.floor_le

end CallFrame

namespace Loop

inductive Resumed (ls : List Layer) (T : List (Layer × Level)) (error : Error) (e : Engine) : Loop → Prop
  | intro {up rest : List (Layer × Level)} {g g' : CallFrame} {cs : List CallFrame} {N : Level} {e' : Engine}
      {σ : Nat → Shape} {floor : Nat} {s : Shape} {L : Level} {h : Handler} :
      T = up ++ (.frame g, N) :: rest → tower (cs.map .frame ++ ls) (Layer.below (.frame g') e'.level) = rest →
      g.Sits σ floor s L N → g.Resumes floor h (e.exceptionValue error).1 N g' e'.level →
      (e.unwind h.scope error).2 = e' → Resumed ls T error e ⟨e', g' :: cs⟩

def Caught (ls : List Layer) (T : List (Layer × Level)) (error : Error) (e : Engine) : Option Loop → Prop
  | some c => Resumed ls T error e c
  | none => ∃ up N, T = up ++ tower ls N ∧ N.Beneath e.level ∧ ∃ L₀ fl, Stacked L₀ ls fl N

variable {L₀ L : Level} {ls : List Layer} {fl : List Nat} {e : Engine} {error : Error}

theorem Caught.above {T : List (Layer × Level)} {found : Option Loop} (x : Layer × Level)
    (h : Caught ls T error e found) : Caught ls (x :: T) error e found := by
  cases found with
  | some c =>
    cases h with
    | @intro up rest g g' cs N e' σ floor s L h hT hrest hs hr hu =>
      have hT' : x :: T = (x :: up) ++ (.frame g, N) :: rest := congrArg (x :: ·) hT
      exact .intro hT' hrest hs hr hu
  | none =>
    obtain ⟨up, N, hT, hN⟩ := h
    exact ⟨x :: up, N, congrArg (x :: ·) hT, hN⟩

theorem caught_cons {frame : CallFrame} {callers : List CallFrame} {σ τ : Nat → Shape} {floor next : Nat}
    {s r : Shape} {N M : Level} (hs : frame.Sits σ floor s L N) (hs' : { frame with next }.Sits τ floor r L M)
    (ha : frame.Alters floor N M) (hb : M.Beneath e.level)
    (ih : L.Beneath e.level → Caught ls (tower (callers.map .frame ++ ls) L) error e (catch? error e callers)) :
    Caught ls (tower ((frame :: callers).map .frame ++ ls) N) error e
      (catch? error e ({ frame with next } :: callers)) := by
  simp only [List.map_cons, List.cons_append, tower, hs.below]
  cases hh : frame.handlers with
  | nil =>
    simp only [catch?]
    exact (ih ((hs'.beneath hh).trans hb)).above _
  | cons handler handlers =>
    obtain ⟨e', hu, hr⟩ := hs'.resumes hb hh error
    have hr' := hr.since (n := frame.next) ⟨ha.level, ha.stack, ha.places, ha.below⟩
    simp only [catch?, hu]
    refine .intro (List.nil_append _).symm ?_ hs hr' (congrArg Prod.snd hu)
    rw [hr'.works.below, hs.below]

theorem caught_outside {frames : List CallFrame} (hst : Stacked L₀ (frames.map .frame ++ ls) fl L)
    (hb : L.Beneath e.level) : Caught ls (tower (frames.map .frame ++ ls) L) error e (catch? error e frames) := by
  induction frames generalizing fl L with
  | nil => exact ⟨[], L, rfl, hb, L₀, fl, hst⟩
  | cons frame callers ih =>
    cases hst with
    | frame hst hs _ => exact caught_cons hs hs (hs.alters_stack fun _ _ _ => rfl) hb fun hb' => ih hst hb'

theorem Trips.caught {σ : Nat → Shape} {floor : Nat} {s : Shape} {frame : CallFrame} {callers : List CallFrame}
    {s' : Loop} (hst : Stacked L₀ (callers.map .frame ++ ls) fl L)
    (hs : frame.Sits σ floor s L e.level) (ht : Trips floor L e frame callers s') :
    Caught ls (tower ((frame :: callers).map .frame ++ ls) e.level) error s'.engine
      (catch? error s'.engine s'.frames) := by
  cases ht with
  | inside hs' ha => exact caught_cons hs hs' ha (.refl _) fun hb => caught_outside hst hb
  | behind hl =>
    simp only [List.map_cons, List.cons_append, tower, hs.below]
    refine (caught_outside hst ?_).above _
    rw [hl]
    exact .refl L

end Loop

theorem below_entry (L : Level) (extra : List Value) :
    Layer.below (.entry ⟨L.stack.length, L.scopes.length, L.trace.length⟩)
      { L with stack := L.stack ++ extra, loops := L.loops + 1 } = L := by
  simp [Layer.below]

theorem below_guard {L : Level} {f : ProtectedFrame} (hm : f.Marks L) (extra : List Value) :
    Layer.below (.guard f.id) { L with stack := L.stack ++ extra, frames := f :: L.frames } = L := by
  simp [Layer.below, hm.stackDepth]

theorem below_native (L : Level) (values : List Value) (t : TraceEntry) :
    Layer.below (.native L.stack.length) { L with stack := L.stack ++ values, trace := L.trace ++ [t] } = L := by
  simp [Layer.below]

def Fresh (global : Handle) (T : List (Layer × Level)) : Prop :=
  ∀ g N, (.frame g, N) ∈ T → g.handlers = [] ∧ g.Moored global N

theorem fresh_nil (global : Handle) : Fresh global [] := fun _ _ h => nomatch h

theorem Fresh.cons {global : Handle} {T : List (Layer × Level)} {l : Layer} {N : Level} (h : Fresh global T)
    (hl : ∀ g, l ≠ .frame g) : Fresh global ((l, N) :: T) := by
  intro g N hmem
  rcases List.mem_cons.mp hmem with heq | hmem
  · exact absurd (congrArg Prod.fst heq).symm (hl g)
  · exact h g N hmem

theorem fresh_tower {global : Handle} {ls : List Layer} {M : Level} (h : ∀ g, .frame g ∉ ls) :
    Fresh global (tower ls M) := by
  intro g N hmem
  have hl : .frame g ∈ (tower ls M).map (·.1) := List.mem_map_of_mem hmem
  rw [map_tower] at hl
  exact absurd hl (h g)

inductive Turns (global : Handle) (T T' : List (Layer × Level)) : Prop
  | within (up new rest : List (Layer × Level)) {g g' : CallFrame} {N N' L : Level} {σ : Nat → Shape} {floor : Nat}
      {s : Shape} (hT : T = up ++ (.frame g, N) :: rest) (hT' : T' = new ++ (.frame g', N') :: rest)
      (hs : g.Sits σ floor s L N) (hw : g.Works floor N g' N') (hh : g'.handlers <:+ g.handlers)
      (hn : Fresh global new)
  | around {new rest : List (Layer × Level)} (hT : rest <:+ T) (hT' : T' = new ++ rest) (hn : Fresh global new)

theorem Turns.above {global : Handle} {T T' : List (Layer × Level)} (x : Layer × Level) (h : Turns global T T') :
    Turns global (x :: T) T' := by
  cases h with
  | within up new rest hT hT' hs hw hh hn => exact .within (x :: up) new rest (congrArg (x :: ·) hT) hT' hs hw hh hn
  | around hT hT' hn => exact .around (hT.trans (List.suffix_cons _ _)) hT' hn

namespace Machine

open Engine

variable {L₀ L : Level} {fl : List Nat} {e : Engine} {tasks : List Task} {entry : Entry}

inductive Turn (m m' : Machine) : Prop
  | shifts (h : Turns m'.engine.global m.tower m'.tower)
  | opens {entry : Entry} {g g' : CallFrame} {callers : List CallFrame} {c x : Nat} {f : ProtectedFrame}
      {N' L : Level} {σ : Nat → Shape} {floor : Nat} {s : Shape} {rest : List (Layer × Level)}
      (hc : m.control = .running entry (g :: callers)) (hi : g.unit.code[g.next]? = some (.try c x))
      (ho : m.engine.Opens f) (hd : f.stackDepth = floor) (hT : m.tower = (.frame g, m.engine.level) :: rest)
      (hT' : m'.tower = (.frame g', N') :: rest) (hs : g.Sits σ floor s L m.engine.level)
      (hw : g.Works floor m.engine.level g' N') (hh : g'.handlers = ⟨f.id, c, x⟩ :: g.handlers)
      (hf : N'.frames = f :: m.engine.level.frames)

theorem tower_running (e : Engine) (tasks : List Task) (entry : Entry) (frames : List CallFrame) :
    tower ⟨e, tasks, .running entry frames⟩ =
      ScriptEngine.tower (frames.map .frame ++ .entry entry :: layers tasks) e.level := by
  simp [tower, allLayers, Control.layers]

theorem tower_loop (e : Engine) (tasks : List Task) (entry : Entry) (frames : List CallFrame)
    (result : Except Error Value) :
    tower ⟨e, .loop entry frames :: tasks, .returning result⟩ =
      ScriptEngine.tower (frames.map .frame ++ .entry entry :: layers tasks) e.level := by
  simp [tower, allLayers, Control.layers, layers, Task.layers]

theorem level_leaveLoop (entry : Entry) (e : Engine) :
    (leaveLoop entry e).level = Layer.below (.entry entry) e.level := by
  simp [leaveLoop, level, cutStack, Layer.below]

theorem turns_raise {T : List (Layer × Level)} {error : Error} {s : Loop} {global : Handle}
    (h : Loop.Caught (.entry entry :: layers tasks) T error s.engine (Loop.catch? error s.engine s.frames)) :
    Turns global T (raise entry error tasks s).tower := by
  cases hc : Loop.catch? error s.engine s.frames with
  | some c =>
    rw [hc] at h
    simp only [raise, hc]
    cases h with
    | @intro up rest g g' cs N e' σ floor s L h hT hrest hs hr hu =>
      refine .within up [] rest hT ?_ hs hr.works hr.shorter (fresh_nil _)
      rw [tower_running, ← hrest]
      rfl
  | none =>
    rw [hc] at h
    obtain ⟨up, N, hT, hb, L₀, fl, hst⟩ := h
    cases hst with
    | @entry _ _ L hst =>
      obtain ⟨error', e', hf, -, -, hl⟩ := failLoop_spec error hb
      simp only [raise, hc, hf]
      have hbelow := below_entry L []
      rw [List.append_nil] at hbelow
      refine .around ?_ (List.nil_append _).symm (fresh_nil _)
      simp only [hT, ScriptEngine.tower, hbelow, tower, allLayers, Control.layers, List.nil_append, hl]
      exact (List.suffix_cons _ _).trans (List.suffix_append _ _)

theorem turns_answered {global : Handle} {frames : List CallFrame} {e' : Engine} (v : Value)
    (hst : Stacked L₀ (frames.map .frame ++ .entry entry :: layers tasks) fl L)
    (hl : e'.level = { L with stack := L.stack ++ [v] }) :
    Turns global (ScriptEngine.tower (frames.map .frame ++ .entry entry :: layers tasks) L)
      (tower ⟨e', tasks, .running entry frames⟩) := by
  rw [tower_running, hl]
  cases frames with
  | nil =>
    cases hst with
    | @entry _ _ L hst =>
      have hL := below_entry L []
      rw [List.append_nil] at hL
      simp only [List.map_nil, List.nil_append, ScriptEngine.tower, hL, below_entry]
      exact .around (List.suffix_cons _ _) (List.singleton_append).symm ((fresh_nil _).cons (by simp))
  | cons frame callers =>
    cases hst with
    | @frame _ _ _ _ _ σ floor s hst hs hw =>
      have hstack : ∀ i < floor, frame.completion ≠ some i → (L.stack ++ [v])[i]? = L.stack[i]? := by
        intro i hi _
        exact List.getElem?_append_left (Nat.lt_of_lt_of_le hi hs.floor_le)
      have hw := hs.works_on_stack frame.next hstack
      refine .within [] [] _ rfl ?_ hs hw List.suffix_rfl (fresh_nil _)
      exact congrArg (_ :: ScriptEngine.tower _ ·) hw.below

theorem turn_acts {σ : Nat → Shape} {floor : Nat} {s : Shape} {g : CallFrame} {cs : List CallFrame} {signal : Signal}
    {s' : Loop} (hst : Stacked L₀ (cs.map .frame ++ .entry entry :: layers tasks) fl L)
    (hs : g.Sits σ floor s L e.level) (ha : Loop.Acts floor L e g cs g.unit.code[g.next]? signal s')
    (hstep : Loop.step ⟨e, g :: cs⟩ = .ok signal s') :
    Turn ⟨e, tasks, .running entry (g :: cs)⟩ (step ⟨e, tasks, .running entry (g :: cs)⟩) := by
  have hT : tower ⟨e, tasks, .running entry (g :: cs)⟩ = (.frame g, e.level) ::
      ScriptEngine.tower (cs.map .frame ++ .entry entry :: layers tasks) (Layer.below (.frame g) e.level) :=
    tower_running e tasks entry (g :: cs)
  cases ha with
  | @works g' e' hh hw =>
    simp only [step, hstep]
    refine .shifts (.within [] [] _ hT ?_ hs hw hh (fresh_nil _))
    rw [tower_running, ← hw.below]
    rfl
  | @opens g' c x f e' hi ho hd hf hh hw =>
    refine .opens rfl hi ho hd hT ?_ hs hw hh hf
    simp only [step, hstep]
    rw [tower_running, ← hw.below]
    rfl
  | @enters g' new e' hn hm hh hw =>
    simp only [step, hstep]
    refine .shifts (.within [] [(.frame new, e'.level)] _ hT ?_ hs hw hh ?_)
    · rw [tower_running, ← hw.below]
      rfl
    · intro g₁ N hmem
      obtain ⟨heq, rfl⟩ := Prod.mk.inj (List.mem_singleton.mp hmem)
      cases heq
      exact ⟨hn, hm⟩
  | @evaluates g' closure base e' hh hw =>
    simp only [step, hstep]
    refine .shifts (.within [] [(.native base, e'.level)] _ hT ?_ hs hw hh ?_)
    · rw [← hw.below]
      simp [tower, allLayers, Control.layers, layers, Task.layers, ScriptEngine.tower]
    · exact (fresh_nil _).cons (by simp)
  | @returns v e' hc hl =>
    simp only [step, hstep]
    rw [hs.below] at hT
    have ht : Turns e'.global _ _ := turns_answered v hst hl
    refine .shifts ?_
    rw [hT]
    exact ht.above _
  | @finishes v e' extra hc hl =>
    subst hc
    simp only [step, hstep]
    cases hst with
    | @entry _ _ L' hst =>
      have hL := below_entry L' []
      rw [List.append_nil] at hL
      rw [hs.below] at hT
      simp only [List.map_nil, List.nil_append, ScriptEngine.tower, hL] at hT
      refine .shifts (.around ?_ (List.nil_append _).symm (fresh_nil _))
      rw [hT]
      simp only [tower, allLayers, Control.layers, List.nil_append, level_leaveLoop, hl, below_entry]
      exact (List.suffix_cons _ _).trans (List.suffix_cons _ _)

/-- An error is handed to the frames of a loop: one that an instruction raises, or the result of
what the loop waits for, or that there is no room for this result. -/
inductive Strikes : Machine → Entry → List Task → Error → Loop → Prop
  | raised {e : Engine} {tasks : List Task} {entry : Entry} {frames : List CallFrame} {error : Error} {s : Loop} :
      Loop.step ⟨e, frames⟩ = .error error s → Strikes ⟨e, tasks, .running entry frames⟩ entry tasks error s
  | handed {e : Engine} {tasks : List Task} {entry : Entry} {frames : List CallFrame} {error : Error} :
      Strikes ⟨e, .loop entry frames :: tasks, .returning (.error error)⟩ entry tasks error ⟨e, frames⟩
  | unanswered {e e' : Engine} {tasks : List Task} {entry : Entry} {frames : List CallFrame} {error : Error} {v : Value} :
      push v e = .error error e' →
      Strikes ⟨e, .loop entry frames :: tasks, .returning (.ok v)⟩ entry tasks error ⟨e', frames⟩

theorem Strikes.step {m : Machine} {error : Error} {s : Loop} (h : m.Strikes entry tasks error s) :
    m.step = raise entry error tasks s := by
  cases h with
  | raised hs => simp only [Machine.step, hs]
  | handed => rfl
  | unanswered hp => simp only [Machine.step, resume, hp]

theorem push_level (v : Value) (e : Engine) :
    Ensures (push v) (fun _ e' => e'.level = { e.level with stack := e.level.stack ++ [v] })
      (fun _ e' => e'.level = e.level) e := by
  rw [← reset_self e]
  exact .push rfl rfl

theorem Fits.caught {m : Machine} {error : Error} {s : Loop} (hh : m.engine.heap.OnlyCompiled) (h : Fits L₀ fl m)
    (hs : m.Strikes entry tasks error s) :
    Loop.Caught (.entry entry :: layers tasks) m.tower error s.engine (Loop.catch? error s.engine s.frames) := by
  cases hs with
  | @raised e _ _ frames _ _ hstep =>
    rw [tower_running]
    cases h with
    | idle hst he => cases hstep
    | intro hst hs hw => exact ((Loop.step_acts hh hst hs hw).error hstep).caught hst hs
  | @handed e _ _ frames _ =>
    obtain ⟨-, L, extra, hst, he, hx⟩ := h
    obtain rfl : extra = [] := hx.resolve_right (by rintro ⟨_, _, h⟩; cases h)
    rw [List.append_nil] at he
    have hst' : Stacked L₀ (frames.map .frame ++ .entry entry :: layers tasks) fl e.level := by
      rw [show e.level = L from he]
      simpa [layers, Task.layers] using hst
    rw [tower_loop]
    exact Loop.caught_outside hst' (.refl _)
  | @unanswered e e' _ _ frames _ v hp =>
    have hst : Stacked L₀ (layers (.loop entry frames :: tasks)) fl e.level := h
    have hst' : Stacked L₀ (frames.map .frame ++ .entry entry :: layers tasks) fl e.level := by
      simpa [layers, Task.layers] using hst
    rw [tower_loop]
    refine Loop.caught_outside hst' ?_
    rw [(push_level v e).error hp]
    exact .refl _

theorem Fits.turn_struck {m : Machine} {error : Error} {s : Loop} (hh : m.engine.heap.OnlyCompiled) (h : Fits L₀ fl m)
    (hs : m.Strikes entry tasks error s) : m.Turn m.step := by
  rw [hs.step]
  exact .shifts (turns_raise (h.caught hh hs))

theorem turn_running {frames : List CallFrame} (hh : e.heap.OnlyCompiled)
    (h : Fits L₀ fl ⟨e, tasks, .running entry frames⟩) :
    Turn ⟨e, tasks, .running entry frames⟩ (step ⟨e, tasks, .running entry frames⟩) := by
  cases hstep : Loop.step ⟨e, frames⟩ with
  | error error s => exact h.turn_struck hh (.raised hstep)
  | ok signal s =>
    cases h with
    | idle hst he =>
      refine .shifts (.around ?_ (List.nil_append _).symm (fresh_nil _))
      have hstep : step ⟨e, tasks, .running entry []⟩ = ⟨leaveLoop entry e, tasks, .returning (.ok .undefined)⟩ := rfl
      rw [hstep, tower_running]
      simp only [tower, allLayers, Control.layers, List.nil_append, level_leaveLoop]
      exact List.suffix_cons _ _
    | intro hst hs hw => exact turn_acts hst hs ((Loop.step_acts hh hst hs hw).ok hstep) hstep

theorem turn_left {l : Layer} {task : Task} {e' : Engine} (result result' : Except Error Value)
    (ht : task.layers = [l]) (hl : e'.level = l.below e.level) :
    Turn ⟨e, task :: tasks, .returning result⟩ ⟨e', tasks, .returning result'⟩ := by
  refine .shifts (.around ?_ (List.nil_append _).symm (fresh_nil _))
  simp only [tower, allLayers, Control.layers, List.nil_append, layers, List.flatMap_cons, ht, List.singleton_append,
    ScriptEngine.tower, hl]
  exact List.suffix_cons _ _

theorem turn_resume_ok {task : Task} (v : Value) (hh : e.heap.OnlyCompiled)
    (h : Fits L₀ fl ⟨e, task :: tasks, .returning (.ok v)⟩) :
    Turn ⟨e, task :: tasks, .returning (.ok v)⟩ (step ⟨e, task :: tasks, .returning (.ok v)⟩) := by
  have hst : Stacked L₀ (layers (task :: tasks)) fl e.level := h
  generalize hM : e.level = M at hst
  cases task with
  | guard scope =>
    cases hst with
    | @guard _ _ L f hst hm =>
      obtain ⟨e', hg, ha, hl⟩ := guard_ok hM v
      have hbelow := below_guard hm []
      rw [List.append_nil] at hbelow
      simp only [step, resume, resultIn, hg]
      exact turn_left _ _ rfl (by rw [hl, hM, hbelow])
  | native base =>
    cases hst with
    | @native _ _ L values t hst => exact turn_left _ _ rfl (by rw [leave_native hM, hM, below_native])
  | loop entry frames =>
    subst hM
    have hst' : Stacked L₀ (frames.map .frame ++ .entry entry :: layers tasks) fl e.level := by
      simpa [layers, Task.layers] using hst
    cases hp : push v e with
    | error error e' => exact h.turn_struck hh (.unanswered hp)
    | ok _ e' =>
      simp only [step, resume, hp]
      refine .shifts ?_
      rw [tower_loop]
      exact turns_answered v hst' ((push_level v e).ok hp)

theorem turn_resume_error {task : Task} {error : Error} (hh : e.heap.OnlyCompiled)
    (h : Fits L₀ fl ⟨e, task :: tasks, .returning (.error error)⟩) :
    Turn ⟨e, task :: tasks, .returning (.error error)⟩ (step ⟨e, task :: tasks, .returning (.error error)⟩) := by
  cases task with
  | guard scope =>
    obtain ⟨-, L, extra, hst, he, hx⟩ := h
    generalize hM : L = M at hst
    cases hst with
    | @guard _ _ L f hst hm =>
      subst hM
      obtain ⟨v, e', hg, -, hl⟩ := guard_error (α := Value) extra hm he error
      simp only [step, resume, resultIn, hg]
      exact turn_left _ _ rfl (by rw [hl, he, below_guard hm])
  | native base =>
    obtain ⟨-, L, extra, hst, he, hx⟩ := h
    obtain rfl : extra = [] := hx.resolve_right (by rintro ⟨_, _, h⟩; cases h)
    rw [List.append_nil] at he
    generalize hM : L = M at hst
    cases hst with
    | @native _ _ L values t hst =>
      have hlevel := he.trans hM
      exact turn_left _ _ rfl (by rw [leave_native hlevel, hlevel, below_native])
  | loop entry frames => exact h.turn_struck hh .handed

section Call

def extend (m : Machine) (tasks : List Task) : Machine :=
  { m with tasks := m.tasks ++ tasks }

theorem allLayers_extend (m : Machine) (tasks : List Task) : (m.extend tasks).allLayers = m.allLayers ++ layers tasks := by
  simp [allLayers, extend, layers]

theorem raise_extend (entry : Entry) (error : Error) (ts tasks : List Task) (s : Loop) :
    raise entry error (ts ++ tasks) s = (raise entry error ts s).extend tasks := by
  simp only [raise]
  split <;> rfl

theorem start_extend (argc : Nat) (ts tasks : List Task) (e : Engine) :
    start argc (ts ++ tasks) e = (start argc ts e).extend tasks := by
  simp only [start]
  split
  · rfl
  · split
    · split <;> rfl
    · split
      · rfl
      · split
        · rfl
        · exact raise_extend ..

theorem call_extend (receiver callee : Value) (args : List Value) (tasks : List Task) (e : Engine) :
    call receiver callee args tasks e = (call receiver callee args [] e).extend tasks := by
  simp only [call]
  split
  · rfl
  · split
    · rfl
    · exact start_extend _ [_] tasks _

theorem start_fresh {argc : Nat} {low ops : List Value} {scope : ScopeId} (hstack : e.level.stack = low ++ ops)
    (ho : ops.length = argc + 2) : Fresh e.global (start argc [.guard scope] e).tower := by
  have hidle (e' : Engine) (result : Except Error Value) :
      Fresh e.global (tower ⟨e', [.guard scope], .returning result⟩) :=
    fresh_tower (by simp [allLayers, Control.layers, layers, Task.layers])
  have hsite := (callSite_ensures hstack ho).both (callSite_receiver argc e)
  cases hc : callSite argc e with
  | error error e₁ =>
    simp only [start, hc]
    exact hidle e₁ _
  | ok site e₁ =>
    obtain ⟨⟨rfl, hbase, -⟩, hreceiver⟩ := hsite.ok hc
    obtain ⟨base, receiver, args, callee⟩ := site
    obtain rfl : base = low.length := hbase
    cases callee with
    | native f =>
      simp only [start, hc]
      split
      · exact hidle _ _
      · exact fresh_tower (by simp [allLayers, Control.layers, layers, Task.layers])
      · exact hidle _ _
    | closure unit env =>
      simp only [start, hc]
      split
      · exact hidle _ _
      · have hx := (enterClosure_ensures unit env ⟨low.length, receiver, args, .closure unit env⟩
            { e₁ with loops := e₁.loops + 1 }).both (enterClosure_receiver unit env _ _)
        cases hn : enterClosure unit env ⟨low.length, receiver, args, .closure unit env⟩
            { e₁ with loops := e₁.loops + 1 } with
        | error error e₂ => exact hidle _ _
        | ok new e₂ =>
          obtain ⟨⟨-, _, scope', t, hl, hnew⟩, hr⟩ := hx.ok hn
          have hm : new.Moored e₁.global e₂.level := by
            rw [hl]
            exact moored_entered (e := { e₁ with loops := e₁.loops + 1 }) hstack (by omega) (by rw [hnew])
              (by rw [hnew]) (by rw [hnew]) (by rw [hnew]) (by rw [hnew]) (by rw [hnew]; exact hreceiver) hr
          rw [tower_running]
          intro g N hmem
          rcases List.mem_cons.mp hmem with heq | hmem
          · obtain ⟨heq, rfl⟩ := Prod.mk.inj heq
            cases heq
            exact ⟨by rw [hnew], hm⟩
          · exact fresh_tower (by simp [layers, Task.layers]) g N hmem

theorem call_fresh (receiver callee : Value) (args : List Value) (e : Engine) :
    Fresh e.global (call receiver callee args [] e).tower := by
  cases hb : beginProtected e with
  | error error e₁ =>
    simp only [call, hb]
    exact fresh_tower (by simp [allLayers, Control.layers, layers])
  | ok scope e₁ =>
    obtain ⟨frame, rfl, hm, ha, hl⟩ := beginProtected_ok hb
    have hx := pushAll_ensures (callee :: receiver :: args) e₁
    cases hp : pushAll (callee :: receiver :: args) e₁ with
    | error error e₂ =>
      simp only [call, hb, hp]
      exact fresh_tower (by simp [allLayers, Control.layers, layers, Task.layers])
    | ok _ e₂ =>
      obtain ⟨ha', hl'⟩ := hx.ok hp
      have hglobal : e₂.global = e.global := congrArg (·.2.2.2.1) (ha.after ha').fixed
      simp only [call, hb, hp]
      rw [← hglobal]
      exact start_fresh (congrArg Level.stack hl') rfl

theorem turn_call (receiver callee : Value) (args : List Value) (hh : e.heap.OnlyCompiled) :
    Turn ⟨e, tasks, .calling receiver callee args⟩ (call receiver callee args tasks e) := by
  -- Below the call stands what waits for its result, whatever that is.
  have hst : Stacked e.level (layers []) [] e.level := .host
  obtain ⟨ha, fl, -, hf⟩ := steps_call receiver callee args hh hst
  have hglobal : (call receiver callee args [] e).engine.global = e.global := congrArg (·.2.2.2.1) ha.fixed
  rw [call_extend]
  refine .shifts (.around List.suffix_rfl (?_ : _ = (call receiver callee args [] e).tower ++ _) ?_)
  · rw [tower, allLayers_extend, tower_append]
    show _ ++ ScriptEngine.tower _ ((call receiver callee args [] e).engine.level.under _) = _
    rw [hf.standing.1]
    rfl
  · show Fresh (call receiver callee args [] e).engine.global _
    rw [hglobal]
    exact call_fresh receiver callee args e

end Call

theorem Fits.turn {m : Machine} (hh : m.engine.heap.OnlyCompiled) (h : Fits L₀ fl m) : m.Turn m.step := by
  obtain ⟨e, tasks, control⟩ := m
  cases control with
  | running entry frames => exact turn_running hh h
  | calling receiver callee args => exact turn_call receiver callee args hh
  | returning result =>
    cases tasks with
    | nil => exact .shifts (.around List.suffix_rfl (List.nil_append _).symm (fresh_nil _))
    | cons task tasks =>
      cases result with
      | ok v => exact turn_resume_ok v hh h
      | error error => exact turn_resume_error hh h

end Machine

theorem Slides.getElem? {α : Type} {l l' : List α} {i : Nat} {x : α} (h : Slides l l') (hi : i < l'.length)
    (hx : l[i]? = some x) : l'[i]? = some x := by
  rcases h with ⟨rest, rfl⟩ | ⟨y, rfl⟩
  · rw [List.getElem?_append_left hi] at hx
    exact hx
  · rw [List.getElem?_append_left (List.getElem?_eq_some_iff.mp hx).1]
    exact hx

theorem Covers.depths {u : CodeUnit} {σ : Nat → Shape} {floor traceDepth scopeDepth c : Nat} {hs : List Handler}
    {ts : List OpenTry} {fs : List ProtectedFrame} (h : Covers u σ floor traceDepth scopeDepth c hs ts fs) :
    ∀ f ∈ fs, f.stackDepth = floor ∧ f.scopeDepth ≤ scopeDepth + c := by
  induction h with
  | nil => simp
  | cons hc h2 _ h4 _ _ _ ih =>
    intro f hf
    rcases List.mem_cons.mp hf with rfl | hf
    · exact ⟨h2, by omega⟩
    · have hd := ih f hf
      exact ⟨hd.1, by omega⟩

namespace CallFrame

variable {g g' : CallFrame} {σ τ : Nat → Shape} {floor floor' : Nat} {s r : Shape} {L L' N N' : Level} {global : Handle}

theorem Sits.depths (h : g.Sits σ floor s L N) :
    ∀ f ∈ N.frames.take g.handlers.length, f.stackDepth = floor ∧ f.scopeDepth < N.chain.length := by
  obtain ⟨cs, hcs, hsc⟩ := h.scopes
  obtain ⟨fs, hfs, hcov⟩ := h.tries
  have hlen : g.handlers.length = fs.length := by
    simpa using (congrArg List.length hcov.ids).symm
  intro f hf
  rw [hfs, hlen, List.take_left] at hf
  have hd := hcov.depths f hf
  refine ⟨hd.1, ?_⟩
  simp only [Level.chain, hsc, List.length_append, List.length_cons, List.length_nil]
  omega

theorem Works.slides (hw : g.Works floor N g' N') (hm : g.Moored global N) : Slides N.chain N'.chain := by
  rcases hw.changes with ⟨hc, -, -⟩ | ⟨-, -, hc, -⟩ | ⟨-, -, hc⟩ | @⟨h, f, hh, hf, hd, hc⟩
  · exact hc
  · rw [hc]
    exact .refl _
  · rw [hc]
    exact .refl _
  · have hmem : f ∈ N.frames.take g.handlers.length := by
      rw [hf, hh]
      exact .head _
    have hcut : N.chain.take (f.scopeDepth + 1) = N.scopes.take f.scopeDepth ++ [f.env] := by
      rw [List.take_add_one, hm.tries f hmem, Level.chain, List.take_append_of_le_length hd]
      rfl
    rw [hc, ← hcut]
    exact .inl (List.take_prefix _ _)

theorem Moored.works (hm : g.Moored global N) (hs : g.Sits σ floor s L N) (hw : g.Works floor N g' N')
    (hs' : g'.Sits τ floor' r L' N') : g'.Moored global N' := by
  have hslides := hw.slides hm
  obtain ⟨next, hg⟩ := hw.frame
  have hold : ∀ f ∈ N.frames.take g.handlers.length, f ∈ N'.frames.take g'.handlers.length →
      N'.chain[f.scopeDepth]? = some f.env :=
    fun f hf hf' => hslides.getElem? (hs'.depths f hf').2 (hm.tries f hf)
  refine ⟨?_, ?_, ?_⟩
  · have hlt := hs'.saved_lt
    have hscope := hslides.getElem? (i := g'.savedScope + 1) (x := g.scope) (by simp [Level.chain]; omega)
      (by rw [hg]; exact hm.scope)
    rw [hscope, hg]
  · have hbase := hs.base_lt
    have hslot := hw.stack (g.base + 1) (by omega) (hs.completion_ne (by omega))
    obtain ⟨v, hv, hr⟩ := hm.receiver
    rw [hg]
    exact ⟨v, hslot.trans hv, hr⟩
  · intro f hf
    rcases hw.changes with ⟨-, hh, hfr⟩ | @⟨h, f₀, hh, hfr, hc, he⟩ | @⟨h, f₀, hh, hfr, -⟩ | @⟨h, f₀, hh, hfr, -, -⟩
    · refine hold f ?_ hf
      rwa [hh, hfr] at hf
    · have hf' := hf
      rw [hh, hfr] at hf'
      rcases List.mem_cons.mp hf' with rfl | hmem
      · rw [hc]
        exact he
      · exact hold f hmem hf
    · refine hold f ?_ hf
      rw [hh, hfr]
      exact .tail _ hf
    · refine hold f ?_ hf
      rw [hh, hfr]
      exact .tail _ hf

end CallFrame

namespace Machine

open Engine

variable {L₀ : Level} {m m' : Machine}

def Moored (m : Machine) : Prop :=
  ∀ g N, (.frame g, N) ∈ m.tower → g.Moored m.engine.global N

theorem Turn.moored (h : m.Turn m') (hm : m.Moored) (hg : m'.engine.global = m.engine.global)
    (hs' : ∀ g N, (.frame g, N) ∈ m'.tower → ∃ σ floor s L, g.Sits σ floor s L N) : m'.Moored := by
  -- The frame that worked is moored because it was; the others have not changed or are new.
  have hrest {up new rest : List (Layer × Level)} {g g' : CallFrame} {N N' L : Level} {σ : Nat → Shape} {floor : Nat}
      {s : Shape} (hT : m.tower = up ++ (.frame g, N) :: rest) (hT' : m'.tower = new ++ (.frame g', N') :: rest)
      (hs : g.Sits σ floor s L N) (hw : g.Works floor N g' N') (hn : Fresh m'.engine.global new) : m'.Moored := by
    intro g₁ N₁ hmem
    obtain ⟨τ, floor', r, L', hs₁⟩ := hs' g₁ N₁ hmem
    rw [hT'] at hmem
    rcases List.mem_append.mp hmem with hmem | hmem
    · exact (hn g₁ N₁ hmem).2
    rw [hg]
    rcases List.mem_cons.mp hmem with heq | hmem
    · obtain ⟨heq, rfl⟩ := Prod.mk.inj heq
      cases heq
      have hold := hm g N (by rw [hT]; exact List.mem_append_right _ (.head _))
      exact hold.works hs hw hs₁
    · exact hm g₁ N₁ (by rw [hT]; exact List.mem_append_right _ (.tail _ hmem))
  cases h with
  | opens hc hi ho hd hT hT' hs hw hh hf =>
    exact hrest (hT.trans (List.nil_append _).symm) (hT'.trans (List.nil_append _).symm) hs hw (fresh_nil _)
  | shifts ht =>
    cases ht with
    | within up new rest hT hT' hs hw hh hn => exact hrest hT hT' hs hw hn
    | around hT hT' hn =>
      intro g N hmem
      rw [hT'] at hmem
      rcases List.mem_append.mp hmem with hmem | hmem
      · exact (hn g N hmem).2
      · rw [hg]
        exact hm g N (hT.subset hmem)

structure Orderly (L₀ : Level) (m : Machine) : Prop where
  compiled : m.engine.heap.OnlyCompiled
  fits : ∃ fl, Fits L₀ fl m
  moored : m.Moored

namespace Orderly

theorem sits (h : m.Orderly L₀) : ∀ g N, (.frame g, N) ∈ m.tower → ∃ σ floor s L, g.Sits σ floor s L N := by
  obtain ⟨fl, hf⟩ := h.fits
  exact hf.standing.2

theorem turn (h : m.Orderly L₀) : m.Turn m.step := by
  obtain ⟨fl, hf⟩ := h.fits
  exact hf.turn h.compiled

theorem ages (h : m.Orderly L₀) : m.engine.Ages 2 m.step.engine := by
  obtain ⟨fl, hf⟩ := h.fits
  exact (steps_step h.compiled hf).1

theorem step (h : m.Orderly L₀) : m.step.Orderly L₀ := by
  obtain ⟨fl, hf⟩ := h.fits
  obtain ⟨ha, fl', -, hf'⟩ := steps_step h.compiled hf
  exact ⟨h.compiled.evolves ha.heap, ⟨fl', hf'⟩,
    h.turn.moored h.moored (congrArg (·.2.2.2.1) ha.fixed) hf'.standing.2⟩

theorem run (h : m.Orderly L₀) (n : Nat) : (Machine.step^[n] m).Orderly L₀ := by
  induction n with
  | zero => exact h
  | succ n ih =>
    rw [Function.iterate_succ_apply']
    exact ih.step

theorem calling {e : Engine} (hh : e.heap.OnlyCompiled) (receiver callee : Value) (args : List Value) :
    Orderly e.level ⟨e, [], .calling receiver callee args⟩ :=
  ⟨hh, ⟨[], .host⟩, fun _ _ h => nomatch h⟩

end Orderly

end Machine

end ScriptEngine
