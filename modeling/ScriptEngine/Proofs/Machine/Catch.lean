import ScriptEngine.Proofs.Machine.Clause
import ScriptEngine.Proofs.Machine.Succession

namespace ScriptEngine

open Engine

structure Machine.Remembers (tried : Machine) (g : CallFrame) (rest : List (Layer × Level)) (g₁ : CallFrame)
    (N₁ : Level) (inner : List Handler) (h : Handler) : Prop where
  control : ∃ entry callers, tried.control = .running entry (g :: callers)
  instr : g.unit.code[g.next]? = some (.try h.catchAt h.exitAt)
  serial : h.scope.serial = tried.engine.nextSerial
  tower : tried.tower = (.frame g, tried.engine.level) :: rest
  frame : ∃ next, g₁ = { g with next, handlers := inner ++ h :: g.handlers }
  frames : ∃ fs f, N₁.frames = fs ++ f :: tried.engine.level.frames ∧ fs.length = inner.length ∧
    f.Marks tried.engine.level
  chain : tried.engine.level.chain <+: N₁.chain
  places : N₁.places = tried.engine.level.places
  stack : ∀ i < tried.engine.level.stack.length, g.completion ≠ some i →
    N₁.stack[i]? = tried.engine.level.stack[i]?

def CallFrame.Recorded (past : Machine → Prop) (g₁ : CallFrame) (N₁ : Level) (rest : List (Layer × Level)) : Prop :=
  ∀ inner h outer, g₁.handlers = inner ++ h :: outer →
    ∃ tried g, past tried ∧ tried.Remembers g rest g₁ N₁ inner h

namespace Machine.Remembers

variable {tried : Machine} {g g₁ g₂ : CallFrame} {rest : List (Layer × Level)} {N₁ N₂ L : Level}
  {inner inner' : List Handler} {h : Handler} {σ τ : Nat → Shape} {floor floor' : Nat} {s r : Shape} {global : Handle}
  {L' : Level}

theorem floor_eq (hr : tried.Remembers g rest g₁ N₁ inner h) (hs : g₁.Sits σ floor s L N₁) :
    tried.engine.level.stack.length = floor := by
  obtain ⟨fs, f, hf, hlen, hmarks⟩ := hr.frames
  obtain ⟨next, hg⟩ := hr.frame
  have hmem : f ∈ N₁.frames.take g₁.handlers.length := by
    rw [hf, hg]
    simp [List.take_append, ← hlen]
  rw [← hmarks.stackDepth]
  exact (hs.depths f hmem).1

theorem works (hr : tried.Remembers g rest g₁ N₁ inner h) (hs : g₁.Sits σ floor s L N₁) (hm : g₁.Moored global N₁)
    (hw : g₁.Works floor N₁ g₂ N₂) (hs' : g₂.Sits τ floor' r L' N₂) (hh : g₂.handlers = inner' ++ h :: g.handlers)
    (hf : ∀ fs f, N₁.frames = fs ++ f :: tried.engine.level.frames → fs.length = inner.length →
      ∃ fs', N₂.frames = fs' ++ f :: tried.engine.level.frames ∧ fs'.length = inner'.length) :
    tried.Remembers g rest g₂ N₂ inner' h := by
  have hfloor := hr.floor_eq hs
  obtain ⟨fs, f, hframes, hlen, hmarks⟩ := hr.frames
  obtain ⟨next, hg⟩ := hr.frame
  obtain ⟨next', hg'⟩ := hw.frame
  obtain ⟨fs', hframes', hlen'⟩ := hf fs f hframes hlen
  refine ⟨hr.control, hr.instr, hr.serial, hr.tower, ⟨next', ?_⟩, ⟨fs', f, hframes', hlen', hmarks⟩, ?_,
    hw.places.trans hr.places, ?_⟩
  · rw [hg', hh, hg]
  · refine (hw.slides hm).keeps hr.chain ?_
    have hmem : f ∈ N₂.frames.take g₂.handlers.length := by
      rw [hframes', hh]
      simp [List.take_append, ← hlen']
    have hdepth := (hs'.depths f hmem).2
    rw [hmarks.scopeDepth] at hdepth
    simpa [Level.chain] using Nat.le_of_lt_succ (by simpa [Level.chain] using hdepth)
  · intro i hi hc
    have hc' : g₁.completion ≠ some i := by rwa [hg]
    rw [hw.stack i (by omega) hc']
    exact hr.stack i hi hc

end Machine.Remembers

namespace CallFrame.Recorded

variable {past past' : Machine → Prop} {g g' : CallFrame} {N N' L L' : Level} {rest : List (Layer × Level)}
  {σ τ : Nat → Shape} {floor floor' : Nat} {s r : Shape} {global : Handle}

theorem mono (h : g.Recorded past N rest) (hp : ∀ m, past m → past' m) : g.Recorded past' N rest := by
  intro inner handler outer hh
  obtain ⟨tried, g₀, ht, hr⟩ := h inner handler outer hh
  exact ⟨tried, g₀, hp _ ht, hr⟩

theorem of_nil (h : g.handlers = []) : g.Recorded past N rest := by
  intro inner handler outer hh
  rw [h] at hh
  simp at hh

theorem works (h : g.Recorded past N rest) (hs : g.Sits σ floor s L N) (hm : g.Moored global N)
    (hw : g.Works floor N g' N') (hs' : g'.Sits τ floor' r L' N') (hh : g'.handlers <:+ g.handlers) :
    g'.Recorded past N' rest := by
  intro inner handler outer hsplit
  -- A frame that closes a try statement had it as the innermost one.
  have hclose {h₀ : Handler} {f₀ : ProtectedFrame} (hg : g.handlers = h₀ :: g'.handlers)
      (hf : N.frames = f₀ :: N'.frames) : ∃ tried g₀, past tried ∧ tried.Remembers g₀ rest g' N' inner handler := by
    obtain ⟨tried, g₀, ht, hr⟩ := h (h₀ :: inner) handler outer (by rw [hg, hsplit]; rfl)
    obtain ⟨next, hg₀⟩ := hr.frame
    have hhand : g'.handlers = inner ++ handler :: g₀.handlers := by
      have hall : h₀ :: g'.handlers = h₀ :: (inner ++ handler :: g₀.handlers) := by
        rw [← hg, hg₀]
        rfl
      exact (List.cons.inj hall).2
    refine ⟨tried, g₀, ht, hr.works hs hm hw hs' hhand fun fs f hfs hlen => ?_⟩
    cases fs with
    | nil => simp at hlen
    | cons f₁ fs =>
      rw [hf] at hfs
      exact ⟨fs, (List.cons.inj hfs).2, by simpa using hlen⟩
  rcases hw.changes with ⟨-, hg, hf⟩ | ⟨hg, -, -, -⟩ | ⟨hg, hf, -⟩ | ⟨hg, hf, -, -⟩
  · obtain ⟨tried, g₀, ht, hr⟩ := h inner handler outer (by rw [← hg, hsplit])
    obtain ⟨next, hg₀⟩ := hr.frame
    refine ⟨tried, g₀, ht, hr.works hs hm hw hs' (by rw [hg, hg₀]) fun fs f hfs hlen => ⟨fs, ?_, hlen⟩⟩
    rw [hf, hfs]
  · have hlen := hh.length_le
    rw [hg, List.length_cons] at hlen
    omega
  · exact hclose hg hf
  · exact hclose hg hf

theorem opens {m : Machine} {entry : Entry} {callers : List CallFrame} {c x : Nat} {f : ProtectedFrame}
    (h : g.Recorded past m.engine.level rest) (hp : past m) (hc : m.control = .running entry (g :: callers))
    (hi : g.unit.code[g.next]? = some (.try c x)) (ho : m.engine.Opens f) (hd : f.stackDepth = floor)
    (hT : m.tower = (.frame g, m.engine.level) :: rest) (hs : g.Sits σ floor s L m.engine.level)
    (hm : g.Moored global m.engine.level) (hw : g.Works floor m.engine.level g' N') (hs' : g'.Sits τ floor' r L' N')
    (hh : g'.handlers = ⟨f.id, c, x⟩ :: g.handlers) (hf : N'.frames = f :: m.engine.level.frames) :
    g'.Recorded past N' rest := by
  intro inner handler outer hsplit
  rw [hh] at hsplit
  cases inner with
  | nil =>
    obtain ⟨rfl, rfl⟩ := List.cons.inj hsplit
    obtain ⟨next, hg⟩ := hw.frame
    refine ⟨m, g, hp, ⟨entry, callers, hc⟩, hi, ho.serial, hT, ⟨next, by rw [hg, hh]; rfl⟩, ⟨[], f, hf, rfl, ho.marks⟩,
      ?_, hw.places, fun i hi hc => hw.stack i (by rw [← hd, ho.marks.stackDepth]; exact hi) hc⟩
    have hlen : g'.handlers.length = g.handlers.length + 1 := by rw [hh, List.length_cons]
    rcases hw.changes with ⟨-, hg', -⟩ | ⟨-, -, hchain, -⟩ | ⟨hg', -, -⟩ | ⟨hg', -, -, -⟩
    · rw [hg'] at hlen
      omega
    · exact hchain ▸ List.prefix_rfl
    · rw [hg', List.length_cons] at hlen
      omega
    · rw [hg', List.length_cons] at hlen
      omega
  | cons h₀ inner =>
    obtain ⟨rfl, htail⟩ := List.cons.inj hsplit
    obtain ⟨tried, g₀, ht, hr⟩ := h inner handler outer htail
    obtain ⟨next, hg₀⟩ := hr.frame
    refine ⟨tried, g₀, ht, hr.works hs hm hw hs' (by rw [hh, hg₀]; rfl) fun fs f₁ hfs hlen => ⟨f :: fs, ?_, ?_⟩⟩
    · rw [hf, hfs]
      rfl
    · simp [hlen]

end CallFrame.Recorded

theorem suffix_append_cases {α : Type} {x : α} {new rest l : List α} (h : x :: l <:+ new ++ rest) :
    x ∈ new ∨ x :: l <:+ rest := by
  rcases List.suffix_or_suffix_of_suffix h (List.suffix_append new rest) with hs | ⟨mid, hmid⟩
  · exact .inr hs
  · cases mid with
    | nil => exact .inr (by rw [← hmid]; exact List.suffix_rfl)
    | cons y mid =>
      obtain ⟨rfl, rfl⟩ := List.cons.inj hmid
      obtain ⟨up, hup⟩ := h
      have hnew : up ++ y :: mid = new :=
        List.append_cancel_right (by rw [List.append_assoc, List.cons_append]; exact hup)
      rw [← hnew]
      exact .inl (List.mem_append_right _ (.head _))

namespace Machine

variable {L₀ : Level} {m m' : Machine} {past : Machine → Prop}

def Recorded (past : Machine → Prop) (m : Machine) : Prop :=
  ∀ g N rest, (.frame g, N) :: rest <:+ m.tower → g.Recorded past N rest

theorem Orderly.recorded (h : m.Orderly L₀) (hr : m.Recorded past) (hp : past m) : m.step.Recorded past := by
  have hs' := h.step.sits
  have hold {up rest : List (Layer × Level)} {g : CallFrame} {N : Level} (hT : m.tower = up ++ (.frame g, N) :: rest) :
      g.Recorded past N rest ∧ g.Moored m.engine.global N := by
    have hsuffix : (.frame g, N) :: rest <:+ m.tower := ⟨up, hT.symm⟩
    exact ⟨hr g N rest hsuffix, h.moored g N (hsuffix.subset (.head _))⟩
  intro g₁ N₁ rest₁ hmem
  obtain ⟨τ, floor', r, L', hs₁⟩ := hs' g₁ N₁ (hmem.subset (.head _))
  cases h.turn with
  | @opens entry g g' callers c x f N' L σ floor s rest hc hi ho hd hT hT' hs hw hh hf =>
    rw [hT'] at hmem
    rcases List.suffix_cons_iff.mp hmem with heq | hmem
    · obtain ⟨hpair, rfl⟩ := List.cons.inj heq
      obtain ⟨hg, rfl⟩ := Prod.mk.inj hpair
      cases hg
      obtain ⟨hrec, hm⟩ := hold (hT.trans (List.nil_append _).symm)
      exact hrec.opens hp hc hi ho hd hT hs hm hw hs₁ hh hf
    · exact hr g₁ N₁ rest₁ (hmem.trans (by rw [hT]; exact List.suffix_cons _ _))
  | shifts ht =>
    cases ht with
    | @within up new rest g g' N N' L σ floor s hT hT' hs hw hh hn =>
      rw [hT'] at hmem
      rcases suffix_append_cases hmem with hnew | hmem
      · exact .of_nil (hn g₁ N₁ hnew).1
      rcases List.suffix_cons_iff.mp hmem with heq | hmem
      · obtain ⟨hpair, rfl⟩ := List.cons.inj heq
        obtain ⟨hg, rfl⟩ := Prod.mk.inj hpair
        cases hg
        obtain ⟨hrec, hm⟩ := hold hT
        exact hrec.works hs hm hw hs₁ hh
      · refine hr g₁ N₁ rest₁ (hmem.trans ?_)
        rw [hT]
        exact (List.suffix_cons _ _).trans (List.suffix_append _ _)
    | around hT hT' hn =>
      rw [hT'] at hmem
      rcases suffix_append_cases hmem with hnew | hmem
      · exact .of_nil (hn g₁ N₁ hnew).1
      · exact hr g₁ N₁ rest₁ (hmem.trans hT)

theorem Orderly.recorded_run (h : m.Orderly L₀) (h₀ : m.Recorded fun _ => False) (n : Nat) :
    (Machine.step^[n] m).Recorded fun tried => ∃ k < n, tried = Machine.step^[k] m := by
  induction n with
  | zero =>
    intro g N rest hmem
    exact (h₀ g N rest hmem).mono fun _ hF => hF.elim
  | succ n ih =>
    rw [Function.iterate_succ_apply']
    refine (h.run n).recorded ?_ ⟨n, Nat.lt_succ_self n, rfl⟩
    intro g N rest hmem
    refine (ih g N rest hmem).mono ?_
    rintro tried ⟨k, hk, rfl⟩
    exact ⟨k, Nat.lt_succ_of_lt hk, rfl⟩

theorem frames_inj {fs fs' : List CallFrame} {x x' : Entry} {ls ls' : List Layer}
    (h : fs.map .frame ++ .entry x :: ls = fs'.map .frame ++ .entry x' :: ls') : fs = fs' ∧ x = x' ∧ ls = ls' := by
  induction fs generalizing fs' with
  | nil =>
    cases fs' with
    | nil => simpa using h
    | cons f' fs' => simp at h
  | cons f fs ih =>
    cases fs' with
    | nil => simp at h
    | cons f' fs' =>
      simp only [List.map_cons, List.cons_append, List.cons.injEq, Layer.frame.injEq] at h
      obtain ⟨rfl, hx⟩ := ih h.2
      exact ⟨by rw [h.1], hx⟩

theorem layers_inj {ts ts' : List Task} (h : layers ts = layers ts') : ts = ts' := by
  induction ts generalizing ts' with
  | nil =>
    cases ts' with
    | nil => rfl
    | cons t' ts' => cases t' <;> simp [layers, Task.layers] at h
  | cons t ts ih =>
    cases ts' with
    | nil => cases t <;> simp [layers, Task.layers] at h
    | cons t' ts' =>
      simp only [layers, List.flatMap_cons] at h
      cases t with
      | guard scope =>
        cases t' with
        | guard scope' =>
          obtain ⟨hscope, hts⟩ := List.cons.inj h
          cases hscope
          rw [ih hts]
        | native base => cases (List.cons.inj h).1
        | loop entry frames => cases frames <;> cases (List.cons.inj h).1
      | native base =>
        cases t' with
        | guard scope' => cases (List.cons.inj h).1
        | native base' =>
          obtain ⟨hbase, hts⟩ := List.cons.inj h
          cases hbase
          rw [ih hts]
        | loop entry frames => cases frames <;> cases (List.cons.inj h).1
      | loop entry frames =>
        cases t' with
        | guard scope' => cases frames <;> cases (List.cons.inj h).1
        | native base' => cases frames <;> cases (List.cons.inj h).1
        | loop entry' frames' =>
          simp only [Task.layers, List.append_assoc, List.singleton_append] at h
          obtain ⟨rfl, rfl, hts⟩ := frames_inj h
          rw [ih hts]

/-- The machine `m` is back where the frame `g` at work in `tried` opened a try statement, about to
go on at the address `c`. The value `v` has come on top of the stack. -/
structure BackAt (tried : Machine) (entry : Entry) (g : CallFrame) (callers : List CallFrame) (c : Nat) (v : Value)
    (m : Machine) : Prop where
  control : m.control = .running entry ({ g with next := c } :: callers)
  tasks : m.tasks = tried.tasks
  size : m.engine.stack.size = tried.engine.stack.size + 1
  thrown : m.engine.stack.back? = some v
  stack : ∀ i < tried.engine.stack.size, g.completion ≠ some i → m.engine.stack[i]? = tried.engine.stack[i]?
  env : m.engine.env = tried.engine.env
  scopes : m.engine.scopes = tried.engine.scopes
  frames : m.engine.frames = tried.engine.frames
  trace : m.engine.trace.toList.map TraceEntry.place = tried.engine.trace.toList.map TraceEntry.place

namespace Remembers

variable {tried : Machine} {g g₁ g' : CallFrame} {callers cs : List CallFrame} {N L : Level} {h : Handler} {v : Value}
  {e' : Engine} {entry entry' : Entry} {tasks : List Task} {rest : List (Layer × Level)} {σ : Nat → Shape}
  {floor : Nat} {s : Shape}

theorem resumed_frame (hr : tried.Remembers g rest g₁ N [] h) (hx : g₁.Resumes floor h v N g' e'.level) :
    g' = { g with next := h.catchAt } := by
  obtain ⟨next, hg₁⟩ := hr.frame
  obtain ⟨next', hg'⟩ := hx.works.frame
  have hhand : g'.handlers = g.handlers := by
    have hall := hx.handlers
    rw [hg₁] at hall
    exact (List.cons.inj hall).2.symm
  have hnext : next' = h.catchAt := by
    rw [← hx.next, hg']
  rw [hg', hhand, hnext, hg₁]

theorem resumed_layers {M : Level} (hr : tried.Remembers g (ScriptEngine.tower (cs.map .frame ++ .entry entry :: layers tasks) M) g₁ N [] h)
    (hc : tried.control = .running entry' (g :: callers)) : cs = callers ∧ entry = entry' ∧ tasks = tried.tasks := by
  obtain ⟨e, ts, control⟩ := tried
  obtain rfl : control = _ := hc
  have hT := congrArg (List.map fun p : Layer × Level => p.1) hr.tower
  simp only [tower_running, List.map_cons, map_tower, List.cons_append, List.cons.injEq, true_and] at hT
  obtain ⟨hcs, hentry, hts⟩ := frames_inj hT
  exact ⟨hcs.symm, hentry.symm, (layers_inj hts).symm⟩

theorem resumed_level (hr : tried.Remembers g rest g₁ N [] h) (hx : g₁.Resumes floor h v N g' e'.level) :
    e'.level.frames = tried.engine.level.frames ∧ e'.level.scopes = tried.engine.level.scopes ∧
      e'.level.env = tried.engine.level.env := by
  obtain ⟨fs, f, hf, hlen, hmarks⟩ := hr.frames
  obtain rfl : fs = [] := List.length_eq_zero_iff.mp hlen
  obtain ⟨f', hf', hscopes, henv⟩ := hx.scope
  rw [List.nil_append, hf'] at hf
  obtain ⟨rfl, hframes⟩ := List.cons.inj hf
  refine ⟨hframes, ?_, henv.trans hmarks.env⟩
  have hlen := hr.chain.length_le
  simp only [Level.chain, List.length_append, List.length_singleton] at hlen
  have hpre : tried.engine.level.scopes <+: N.scopes ++ [N.env] := (List.prefix_append _ _).trans hr.chain
  rw [hscopes, hmarks.scopeDepth]
  have htake := take_of_initial hpre (Nat.le_refl _)
  rwa [List.take_append_of_le_length (by omega), List.take_length] at htake

theorem backAt {M : Level} (hr : tried.Remembers g (ScriptEngine.tower (cs.map .frame ++ .entry entry :: layers tasks) M) g₁ N [] h)
    (hc : tried.control = .running entry' (g :: callers)) (hs : g₁.Sits σ floor s L N)
    (hx : g₁.Resumes floor h v N g' e'.level) :
    entry = entry' ∧ tried.BackAt entry g callers h.catchAt v ⟨e', tasks, .running entry (g' :: cs)⟩ := by
  obtain ⟨rfl, rfl, rfl⟩ := hr.resumed_layers hc
  obtain ⟨hframes, hscopes, henv⟩ := hr.resumed_level hx
  obtain ⟨next, hg₁⟩ := hr.frame
  obtain ⟨low, hlow, hstack⟩ := hx.stack
  have hfloor := hr.floor_eq hs
  have hlist : e'.stack.toList = low ++ [v] := hstack
  refine ⟨rfl, by rw [hr.resumed_frame hx], rfl, ?_, ?_, ?_, henv, Array.toList_inj.mp hscopes, hframes, ?_⟩
  · rw [← length_stack, hstack, List.length_append, hlow, ← length_stack, hfloor]
    rfl
  · rw [← Array.getLast?_toList, hlist, List.getLast?_concat]
  · intro i hi hcomp
    rw [← length_stack, hfloor] at hi
    have hold := hr.stack i (by omega) hcomp
    have hnew := hx.works.stack i hi (by rwa [hg₁])
    rw [← Array.getElem?_toList, ← Array.getElem?_toList]
    exact hnew.trans hold
  · exact hx.works.places.trans hr.places

end Remembers

/-- An error that a catch clause takes leads back to where a frame opened the try statement of that
clause: the scope that is resumed is the one with the number given out then. -/
theorem catch_returns_to_try {e e₁ : Engine} {name source : String} {mode : LoadMode} {closure receiver : Value}
    {args : List Value} {n : Nat} {entry : Entry} {tasks : List Task} {error : Error} {s caught : Loop}
    (hh : e.heap.OnlyCompiled) (hl : load name source mode e = .ok closure e₁)
    (hs : Strikes (Machine.step^[n] ⟨e₁, [], .calling receiver closure args⟩) entry tasks error s)
    (hc : Loop.catch? error s.engine s.frames = some caught) :
    ∃ k < n, ∃ tried, tried = Machine.step^[k] ⟨e₁, [], .calling receiver closure args⟩ ∧
      ∃ g callers c x bound id, tried.control = .running entry (g :: callers) ∧
        g.unit.Clause g.next c x bound ∧ (g.completion ≠ none → g.unit.isScript = true) ∧
        id.serial = tried.engine.nextSerial ∧ (s.engine.unwind id error).2 = caught.engine ∧
        tried.BackAt entry g callers c (s.engine.exceptionValue error).1
          (Machine.step^[n + 1] ⟨e₁, [], .calling receiver closure args⟩) := by
  have hh₁ := hh.evolves ((load_ensures name source mode e).ok hl).1.heap
  have ho := Orderly.calling hh₁ receiver closure args
  generalize hm : (⟨e₁, [], .calling receiver closure args⟩ : Machine) = m₀ at *
  have hon := ho.run n
  obtain ⟨fl, hfits⟩ := hon.fits
  have hcaught := hfits.caught hon.compiled hs
  rw [hc] at hcaught
  rw [Function.iterate_succ_apply', hs.step, raise, hc]
  cases hcaught with
  | @intro up rest g₁ g' cs N e' σ floor r L h hT hrest hsits hx hu =>
    have hstart : m₀.Recorded fun _ => False := by
      subst hm
      exact fun _ _ _ hmem => absurd (List.suffix_nil.mp hmem) (List.cons_ne_nil _ _)
    have hrec := ho.recorded_run hstart n g₁ N rest ⟨up, hT.symm⟩
    obtain ⟨tried, g, ⟨k, hk, rfl⟩, hr⟩ := hrec [] h g'.handlers hx.handlers
    obtain ⟨entry', callers, hcontrol⟩ := hr.control
    rw [← hrest] at hr
    obtain ⟨rfl, hback⟩ := hr.backAt hcontrol hsits hx
    obtain ⟨next, hg₁⟩ := hr.frame
    have hunit : g.unit = g₁.unit := by rw [hg₁]
    obtain ⟨bound, hclause⟩ := CodeUnit.Compiled.clause (hunit ▸ hsits.compiled) hr.instr
    refine ⟨k, hk, _, rfl, g, callers, h.catchAt, h.exitAt, bound, h.scope, hcontrol, hclause, ?_, hr.serial, hu, hback⟩
    have hcompletion := hsits.completion
    rw [hg₁] at hcompletion
    intro hne
    by_contra hscript
    exact hne (by rw [hcompletion, if_neg hscript])

def answers : Machine → Bool
  | ⟨e, .loop _ frames :: _, .returning (.error error)⟩ => (Loop.catch? error e frames).isSome
  | _ => false

theorem catch_returns_to_try_around_eval :
    ∃ e closure e₁ entry tasks error s caught, create? .none {} = some e ∧
      load "sample" "var t = 'g();'; function f() { eval(t); } try { f(); } catch (e) { e; }" .program e = .ok closure e₁ ∧
      Strikes (Machine.step^[17] ⟨e₁, [], .calling .undefined closure []⟩) entry tasks error s ∧
      Loop.catch? error s.engine s.frames = some caught ∧
      ∃ k < 17, ∃ tried, tried = Machine.step^[k] ⟨e₁, [], .calling .undefined closure []⟩ ∧
        ∃ g callers c x bound id, tried.control = .running entry (g :: callers) ∧
          g.unit.Clause g.next c x bound ∧ (g.completion ≠ none → g.unit.isScript = true) ∧
          id.serial = tried.engine.nextSerial ∧ (s.engine.unwind id error).2 = caught.engine ∧
          tried.BackAt entry g callers c (s.engine.exceptionValue error).1
            (Machine.step^[18] ⟨e₁, [], .calling .undefined closure []⟩) := by
  have hok : (create? .none {}).any (fun e =>
      (valueOf? (load "sample" "var t = 'g();'; function f() { eval(t); } try { f(); } catch (e) { e; }" .program e)).any fun r =>
        (Machine.step^[17] ⟨r.2, [], .calling .undefined r.1 []⟩).answers) = true := by decide +kernel
  obtain ⟨e, he, hl⟩ := (Option.any_eq_true _ _).mp hok
  obtain ⟨⟨closure, e₁⟩, hv, hstruck⟩ := (Option.any_eq_true _ _).mp hl
  have hload := eq_ok_of_valueOf? hv
  unfold answers at hstruck
  split at hstruck
  · rename_i e' entry frames tasks error hm
    obtain ⟨caught, hc⟩ := Option.isSome_iff_exists.mp hstruck
    have hs : Strikes (Machine.step^[17] ⟨e₁, [], .calling .undefined closure []⟩) entry tasks error ⟨e', frames⟩ := by
      rw [hm]
      exact .handed
    exact ⟨e, closure, e₁, entry, tasks, error, _, caught, he, hload, hs, hc,
      catch_returns_to_try (onlyCompiled_create he) hload hs hc⟩
  · cases hstruck

end Machine

end ScriptEngine
