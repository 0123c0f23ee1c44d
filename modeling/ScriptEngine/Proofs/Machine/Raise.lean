import ScriptEngine.Proofs.Machine.Layout

namespace ScriptEngine

theorem Level.Beneath.cut_scopes {L M : Level} (h : L.Beneath M) :
    M.scopes.take L.scopes.length = L.scopes ∧ M.scopes[L.scopes.length]?.getD M.env = L.env := by
  obtain ⟨rest, hr⟩ := h.scopes
  rcases List.eq_nil_or_concat rest with rfl | ⟨rest, last, rfl⟩
  · rw [List.append_nil] at hr
    obtain ⟨hs, he⟩ := List.append_inj' hr rfl
    rw [hs]
    exact ⟨List.take_length, by simpa using he.symm⟩
  · rw [List.concat_eq_append, ← List.append_assoc] at hr
    obtain ⟨hs, _⟩ := List.append_inj' hr rfl
    rw [← hs]
    simp

theorem take_of_initial {α : Type} {l m : List α} {n : Nat} (h : l <+: m) (hn : n ≤ l.length) :
    m.take n = l.take n := by
  obtain ⟨rest, rfl⟩ := h
  rw [List.take_append_of_le_length hn]

inductive Loop.Runs (L₀ : Level) (ls : List Layer) : List Nat → Loop → Prop
  | intro {e : Engine} {frame : CallFrame} {callers : List CallFrame} {fl : List Nat} {L : Level}
      {σ : Nat → Shape} {floor : Nat} {s : Shape} :
      Stacked L₀ (callers.map .frame ++ ls) fl L → frame.Sits σ floor s L e.level →
        frame.Awaits σ floor s 0 e.level → Runs L₀ ls (floor :: fl) ⟨e, frame :: callers⟩
  | idle {e : Engine} {fl : List Nat} {L : Level} {extra : List Value} :
      Stacked L₀ ls fl L → e.level = { L with stack := L.stack ++ extra } → Runs L₀ ls fl ⟨e, []⟩

inductive Loop.Struck (L₀ : Level) (ls : List Layer) : List Nat → Loop → Prop
  | inside {e : Engine} {frame : CallFrame} {callers : List CallFrame} {fl : List Nat} {L : Level}
      {σ : Nat → Shape} {floor : Nat} {s : Shape} :
      Stacked L₀ (callers.map .frame ++ ls) fl L → frame.Sits σ floor s L e.level →
        Struck L₀ ls (floor :: fl) ⟨e, frame :: callers⟩
  | outside {e : Engine} {frames : List CallFrame} {fl : List Nat} {L : Level} :
      Stacked L₀ (frames.map .frame ++ ls) fl L → L.Beneath e.level → Struck L₀ ls fl ⟨e, frames⟩

def Loop.Taken (L₀ : Level) (ls : List Layer) (fl : List Nat) (e : Engine) : Option Loop → Prop
  | some s => e.Ages 1 s.engine ∧ ∃ fl', fl' <:+ fl ∧ Runs L₀ ls fl' s
  | none => ∃ fl' L, fl' <:+ fl ∧ Stacked L₀ ls fl' L ∧ L.Beneath e.level

theorem CallFrame.Sits.caught {frame : CallFrame} {σ : Nat → Shape} {floor : Nat} {s : Shape}
    {L M : Level} {e : Engine} {handler : Handler} {handlers : List Handler}
    (h : frame.Sits σ floor s L M) (hb : M.Beneath e.level) (hh : frame.handlers = handler :: handlers)
    (error : Error) :
    ∃ r e', e.unwind handler.scope error = (error, e') ∧ e.Ages 1 e' ∧
      { frame with handlers, next := handler.catchAt }.Sits σ floor r L e'.level ∧
      { frame with handlers, next := handler.catchAt }.Awaits σ floor r 0 e'.level := by
  obtain ⟨fs, hfs, hcov⟩ := h.tries
  obtain ⟨t, ht⟩ := h.trace
  obtain ⟨cs, hcs, hsc⟩ := h.scopes
  rw [hh] at hcov
  generalize htries : s.tries = tries at hcov
  cases hcov with
  | @cons _ try₁ f _ ts fs hc hf1 hf2 hf3 hle hσ hrest =>
    have hfound : Engine.findFrame f.id e.frames = some (f, fs ++ L.frames) := by
      rw [show e.frames = f :: (fs ++ L.frames) from hb.frames.trans hfs]
      exact Engine.findFrame_top f _
    obtain ⟨v, e', hu, ha, hl⟩ := Engine.unwind_found hfound error
    have htrace : e'.level.trace = M.trace := by
      rw [hl]
      show e.level.trace.take (max f.traceDepth 1) = M.trace
      rw [hf2, Nat.max_eq_left (by simp [ht]), take_of_initial hb.trace (Nat.le_refl _), List.take_length]
    have hstack : e'.level.stack = M.stack.take floor ++ [v] := by
      rw [hl]
      show e.level.stack.take f.stackDepth ++ [v] = _
      rw [hf1, take_of_initial hb.stack h.floor_le]
    have hscopes : e'.level.scopes = L.scopes ++ L.env :: cs.take try₁.catches := by
      have hle : f.scopeDepth ≤ M.scopes.length := by
        rw [hf3, hsc]
        simp only [List.length_append, List.length_cons]
        omega
      have hM : M.scopes <+: e.level.scopes := by
        rw [← hb.cut_scopes.1]
        exact List.take_prefix ..
      rw [hl]
      show e.level.scopes.take f.scopeDepth = _
      rw [take_of_initial hM hle, hsc, hf3, List.take_append, List.take_of_length_le (by omega),
        show L.scopes.length + 1 + try₁.catches - L.scopes.length = try₁.catches + 1 by omega,
        List.take_succ_cons]
    have hlen : (M.stack.take floor).length = floor := by simp [h.floor_le]
    refine ⟨⟨1, ts, try₁.catches⟩, e', hu, ha, ?_, hle, hσ, ?_⟩
    · refine ⟨h.compiled, h.shaped, h.base, h.call, h.completion, ?_, ?_, ⟨t, htrace.trans ht⟩, h.saved,
        ⟨cs.take try₁.catches, ?_, hscopes⟩, ⟨fs, by rw [hl], ?_⟩, ?_⟩
      · rw [hstack]
        have htake : M.stack.take floor <+: M.stack := List.take_prefix ..
        exact (List.prefix_of_prefix_length_le h.stack htake (by rw [hlen]; exact h.base_le)).trans (List.prefix_append ..)
      · rw [hstack, List.length_append, hlen]
        omega
      · show (cs.take try₁.catches).length = try₁.catches
        rw [List.length_take]
        omega
      · rw [htrace]
        exact hrest
      · rw [hl]
        exact hb.loops.trans h.loops
    · rw [hstack, List.length_append, hlen]
      rfl

namespace Loop

variable {L₀ L : Level} {ls : List Layer} {fl : List Nat} {e : Engine}

theorem catch?_cons {frame : CallFrame} {callers : List CallFrame} {σ : Nat → Shape} {floor : Nat}
    {s : Shape} {M : Level} {error : Error} (hst : Stacked L₀ (callers.map .frame ++ ls) fl L)
    (hs : frame.Sits σ floor s L M) (hb : M.Beneath e.level)
    (ih : L.Beneath e.level → Taken L₀ ls fl e (catch? error e callers)) :
    Taken L₀ ls (floor :: fl) e (catch? error e (frame :: callers)) := by
  cases hh : frame.handlers with
  | nil =>
    have hrest := ih ((hs.beneath hh).trans hb)
    simp only [catch?, hh]
    cases hc : catch? error e callers with
    | some s' =>
      rw [hc] at hrest
      obtain ⟨ha, fl', hfl, hr⟩ := hrest
      exact ⟨ha, fl', hfl.trans (List.suffix_cons ..), hr⟩
    | none =>
      rw [hc] at hrest
      obtain ⟨fl', L', hfl, hr⟩ := hrest
      exact ⟨fl', L', hfl.trans (List.suffix_cons ..), hr⟩
  | cons handler handlers =>
    obtain ⟨r, e', hu, ha, hs', hw⟩ := hs.caught hb hh error
    simp only [catch?, hh, hu]
    exact ⟨ha, floor :: fl, List.suffix_rfl, .intro hst hs' hw⟩

theorem catch?_outside {frames : List CallFrame} {error : Error}
    (hst : Stacked L₀ (frames.map .frame ++ ls) fl L) (hb : L.Beneath e.level) :
    Taken L₀ ls fl e (catch? error e frames) := by
  induction frames generalizing fl L with
  | nil => exact ⟨fl, L, List.suffix_rfl, hst, hb⟩
  | cons frame callers ih =>
    cases hst with
    | frame hst hs _ => exact catch?_cons hst hs hb fun hb' => ih hst hb'

theorem catch?_struck {error : Error} {s : Loop} (h : Struck L₀ ls fl s) :
    Taken L₀ ls fl s.engine (catch? error s.engine s.frames) := by
  cases h with
  | inside hst hs => exact catch?_cons hst hs (.refl _) fun hb => catch?_outside hst hb
  | outside hst hb => exact catch?_outside hst hb

end Loop

namespace Machine

open Engine

def layers (tasks : List Task) : List Layer :=
  tasks.flatMap Task.layers

/-- The machine at work on the level `L₀`. An error waits at the level of its call; above it there
are values left only if a protected scope is about to cut them off. -/
def Fits (L₀ : Level) (fl : List Nat) : Machine → Prop
  | ⟨e, tasks, .running entry frames⟩ => Loop.Runs L₀ (.entry entry :: layers tasks) fl ⟨e, frames⟩
  | ⟨e, tasks, .calling _ _ _⟩ | ⟨e, tasks, .returning (.ok _)⟩ => Stacked L₀ (layers tasks) fl e.level
  | ⟨e, tasks, .returning (.error error)⟩ =>
    error.isInternal = false ∧ ∃ L extra, Stacked L₀ (layers tasks) fl L ∧
      e.level = { L with stack := L.stack ++ extra } ∧
      (extra = [] ∨ ∃ scope rest, tasks = .guard scope :: rest)

theorem failLoop_spec {L : Level} {e : Engine} (error : Error)
    (hb : Level.Beneath { L with loops := L.loops + 1 } e.level) :
    ∃ error' e', failLoop ⟨L.stack.length, L.scopes.length, L.trace.length⟩ error e = (error', e') ∧
      error'.isInternal = error.isInternal ∧ e.Ages 0 e' ∧ e'.level = L := by
  have hcut (h : Heap) : (cutStack L.stack.length
      (let e := cutScopes L.scopes.length { e with loops := e.loops - 1, heap := h }
       { e with trace := e.trace.shrink L.trace.length })).level = L := by
    have hloops : e.loops - 1 = L.loops := by
      rw [show e.loops = L.loops + 1 from hb.loops, Nat.add_sub_cancel]
    have hframes : e.frames = L.frames := hb.frames
    have hscopes := hb.cut_scopes
    have hstack := take_of_initial hb.stack (Nat.le_refl _)
    have htrace := take_of_initial hb.trace (Nat.le_refl _)
    simp only [level, cutStack, cutScopes, Array.toList_shrink, List.take_length] at hscopes hstack htrace ⊢
    simp only [hloops, hframes, hscopes.1, hstack, htrace, ← Array.getElem?_toList, hscopes.2]
  cases hc : error.carried? with
  | some value =>
    refine ⟨error, _, ?_, rfl, ?_, hcut e.heap⟩
    · simp only [failLoop, hc]
    · exact ⟨.refl, Nat.le_refl _, rfl⟩
  | none =>
    obtain ⟨v, h, hh, hv⟩ := exceptionValue_spec error { e with loops := e.loops - 1 }
    refine ⟨.rethrown v error, _, ?_, rfl, ?_, hcut h⟩
    · simp only [failLoop, hc, hv]
    · exact ⟨hh, Nat.le_refl _, rfl⟩

theorem raise_fits {L₀ : Level} {fl : List Nat} {entry : Entry} {tasks : List Task} {error : Error}
    {s : Loop} (hs : Loop.Struck L₀ (.entry entry :: layers tasks) fl s) (hi : error.isInternal = false) :
    s.engine.Ages 1 (raise entry error tasks s).engine ∧
      ∃ fl', fl' <:+ fl ∧ Fits L₀ fl' (raise entry error tasks s) := by
  have ht : Loop.Taken _ _ _ _ (Loop.catch? error s.engine s.frames) := Loop.catch?_struck hs
  cases hc : Loop.catch? error s.engine s.frames with
  | some s' =>
    rw [hc] at ht
    obtain ⟨ha, fl', hfl, hr⟩ := ht
    simp only [raise, hc]
    exact ⟨ha, fl', hfl, hr⟩
  | none =>
    rw [hc] at ht
    obtain ⟨fl', L, hfl, hst, hb⟩ := ht
    cases hst with
    | @entry _ _ L hst =>
      obtain ⟨error', e', hf, hi', ha, hl⟩ := failLoop_spec error hb
      simp only [raise, hc, hf]
      refine ⟨ha.mono (by omega), fl', hfl, hi'.trans hi, L, [], hst, ?_, .inl rfl⟩
      rw [hl, List.append_nil]

end Machine

end ScriptEngine
