import ScriptEngine.Proofs.Machine.Instruction
import ScriptEngine.Proofs.Machine.Raise

namespace ScriptEngine

theorem Ensures.within {α : Type} {x : EngineM α} {Q : α → Loop → Prop} {R : Error → Loop → Prop}
    {e : Engine} {frames : List CallFrame}
    (h : Ensures x (fun a e' => Q a ⟨e', frames⟩) (fun error e' => R error ⟨e', frames⟩) e) :
    Ensures (Loop.within x) Q R ⟨e, frames⟩ := by
  unfold Ensures at h ⊢
  unfold Loop.within
  split at h
  · rename_i hx
    simpa [hx] using h
  · rename_i hx
    simpa [hx] using h

theorem exists_split {α : Type} {l : List α} {n : Nat} (h : n ≤ l.length) :
    ∃ low ops, l = low ++ ops ∧ ops.length = n ∧ low.length = l.length - n :=
  ⟨l.take (l.length - n), l.drop (l.length - n), (List.take_append_drop ..).symm, by simp; omega, by simp⟩

namespace Loop

open Engine

def Moves (fl fl' : List Nat) (s : Loop) : Prop :=
  fl' <:+ fl ∨ fl' = s.engine.level.stack.length :: fl

def Steps (L₀ : Level) (ls : List Layer) (fl : List Nat) (e : Engine) : Signal → Loop → Prop
  | .proceed, s => e.Ages 1 s.engine ∧ ∃ fl', Moves fl fl' s ∧ Runs L₀ ls fl' s
  | .finished _, s => e.Ages 1 s.engine ∧ ∃ fl' L extra, fl' <:+ fl ∧ Stacked L₀ ls fl' L ∧
      s.engine.level = { L with stack := L.stack ++ extra }
  | .evaluate _ base, s =>
    e.Ages 1 s.engine ∧ Stacked L₀ (.native base :: (s.frames.map .frame ++ ls)) fl s.engine.level

def Fails (L₀ : Level) (ls : List Layer) (fl : List Nat) (e : Engine) (error : Error) (s : Loop) : Prop :=
  error.isInternal = false ∧ e.Ages 1 s.engine ∧ ∃ fl', fl' <:+ fl ∧ Struck L₀ ls fl' s

theorem Steps.since {L₀ : Level} {ls : List Layer} {fl : List Nat} {e₀ e : Engine} {signal : Signal}
    {s : Loop} (h : Steps L₀ ls fl e signal s) (ha : e₀.Ages 0 e) : Steps L₀ ls fl e₀ signal s := by
  cases signal <;> exact ⟨ha.after h.1, h.2⟩

theorem Fails.since {L₀ : Level} {ls : List Layer} {fl : List Nat} {e₀ e : Engine} {error : Error}
    {s : Loop} (h : Fails L₀ ls fl e error s) (ha : e₀.Ages 0 e) : Fails L₀ ls fl e₀ error s :=
  ⟨h.1, ha.after h.2.1, h.2.2⟩

structure Faces (L₀ : Level) (ls : List Layer) (fl : List Nat) (σ : Nat → Shape) (floor : Nat) (s : Shape)
    (L : Level) (e : Engine) (frame : CallFrame) (callers : List CallFrame) (instr : Instr) : Prop where
  compiled : e.heap.OnlyCompiled
  stacked : Stacked L₀ (callers.map .frame ++ ls) fl L
  sits : frame.Sits σ floor s L e.level
  height : e.level.stack.length = floor + s.height
  flows : ∃ a, frame.next = a + 1 ∧ instr.Flows frame.unit.functions.length frame.unit.isScript a s
    fun t r => t ≤ frame.unit.code.size ∧ σ t = r

namespace Faces

variable {L₀ L : Level} {ls : List Layer} {fl : List Nat} {σ : Nat → Shape} {floor : Nat} {s r : Shape}
  {e e' : Engine} {frame : CallFrame} {callers : List CallFrame} {instr : Instr}

theorem split (h : Faces L₀ ls fl σ floor s L e frame callers instr) {n : Nat} (hn : n ≤ s.height) :
    ∃ low ops, e = e.reset (low ++ ops) e.heap ∧ ops.length = n ∧ low <+: e.level.stack ∧
      low.length = floor + (s.height - n) := by
  have hlen := h.height
  obtain ⟨low, ops, hl, ho, hlow⟩ := exists_split (l := e.level.stack) (n := n) (by omega)
  refine ⟨low, ops, ?_, ho, ⟨ops, hl.symm⟩, by omega⟩
  rw [← hl]
  rfl

theorem runs (h : Faces L₀ ls fl σ floor s L e frame callers instr) {t : Nat}
    (ht : t ≤ frame.unit.code.size ∧ σ t = r) (hs : frame.Sits σ floor r L e'.level)
    (hh : e'.level.stack.length = floor + r.height) :
    Runs L₀ ls (floor :: fl) ⟨e', { frame with next := t } :: callers⟩ :=
  .intro h.stacked (hs.goto t) ⟨ht.1, ht.2, hh⟩

theorem settles (h : Faces L₀ ls fl σ floor s L e frame callers instr) {low : List Value} {n : Nat}
    (hp : low <+: e.level.stack) (hl : low.length = floor + (s.height - n))
    {k : Nat} (he : e.Settles low k e') :
    e.Ages 1 e' ∧ frame.Sits σ floor (s.after n k) L e'.level ∧
      e'.level.stack.length = floor + (s.after n k).height := by
  obtain ⟨out, heap, ho, rfl, hh⟩ := he
  refine ⟨(ages_reset hh).mono (by omega), ?_, ?_⟩
  · rw [level_reset]
    exact h.sits.restack hp (by omega) out _ rfl rfl
  · rw [level_reset]
    simp only [List.length_append, Shape.after]
    omega

theorem disturbed (h : Faces L₀ ls fl σ floor s L e frame callers instr) {low : List Value}
    (hp : low <+: e.level.stack) (hl : floor ≤ low.length) {error : Error}
    (he : e.Disturbed low error e') :
    Fails L₀ ls (floor :: fl) e error ⟨e', frame :: callers⟩ := by
  obtain ⟨hi, extra, heap, rfl, hh⟩ := he
  have hs : frame.Sits σ floor s L (e.reset (low ++ extra) heap).level :=
    h.sits.restack hp hl extra s rfl rfl
  exact ⟨hi, (ages_reset hh).mono (by omega), _, List.suffix_rfl, .inside h.stacked hs⟩

theorem proceeds (h : Faces L₀ ls fl σ floor s L e frame callers instr)
    (hr : frame.next ≤ frame.unit.code.size ∧ σ frame.next = r) (ha : e.Ages 1 e')
    (hs : frame.Sits σ floor r L e'.level) (hh : e'.level.stack.length = floor + r.height) :
    Steps L₀ ls (floor :: fl) e .proceed ⟨e', frame :: callers⟩ :=
  ⟨ha, floor :: fl, .inl List.suffix_rfl, h.runs hr hs hh⟩

theorem jumps (h : Faces L₀ ls fl σ floor s L e frame callers instr) {t : Nat}
    (ht : t ≤ frame.unit.code.size ∧ σ t = r) (ha : e.Ages 1 e')
    (hs : frame.Sits σ floor r L e'.level) (hh : e'.level.stack.length = floor + r.height) :
    Steps L₀ ls (floor :: fl) e .proceed ⟨e', { frame with next := t } :: callers⟩ :=
  ⟨ha, floor :: fl, .inl List.suffix_rfl, h.runs ht hs hh⟩

theorem plain (h : Faces L₀ ls fl σ floor s L e frame callers instr) (hp : instr.isPlain = true)
    (hc : ∀ n, instr ≠ .call n) :
    Ensures (within (simple frame instr) >>= fun _ => Pure.pure .proceed) (Steps L₀ ls (floor :: fl) e)
      (Fails L₀ ls (floor :: fl) e) ⟨e, frame :: callers⟩ := by
  obtain ⟨a, hn, hf⟩ := h.flows
  obtain ⟨hle, hE⟩ := (Instr.flows_of_isPlain hp).mp hf
  obtain ⟨low, ops, he, ho, hpre, hlow⟩ := h.split hle
  have hx := simple_ensures frame e low .refl ho hp hc
  rw [← he] at hx
  refine .bind (.within (hx.mono (fun _ e' hset => .pure ?_) fun error e' hd => ?_))
  · obtain ⟨ha, hs, hh⟩ := h.settles hpre hlow hset
    exact h.proceeds (hn ▸ hE) ha hs hh
  · exact h.disturbed hpre (by omega) hd

theorem closure {i : Nat} (h : Faces L₀ ls fl σ floor s L e frame callers (.closure i)) :
    Ensures (execute frame callers (.closure i)) (Steps L₀ ls (floor :: fl) e)
      (Fails L₀ ls (floor :: fl) e) ⟨e, frame :: callers⟩ := by
  obtain ⟨a, hn, hi, hE⟩ := h.flows
  have hx := closure_ensures frame e e.level.stack .refl h.sits.compiled hi
  refine .bind (.within (hx.mono (fun _ e' hset => .pure ?_) fun error e' hd => ?_))
  · obtain ⟨ha, hs, hh⟩ := h.settles (n := 0) List.prefix_rfl h.height hset
    exact h.proceeds (hn ▸ hE) ha hs hh
  · exact h.disturbed List.prefix_rfl h.sits.floor_le hd

theorem throw (h : Faces L₀ ls fl σ floor s L e frame callers .throw) :
    Ensures (execute frame callers .throw) (Steps L₀ ls (floor :: fl) e)
      (Fails L₀ ls (floor :: fl) e) ⟨e, frame :: callers⟩ := by
  obtain ⟨a, hn, hle⟩ := h.flows
  obtain ⟨low, ops, he, ho, hpre, hlow⟩ := h.split hle
  obtain ⟨v, rfl⟩ := List.length_eq_one_iff.mp ho
  have hx := throw_ensures frame e low (v := v) .refl
  rw [← he] at hx
  refine .bind (.within (hx.mono (fun _ e' hF => hF.elim) fun error e' hd => ?_))
  exact h.disturbed hpre (by omega) hd

theorem setCompletion (h : Faces L₀ ls fl σ floor s L e frame callers .setCompletion) :
    Ensures (execute frame callers .setCompletion) (Steps L₀ ls (floor :: fl) e)
      (Fails L₀ ls (floor :: fl) e) ⟨e, frame :: callers⟩ := by
  obtain ⟨a, hn, hscript, hle, hE⟩ := h.flows
  obtain ⟨low, ops, he, ho, hpre, hlow⟩ := h.split hle
  obtain ⟨v, rfl⟩ := List.length_eq_one_iff.mp ho
  have hslot : frame.completion = some (floor - 1) := by
    rw [h.sits.completion, hscript]
    rfl
  have hx := setCompletion_ensures frame e low (h := e.heap) (v := v)
    (R := fun error e' => Fails L₀ ls (floor :: fl) e error ⟨e', frame :: callers⟩) hslot
  rw [← he] at hx
  refine .bind (.within (hx.mono (fun _ e' he' => .pure ?_) fun error e' hd => hd))
  obtain ⟨argc, hfloor⟩ := h.sits.call
  rw [hscript, if_pos rfl, h.sits.base] at hfloor
  -- The slot lies above the callee, so that the level below the call stays.
  have hlevel : e'.level = { e.level with stack := low.take (floor - 1) ++ (v :: low.drop floor) } := by
    rw [he', level_reset, List.set_eq_take_append_cons_drop, if_pos (by omega),
      show floor - 1 + 1 = floor by omega]
  have hlen : (low.take (floor - 1) ++ (v :: low.drop floor)).length = low.length := by
    simp only [List.length_append, List.length_take, List.length_cons, List.length_drop]
    omega
  have hs : frame.Sits σ floor (s.after 1 0) L e'.level := by
    rw [hlevel]
    refine ⟨h.sits.compiled, h.sits.shaped, h.sits.base, h.sits.call, h.sits.completion, ?_, ?_,
      h.sits.trace, h.sits.saved, h.sits.scopes, h.sits.tries, h.sits.loops⟩
    · have htake : low.take (floor - 1) <+: low := List.take_prefix ..
      refine (List.prefix_of_prefix_length_le h.sits.stack (htake.trans hpre) ?_).trans
        (List.prefix_append ..)
      rw [List.length_take]
      omega
    · rw [hlen]
      omega
  refine h.proceeds (hn ▸ hE) ?_ hs ?_
  · rw [he']
    exact ages_reset .refl
  · rw [hlevel, hlen, hlow]
    rfl

theorem enterCatch {name : String} (h : Faces L₀ ls fl σ floor s L e frame callers (.enterCatch name)) :
    Ensures (execute frame callers (.enterCatch name)) (Steps L₀ ls (floor :: fl) e)
      (Fails L₀ ls (floor :: fl) e) ⟨e, frame :: callers⟩ := by
  obtain ⟨a, hn, hle, hE⟩ := h.flows
  obtain ⟨low, ops, he, ho, hpre, hlow⟩ := h.split hle
  obtain ⟨v, rfl⟩ := List.length_eq_one_iff.mp ho
  have hx := enterCatch_ensures frame e low name (v := v) .refl
  rw [← he] at hx
  refine .bind (.within (hx.mono (fun _ e' he' => .pure ?_) fun error e' hd => ?_))
  · obtain ⟨env, heap, hh, rfl⟩ := he'
    obtain ⟨cs, hcs, hsc⟩ := h.sits.scopes
    obtain ⟨fs, hfs, hcov⟩ := h.sits.tries
    have hs := h.sits.restack hpre (by omega) [] s rfl rfl
    have hs' := hs.rescope (r := { s.after 1 0 with catches := s.catches + 1 }) (cs ++ [e.env]) env
      (by simp [hcs]) rfl fun t ht => Nat.le_succ_of_le (hcov.nested t ht)
    have hlevel : ((e.reset low heap).enterScope env).level =
        { e.level with
          stack := low ++ [], scopes := L.scopes ++ L.env :: (cs ++ [e.env]), env } := by
      simp only [level] at hsc
      simp [level, enterScope, reset, hsc]
    rw [← hlevel] at hs'
    refine h.proceeds (hn ▸ hE) ⟨hh.mono (by omega), Nat.le_refl _, rfl⟩ hs' ?_
    rw [hlevel, List.append_nil]
    simpa [Shape.after] using hlow
  · exact h.disturbed hpre (by omega) hd

theorem exitCatch (h : Faces L₀ ls fl σ floor s L e frame callers .exitCatch) :
    Ensures (execute frame callers .exitCatch) (Steps L₀ ls (floor :: fl) e)
      (Fails L₀ ls (floor :: fl) e) ⟨e, frame :: callers⟩ := by
  obtain ⟨a, hn, hle, hlt, hE⟩ := h.flows
  obtain ⟨cs, hcs, hsc⟩ := h.sits.scopes
  obtain ⟨cs, env, rfl⟩ : ∃ cs' env, cs = cs' ++ [env] := by
    rcases List.eq_nil_or_concat cs with rfl | ⟨cs', env, rfl⟩
    · simp only [List.length_nil] at hcs
      omega
    · exact ⟨cs', env, List.concat_eq_append⟩
  rw [List.length_append, List.length_singleton] at hcs
  have hs := h.sits.rescope (r := { s with catches := s.catches - 1 }) cs env
    (by simp only; omega) rfl fun t ht => Nat.le_sub_one_of_lt (hlt t ht)
  have hlevel : e.leaveScope.level = { e.level with scopes := L.scopes ++ L.env :: cs, env } := by
    have hsc' : e.scopes.toList = (L.scopes ++ L.env :: cs) ++ [env] := by
      simpa [level] using hsc
    have hback : e.scopes.back? = some env := by
      rw [← Array.getLast?_toList, hsc', List.getLast?_concat]
    simp only [leaveScope, hback, level, Array.toList_pop, hsc', List.dropLast_concat]
  have hages : e.Ages 1 e.leaveScope := by
    simp only [leaveScope]
    split
    · exact ⟨.refl, Nat.le_refl _, rfl⟩
    · exact .refl
  refine .bind (.within (.modified (.pure ?_)))
  rw [← hlevel] at hs
  refine h.proceeds (hn ▸ hE) hages hs ?_
  rw [hlevel]
  exact h.height

theorem jump {t : Nat} (h : Faces L₀ ls fl σ floor s L e frame callers (.jump t)) :
    Ensures (execute frame callers (.jump t)) (Steps L₀ ls (floor :: fl) e)
      (Fails L₀ ls (floor :: fl) e) ⟨e, frame :: callers⟩ := by
  obtain ⟨a, hn, hE⟩ := h.flows
  exact .bind (.modified (.pure (h.jumps hE .refl h.sits h.height)))

theorem popped (h : Faces L₀ ls fl σ floor s L e frame callers instr) (hle : 1 ≤ s.height) :
    ∃ v e₁, Engine.popped e = .ok v e₁ ∧ Engine.peek e = .ok v e ∧ e.Ages 1 e₁ ∧
      frame.Sits σ floor (s.after 1 0) L e₁.level ∧
      e₁.level.stack.length = floor + (s.after 1 0).height := by
  obtain ⟨low, ops, he, ho, hpre, hlow⟩ := h.split hle
  obtain ⟨v, rfl⟩ := List.length_eq_one_iff.mp ho
  have hs := h.sits.restack hpre (by omega) [] (s.after 1 0) rfl rfl
  rw [List.append_nil] at hs
  have hpop : Engine.popped e = .ok v (e.reset low e.heap) := by
    apply Ensures.eq_ok
    rw [he]
    exact .popped ⟨rfl, rfl⟩
  have hpeek : Engine.peek e = .ok v e := by
    apply Ensures.eq_ok
    rw [he]
    exact .peek ⟨rfl, rfl⟩
  exact ⟨v, e.reset low e.heap, hpop, hpeek, ages_reset .refl, hs, by
    simpa [Shape.after, level_reset] using hlow⟩

theorem jumpIfFalse {t : Nat} (h : Faces L₀ ls fl σ floor s L e frame callers (.jumpIfFalse t)) :
    Ensures (execute frame callers (.jumpIfFalse t)) (Steps L₀ ls (floor :: fl) e)
      (Fails L₀ ls (floor :: fl) e) ⟨e, frame :: callers⟩ := by
  obtain ⟨a, hn, hle, hE, hE'⟩ := h.flows
  obtain ⟨v, e₁, hpop, -, ha, hs, hh⟩ := h.popped hle
  refine .bind (.within (Ensures.of_ok hpop ?_))
  split
  · exact .bind (.modified (.pure (h.jumps hE ha hs hh)))
  · exact .bind (.pure (.pure (h.proceeds (hn ▸ hE') ha hs hh)))

theorem jumpIfFalseKeep {t : Nat} (h : Faces L₀ ls fl σ floor s L e frame callers (.jumpIfFalseKeep t)) :
    Ensures (execute frame callers (.jumpIfFalseKeep t)) (Steps L₀ ls (floor :: fl) e)
      (Fails L₀ ls (floor :: fl) e) ⟨e, frame :: callers⟩ := by
  obtain ⟨a, hn, hle, hE, hE'⟩ := h.flows
  obtain ⟨v, e₁, hpop, hpeek, ha, hs, hh⟩ := h.popped hle
  refine .bind (.within (Ensures.of_ok hpeek ?_))
  split
  · exact .bind (.bind (.within (Ensures.of_ok hpop (.pure (.pure (h.proceeds (hn ▸ hE') ha hs hh))))))
  · exact .bind (.modified (.pure (h.jumps hE .refl h.sits h.height)))

theorem jumpIfTrueKeep {t : Nat} (h : Faces L₀ ls fl σ floor s L e frame callers (.jumpIfTrueKeep t)) :
    Ensures (execute frame callers (.jumpIfTrueKeep t)) (Steps L₀ ls (floor :: fl) e)
      (Fails L₀ ls (floor :: fl) e) ⟨e, frame :: callers⟩ := by
  obtain ⟨a, hn, hle, hE, hE'⟩ := h.flows
  obtain ⟨v, e₁, hpop, hpeek, ha, hs, hh⟩ := h.popped hle
  refine .bind (.within (Ensures.of_ok hpeek ?_))
  split
  · exact .bind (.modified (.pure (h.jumps hE .refl h.sits h.height)))
  · exact .bind (.bind (.within (Ensures.of_ok hpop (.pure (.pure (h.proceeds (hn ▸ hE') ha hs hh))))))

theorem openTry {c x : Nat} (h : Faces L₀ ls fl σ floor s L e frame callers (.try c x)) :
    Ensures (execute frame callers (.try c x)) (Steps L₀ ls (floor :: fl) e)
      (Fails L₀ ls (floor :: fl) e) ⟨e, frame :: callers⟩ := by
  obtain ⟨a, hn, hzero, hE, hE'⟩ := h.flows
  refine .bind (.within ((enterProtected_ensures e).mono ?_ ?_))
  · rintro id e' ⟨f, rfl, ⟨hm, -, -⟩, rfl⟩
    refine .bind (.modified (.pure ⟨⟨.refl, Nat.le_succ _, rfl⟩, floor :: fl, .inl List.suffix_rfl, ?_⟩))
    obtain ⟨fs, hfs, hcov⟩ := h.sits.tries
    obtain ⟨cs, hcs, hsc⟩ := h.sits.scopes
    refine .intro h.stacked (s := { s with tries := ⟨c, x, s.catches⟩ :: s.tries }) (σ := σ) ?_
      ⟨?_, ?_, h.height⟩
    · refine ⟨h.sits.compiled, h.sits.shaped, h.sits.base, h.sits.call, h.sits.completion, h.sits.stack,
        h.sits.floor_le, h.sits.trace, h.sits.saved, h.sits.scopes, ⟨f :: fs, ?_, ?_⟩, h.sits.loops⟩
      · exact congrArg (f :: ·) hfs
      · refine .cons (t := ⟨c, x, s.catches⟩) (Nat.le_refl _) ?_ hm.traceDepth ?_ hE.1 hE.2 hcov
        · rw [hm.stackDepth, h.height, hzero, Nat.add_zero]
        · rw [hm.scopeDepth, hsc]
          simp only [List.length_append, List.length_cons]
          omega
    · exact hn ▸ hE'.1
    · exact hn ▸ hE'.2
  · rintro error e' ⟨hi, rfl⟩
    exact ⟨hi, .refl, _, List.suffix_rfl, .inside h.stacked h.sits⟩

theorem leave (h : Faces L₀ ls fl σ floor s L e frame callers .leave) :
    Ensures (execute frame callers .leave) (Steps L₀ ls (floor :: fl) e)
      (Fails L₀ ls (floor :: fl) e) ⟨e, frame :: callers⟩ := by
  obtain ⟨a, hn, t, ts, hts, hzero, hc, hE⟩ := h.flows
  obtain ⟨fs, hfs, hcov⟩ := h.sits.tries
  rw [hts] at hcov
  generalize hhs : frame.handlers = handlers at hcov
  cases hcov with
  | @cons _ _ f hs _ fs hle _ _ _ _ _ hrest =>
    have hleave : leaveProtected f.id e = .ok () { e with frames := fs ++ L.frames } :=
      leaveProtected_top hfs
    simp only [execute, hhs]
    refine .bind (.modified (.bind (.within (Ensures.of_ok hleave (.bind (.modified (.pure ?_)))))))
    refine ⟨⟨.refl, Nat.le_refl _, rfl⟩, floor :: fl, .inl List.suffix_rfl, ?_⟩
    refine .intro h.stacked (s := { s with tries := ts }) (σ := σ) ?_ ⟨hE.1, hE.2, h.height⟩
    exact ⟨h.sits.compiled, h.sits.shaped, h.sits.base, h.sits.call, h.sits.completion, h.sits.stack,
      h.sits.floor_le, h.sits.trace, h.sits.saved, h.sits.scopes,
      ⟨fs, rfl, hrest.rebound fun u hu => Nat.le_trans (hrest.nested u hu) hle⟩, h.sits.loops⟩

end Faces

section Return

variable {L₀ L : Level} {ls : List Layer} {fl : List Nat} {σ : Nat → Shape} {floor : Nat} {s : Shape}
  {e : Engine} {frame : CallFrame} {callers : List CallFrame}

theorem leaveAll_covered {u : CodeUnit} {traceDepth scopeDepth c : Nat} {hs : List Handler}
    {ts : List OpenTry} {fs rest : List ProtectedFrame}
    (hcov : Covers u σ floor traceDepth scopeDepth c hs ts fs) {e : Engine} (he : e.frames = fs ++ rest) :
    leaveAll hs e = .ok () { e with frames := rest } := by
  induction hcov generalizing e with
  | nil =>
    obtain rfl : e.frames = rest := he
    rfl
  | cons _ _ _ _ _ _ _ ih =>
    have hl := leaveProtected_top he
    show EStateM.bind _ _ e = _
    simp only [EStateM.bind, hl]
    exact ih rfl

theorem push_awaited {e₀ : Engine} {fl₀ : List Nat} (v : Value) (ha : e₀.Ages 1 e)
    (hst : Stacked L₀ (callers.map .frame ++ ls) fl L) (he : e.level = L) (hfl : fl <:+ fl₀) :
    Ensures (push v) (fun _ e' => Steps L₀ ls fl₀ e₀ .proceed ⟨e', callers⟩)
      (fun error e' => Fails L₀ ls fl₀ e₀ error ⟨e', callers⟩) e := by
  rw [← reset_self e]
  refine .push ⟨⟨ha.heap, ha.serial, ha.fixed⟩, fl, .inl hfl, ?_⟩ ?_
  · cases callers with
    | nil =>
      have hl : (e.reset (e.stack.toList ++ [v]) e.heap).level = { L with stack := L.stack ++ [v] } := by
        rw [← he]
        rfl
      exact .idle hst hl
    | cons frame callers =>
      cases hst with
      | @frame _ _ _ _ _ σ floor s hst hs hw =>
        subst he
        refine .intro hst (s := s.push 1) (σ := σ) ?_ ⟨hw.next_le, hw.shape, ?_⟩
        · exact hs.restack List.prefix_rfl hs.floor_le [v] _ rfl rfl
        · have hh := hw.height
          simp only [level] at hh
          simp [level, reset, Shape.push, hh, Nat.add_assoc]
  · refine ⟨rfl, ha, fl, hfl, .outside hst ?_⟩
    rw [reset_self, he]
    exact .refl L

theorem returnFrom_ensures {e₀ : Engine} {M : Level} (returned : Option Value)
    (hst : Stacked L₀ (callers.map .frame ++ ls) fl L) (hs : frame.Sits σ floor s L M)
    (he : e.level = M) (ha : e₀.Ages 1 e) (frames : List CallFrame) :
    Ensures (returnFrom frame callers returned) (Steps L₀ ls (floor :: fl) e₀)
      (Fails L₀ ls (floor :: fl) e₀) ⟨e, frames⟩ := by
  subst he
  obtain ⟨fs, hfs, hcov⟩ := hs.tries
  obtain ⟨t, ht⟩ := hs.trace
  obtain ⟨cs, -, hsc⟩ := hs.scopes
  obtain ⟨above, habove⟩ := hs.stack
  have hleave := leaveAll_covered hcov (e := e) hfs
  have hlevel : ((cutScopes frame.savedScope { e with frames := L.frames }).leaveTrace).level =
      { L with stack := L.stack ++ above } := by
    have hloops : e.loops = L.loops := hs.loops
    simp only [level] at ht hsc habove
    simp [level, cutScopes, leaveTrace, hs.saved, ht, hsc, ← habove, ← Array.getElem?_toList, hloops]
  refine .bind (.modified (.bind (.within (Ensures.of_ok hleave (.get (.bind (.modified ?_)))))))
  cases callers with
  | nil =>
    exact .pure ⟨⟨ha.heap, ha.serial, ha.fixed⟩, fl, L, above, List.suffix_cons .., hst, hlevel⟩
  | cons caller callers =>
    refine .bind (.modified (.bind (.within ?_)))
    have hcut : (cutStack frame.base
        ((cutScopes frame.savedScope { e with frames := L.frames }).leaveTrace)).level = L := by
      rw [level_cutStack, hlevel, hs.base]
      simp
    have hages : e₀.Ages 1 (cutStack frame.base
        ((cutScopes frame.savedScope { e with frames := L.frames }).leaveTrace)) :=
      ⟨ha.heap, ha.serial, ha.fixed⟩
    refine Ensures.mono (push_awaited _ hages hst hcut (List.suffix_cons floor fl)) ?_ ?_
    · exact fun _ _ hp => .pure hp
    · exact fun _ _ hf => hf

end Return

end Loop

namespace Engine

variable {e : Engine} {L : Level} {ops : List Value}

theorem callee_error {value : Value} {f : Fault} (hf : e.callee value = .error f) :
    f.isInternal = false := by
  simp only [callee] at hf
  split at hf <;> cases hf
  rfl

def Callee.OnlyCompiled : Callee → Prop
  | .native _ => True
  | .closure unit _ => unit.Compiled

theorem callee_ok {value : Value} {c : Callee} (hh : e.heap.OnlyCompiled) (hc : e.callee value = .ok c) :
    Callee.OnlyCompiled c := by
  simp only [callee] at hc
  split at hc
  · cases hc; trivial
  · rename_i ho
    cases hc
    cases hv : value.handle? with
    | none => simp [hv] at ho
    | some a =>
      rw [hv] at ho
      exact hh.unit ho
  · cases hc

theorem callSite_ensures {low : List Value} (he : e.level.stack = low ++ ops) {argc : Nat}
    (ho : ops.length = argc + 2) :
    Ensures (callSite argc)
      (fun site e' => e' = e ∧ site.base = low.length ∧ ∃ value, e.callee value = .ok site.callee)
      (fun error e' => error.isInternal = false ∧ e' = e) e := by
  have hsize : e.stack.size = low.length + (argc + 2) := by
    rw [← length_stack, he, List.length_append, ho]
  refine .get ?_
  rw [if_neg (by omega)]
  refine .bind (.pure ?_)
  split
  · rename_i hf
    exact .fault ⟨callee_error hf, rfl⟩
  · rename_i hc
    exact .pure ⟨rfl, by simp only; omega, _, hc⟩

theorem bindParams_error {env : Handle} {names : List String} {args : List Value} {h : Heap} {f : Fault}
    (hf : bindParams env names args h = .error f) : f.isInternal = false := by
  induction names generalizing args h with
  | nil => cases hf
  | cons name names ih =>
    simp only [bindParams, bind_eq_error] at hf
    rcases hf with hf | ⟨h', _, hf⟩
    · exact Environment.define_error hf
    · exact ih hf

theorem bindParams_evolves {env : Handle} {names : List String} {args : List Value} {h₀ h h' : Heap}
    (hh : h₀.Evolves 0 h) (hb : bindParams env names args h = .ok h') : h₀.Evolves 0 h' := by
  induction names generalizing args h with
  | nil => cases hb; exact hh
  | cons name names ih =>
    simp only [bindParams, bind_eq_ok] at hb
    obtain ⟨h₁, hd, hb⟩ := hb
    exact ih (hh.define hd) hb

theorem openScope_ensures (unit : CodeUnit) (env : Handle) (args : List Value) (e : Engine) :
    Ensures (openScope unit env args) (fun _ e' => ∃ h, e.heap.Evolves 0 h ∧ e' = { e with heap := h })
      (fun error e' => error.isInternal = false ∧ ∃ h, e.heap.Evolves 0 h ∧ e' = { e with heap := h }) e := by
  unfold openScope
  split
  · exact .pure ⟨e.heap, .refl, rfl⟩
  · refine .bind (.modifyGet (.bind ?_))
    have hh := Heap.Evolves.environment (h := e.heap) (n := 0) .refl none (some env)
    exact .change (e := e) (l := e.stack.toList) (fun h' hb => .pure ⟨h', bindParams_evolves hh hb, rfl⟩)
      fun f hf => ⟨bindParams_error hf, _, hh, rfl⟩

def entered (e : Engine) (unit : CodeUnit) (scope : Handle) (t : TraceEntry) : Level :=
  { e.level with
    stack := e.level.stack ++ if unit.isScript then [.undefined] else []
    trace := e.level.trace ++ [t], scopes := e.level.scopes ++ [e.env], env := scope }

theorem enterClosure_ensures (unit : CodeUnit) (env : Handle) (site : CallSite) (e : Engine) :
    Ensures (enterClosure unit env site)
      (fun frame e' => e.Ages 0 e' ∧ ∃ receiver scope t, e'.level = e.entered unit scope t ∧
        frame = ⟨unit, 0, receiver, scope, if unit.isScript then some e.stack.size else none, site.base,
          e.scopes.size, []⟩)
      (fun error e' => error.isInternal = false ∧ e.Ages 0 e' ∧
        ∃ extra, e'.level = { e.level with stack := e.level.stack ++ extra }) e := by
  refine .get (.bind ((openScope_ensures unit env site.args e).mono ?_ ?_))
  · rintro scope e₁ ⟨h, hh, rfl⟩
    refine .get ?_
    by_cases hscript : unit.isScript = true
    · rw [if_pos hscript]
      refine .bind (.push (l := e.stack.toList) (e := e) (h := h) (.bind ((enterTrace_ensures _ _).mono ?_ ?_)) ?_)
      · rintro _ e' rfl
        refine .get (.bind (.modified (.pure ⟨⟨hh, Nat.le_refl _, rfl⟩, _, scope, ⟨unit.name, unit.file, unit.line⟩, ?_, rfl⟩)))
        simp [entered, level, enterScope, reset, hscript]
      · rintro error e' ⟨hi, rfl⟩
        exact ⟨hi, ages_reset hh, [.undefined], rfl⟩
      · exact ⟨rfl, ages_reset hh, [], by rw [List.append_nil]; rfl⟩
    · rw [if_neg hscript]
      refine .bind ((enterTrace_ensures _ _).mono ?_ ?_)
      · rintro _ e' rfl
        refine .get (.bind (.modified (.pure ⟨⟨hh, Nat.le_refl _, rfl⟩, _, scope, ⟨unit.name, unit.file, unit.line⟩, ?_, rfl⟩)))
        simp [entered, level, enterScope, hscript]
      · rintro error e' ⟨hi, rfl⟩
        exact ⟨hi, ⟨hh, Nat.le_refl _, rfl⟩, [], by rw [List.append_nil]; rfl⟩
  · rintro error e₁ ⟨hi, h, hh, rfl⟩
    exact ⟨hi, ⟨hh, Nat.le_refl _, rfl⟩, [], by rw [List.append_nil]; rfl⟩

theorem sits_entered {unit : CodeUnit} {σ : Nat → Shape} {base : Nat} (receiver : Value) (scope : Handle)
    (t : TraceEntry) (hu : unit.Compiled) (hσ : unit.Shaped σ)
    (he : e.level = { L with stack := L.stack ++ ops }) (ho : 2 ≤ ops.length) (hb : base = L.stack.length) :
    CallFrame.Sits
      ⟨unit, 0, receiver, scope, if unit.isScript then some e.stack.size else none, base, e.scopes.size, []⟩
      σ (e.entered unit scope t).stack.length .start L (e.entered unit scope t) := by
  have hsize : e.stack.size = L.stack.length + ops.length := by
    rw [← length_stack, he, List.length_append]
  have hscopes : e.scopes.size = L.scopes.length := by
    rw [← length_scopes, he]
  have henv : e.env = L.env := congrArg Level.env he
  simp only [entered, he, henv]
  refine ⟨hu, hσ, hb, ⟨ops.length - 2, ?_⟩, ?_, ?_, Nat.le_refl _, ⟨t, rfl⟩, hscopes, ⟨[], rfl, rfl⟩,
    ⟨[], rfl, .nil⟩, rfl⟩
  · simp only [List.length_append, hb]
    split <;> simp only [List.length_cons, List.length_nil] <;> omega
  · simp only [List.length_append, hsize]
    split <;> simp
  · rw [List.append_assoc]
    exact List.prefix_append ..

end Engine

namespace Loop

open Engine

variable {L₀ L : Level} {ls : List Layer} {fl : List Nat} {σ : Nat → Shape} {floor : Nat} {s : Shape}
  {e : Engine} {frame : CallFrame} {callers : List CallFrame}

namespace Faces

theorem call {argc : Nat} (h : Faces L₀ ls fl σ floor s L e frame callers (.call argc)) :
    Ensures (execute frame callers (.call argc)) (Steps L₀ ls (floor :: fl) e)
      (Fails L₀ ls (floor :: fl) e) ⟨e, frame :: callers⟩ := by
  obtain ⟨a, hn, hle, hE⟩ := h.flows
  obtain ⟨low, ops, he, ho, hpre, hlow⟩ := h.split (n := argc + 2) hle
  have hstack : e.level.stack = low ++ ops := congrArg (fun e => e.level.stack) he
  -- While the call lasts, the caller waits on what lies below the callee.
  have hwait : Stacked L₀ ((frame :: callers).map .frame ++ ls) (floor :: fl)
      { e.level with stack := low } := by
    have hs := h.sits.restack hpre (by omega) [] (s.after (argc + 2) 0) rfl rfl
    rw [List.append_nil] at hs
    refine .frame h.stacked hs ⟨hn ▸ hE.1, hn ▸ hE.2, ?_⟩
    simpa [Shape.after] using hlow
  have hcut {e' : Engine} (hk : e.Keeps 1 e') : (e'.cutStack low.length).level = { e.level with stack := low } := by
    rw [level_cutStack, hk.2, hstack]
    simp
  refine .bind (.within ((callSite_ensures hstack ho).mono ?_ ?_))
  · rintro ⟨base, receiver, args, callee⟩ e' ⟨rfl, rfl, value, hcallee⟩
    have hc := callee_ok h.compiled hcallee
    cases callee with
    | closure unit env =>
      obtain ⟨τ, hτ⟩ := CodeUnit.Compiled.shaped hc
      refine .bind (.within ((enterClosure_ensures unit env _ e').mono ?_ ?_))
      · rintro new e₁ ⟨ha, receiver, scope, t, hl, rfl⟩
        refine .bind (.modified (.pure ⟨ha.mono (by omega), _ :: floor :: fl, .inr rfl, ?_⟩))
        have hs := sits_entered receiver scope t hc hτ (L := { e'.level with stack := low })
          (by rw [← hstack]) (by omega) rfl
        rw [← hl] at hs
        exact .intro hwait hs ⟨Nat.zero_le _, hτ.start, rfl⟩
      · rintro error e₁ ⟨hi, ha, extra, hl⟩
        refine ⟨hi, ha.mono (by omega), _, List.suffix_rfl, .outside hwait ?_⟩
        rw [hl, hstack, List.append_assoc]
        exact ⟨List.prefix_append .., List.prefix_rfl, List.prefix_rfl, rfl, rfl⟩
    | native f =>
      refine .get ?_
      have hx := callNative_ensures f args e'
      dsimp only
      cases hcall : callNative f args e' with
      | ok result e₁ =>
        have hk := hx.ok hcall
        cases result with
        | value v =>
          refine .bind (.modified (.bind (.within ?_)))
          have hages : e'.Ages 1 (e₁.cutStack low.length) := ⟨hk.1.heap, hk.1.serial, hk.1.fixed⟩
          refine Ensures.mono (push_awaited v hages hwait (hcut hk) List.suffix_rfl) ?_ ?_
          · exact fun _ _ hp => .pure hp
          · exact fun _ _ hf => hf
        | run closure =>
          obtain ⟨ha, t, hl⟩ := hk
          refine .bind (.modified (.pure ⟨ha, ?_⟩))
          have hnat := Stacked.native ops t hwait
          rw [← hstack] at hnat
          exact hl ▸ hnat
      | error error e₁ =>
        obtain ⟨hi, hk⟩ := hx.error hcall
        refine .bind (.modified (.throw ⟨hi, ⟨hk.1.heap, hk.1.serial, hk.1.fixed⟩, _, List.suffix_rfl, ?_⟩))
        refine .outside hwait ?_
        rw [hcut hk]
        exact .refl _
  · rintro error e' ⟨hi, rfl⟩
    exact ⟨hi, .refl, _, List.suffix_rfl, .inside h.stacked h.sits⟩

theorem execute {instr : Instr} (h : Faces L₀ ls fl σ floor s L e frame callers instr) :
    Ensures (Loop.execute frame callers instr) (Steps L₀ ls (floor :: fl) e) (Fails L₀ ls (floor :: fl) e)
      ⟨e, frame :: callers⟩ := by
  cases instr with
  | call => exact h.call
  | jump => exact h.jump
  | jumpIfFalse => exact h.jumpIfFalse
  | jumpIfFalseKeep => exact h.jumpIfFalseKeep
  | jumpIfTrueKeep => exact h.jumpIfTrueKeep
  | «return» =>
    obtain ⟨a, hn, hle, hscript⟩ := h.flows
    obtain ⟨v, e₁, hpop, -, ha, hs, hh⟩ := h.popped hle
    exact .bind (.within (Ensures.of_ok hpop (returnFrom_ensures (some v) h.stacked hs rfl ha _)))
  | «try» => exact h.openTry
  | leave => exact h.leave
  | closure => exact h.closure
  | throw => exact h.throw
  | setCompletion => exact h.setCompletion
  | enterCatch => exact h.enterCatch
  | exitCatch => exact h.exitCatch
  | undefined | null | boolean | number | string | this | getVar | setVar | defineVar | declareVar
  | newObject | initProp | getProp | setProp | getIndex | setIndex | getMethod | pop | negate | not
  | typeof | binary => exact h.plain rfl (by simp)

end Faces

theorem sits_atLine (hs : frame.Sits σ floor s L e.level) (line : Nat) :
    frame.Sits σ floor s L (e.atLine line).level := by
  obtain ⟨t, ht⟩ := hs.trace
  have hl : (e.atLine line).level = { e.level with trace := L.trace ++ [{ t with line }] } := by
    simp only [level] at ht
    have hsize : e.trace.size = L.trace.length + 1 := by
      rw [← Array.length_toList, ht, List.length_append]
      rfl
    simp [level, atLine, hsize, ht, List.modify_eq_take_cons_drop]
  rw [hl]
  obtain ⟨fs, hfs, hcov⟩ := hs.tries
  refine ⟨hs.compiled, hs.shaped, hs.base, hs.call, hs.completion, hs.stack, hs.floor_le, ⟨_, rfl⟩,
    hs.saved, hs.scopes, ⟨fs, hfs, ?_⟩, hs.loops⟩
  rw [ht] at hcov
  simpa using hcov

theorem step_ensures {l : Loop} (hh : l.engine.heap.OnlyCompiled) (h : Runs L₀ ls fl l) :
    Ensures step (Steps L₀ ls fl l.engine) (Fails L₀ ls fl l.engine) l := by
  cases h with
  | @idle e fl L extra hst he => exact .get (.pure ⟨.refl, fl, L, extra, List.suffix_rfl, hst, he⟩)
  | @intro e frame callers fl L σ floor s hst hs hw =>
    refine .get ?_
    dsimp only
    cases hi : frame.unit.code[frame.next]? with
    | none => exact returnFrom_ensures none hst hs rfl .refl _
    | some instr =>
      have hfaces (e' : Engine) (hs' : frame.Sits σ floor s L e'.level) (hheap : e'.heap = e.heap)
          (hstack : e'.level.stack = e.level.stack) :
          Faces L₀ ls fl σ floor s L e' { frame with next := frame.next + 1 } callers instr := by
        refine ⟨hheap ▸ hh, hst, hs'.goto _, ?_, frame.next, rfl, ?_⟩
        · rw [hstack, hw.height]
        · have hf := hs.shaped.flows frame.next instr hi
          rw [hw.shape] at hf
          exact hf
      dsimp only
      split
      · rename_i line _
        refine .bind (.modified (.bind (.modified ?_)))
        have hx := (hfaces (e.atLine line) (sits_atLine hs line) rfl rfl).execute
        have ha : e.Ages 0 (e.atLine line) := ⟨.refl, Nat.le_refl _, rfl⟩
        exact hx.mono (fun _ _ h => h.since ha) fun _ _ h => h.since ha
      · exact .bind (.modified (hfaces e hs rfl rfl).execute)

end Loop

end ScriptEngine
