import ScriptEngine.Proofs.Machine.Execution

namespace ScriptEngine

namespace Loop

open Engine

def Retains (low : List Value) (s : Loop) : Prop :=
  low <+: s.engine.level.stack

variable (frame : CallFrame) (callers : List CallFrame) (e : Engine) (low : List Value) {h : Heap}
  {frames : List CallFrame}

theorem retains_push (v : Value) {e : Engine} (hl : low <+: e.level.stack) :
    Ensures (push v) (fun _ e' => Retains low ⟨e', frames⟩) (fun _ e' => Retains low ⟨e', frames⟩) e := by
  rw [← reset_self e]
  exact .push (hl.trans (List.prefix_append ..)) hl

theorem retains_of_settles {e' : Engine} {n : Nat} (hs : e.Settles low n e') : Retains low ⟨e', frames⟩ := by
  obtain ⟨out, heap, -, rfl, -⟩ := hs
  exact List.prefix_append ..

theorem retains_of_disturbed {e' : Engine} {error : Error} (hd : e.Disturbed low error e') :
    Retains low ⟨e', frames⟩ := by
  obtain ⟨-, extra, heap, rfl, -⟩ := hd
  exact List.prefix_append ..

theorem leaveAll_stack (hs : List Handler) (e : Engine) :
    Ensures (leaveAll hs) (fun _ e' => e'.stack = e.stack) (fun _ e' => e'.stack = e.stack) e := by
  induction hs generalizing e with
  | nil => exact .pure rfl
  | cons handler hs ih =>
    refine .bind ((leaveProtected_ensures handler.scope e).mono ?_ ?_)
    · rintro _ e' ⟨top, rest, -, -, rfl⟩
      exact ih _
    · rintro _ e' ⟨-, rfl, -⟩
      rfl

theorem returnFrom_retains (returned : Option Value) {e : Engine} (hl : low <+: e.level.stack)
    (hb : low.length ≤ frame.base) :
    Ensures (returnFrom frame callers returned) (fun _ => Retains low) (fun _ => Retains low) ⟨e, frames⟩ := by
  refine .bind (.modified (.bind (.within ((leaveAll_stack frame.handlers e).mono ?_ ?_))))
  · intro _ e₁ hs
    have hl₁ : low <+: e₁.level.stack := by
      rw [show e₁.level.stack = e.level.stack from congrArg Array.toList hs]
      exact hl
    refine .get (.bind (.modified ?_))
    cases callers with
    | nil => exact .pure hl₁
    | cons caller callers =>
      refine .bind (.modified (.bind (.within ?_)))
      have hcut : low <+: ((e₁.cutScopes frame.savedScope).leaveTrace.cutStack frame.base).level.stack := by
        rw [level_cutStack]
        exact List.prefix_take_iff.mpr ⟨hl₁, hb⟩
      exact (retains_push low _ hcut).mono (fun _ _ hr => .pure hr) fun _ _ hr => hr
  · intro error e₁ hs
    show low <+: e₁.stack.toList
    rw [hs]
    exact hl

theorem call_retains {argc : Nat} {ops : List Value} (ho : ops.length = argc + 2)
    (he : e.level.stack = low ++ ops) :
    Ensures (call callers argc) (fun _ => Retains low) (fun _ => Retains low) ⟨e, frames⟩ := by
  have hl : low <+: e.level.stack := ⟨ops, he.symm⟩
  refine .bind (.within ((callSite_ensures he ho).mono ?_ ?_))
  · rintro ⟨base, receiver, args, callee⟩ e' ⟨rfl, rfl, -⟩
    have hcut {e₁ : Engine} (hk : e'.Keeps 1 e₁) : low <+: (e₁.cutStack low.length).level.stack := by
      rw [level_cutStack, hk.2]
      exact List.prefix_take_iff.mpr ⟨hl, Nat.le_refl _⟩
    cases callee with
    | closure unit env =>
      refine .bind (.within ((enterClosure_ensures unit env _ e').mono ?_ ?_))
      · rintro new e₁ ⟨-, _, _, _, hlevel, -⟩
        refine .bind (.modified (.pure ?_))
        show low <+: e₁.level.stack
        rw [hlevel]
        exact hl.trans (List.prefix_append ..)
      · rintro error e₁ ⟨-, -, extra, hlevel⟩
        show low <+: e₁.level.stack
        rw [hlevel]
        exact hl.trans (List.prefix_append ..)
    | native f =>
      refine .get ?_
      have hx := callNative_ensures f args e'
      dsimp only
      cases hcall : callNative f args e' with
      | error error e₁ => exact .bind (.set (.throw (hcut (hx.error hcall).2)))
      | ok result e₁ =>
        have hk := hx.ok hcall
        cases result with
        | value v =>
          refine .bind (.set (.bind (.within ?_)))
          exact (retains_push low v (hcut hk)).mono (fun _ _ hr => .pure hr) fun _ _ hr => hr
        | run closure =>
          obtain ⟨-, t, hlevel⟩ := hk
          refine .bind (.set (.pure ?_))
          show low <+: e₁.level.stack
          rw [hlevel]
          exact hl
  · rintro error e' ⟨-, rfl⟩
    exact hl

theorem closure_retains (i : Nat) :
    Ensures (simple frame (.closure i)) (fun _ e' => Retains low ⟨e', frames⟩)
      (fun _ e' => Retains low ⟨e', frames⟩) (e.reset low h) := by
  simp only [simple]
  cases frame.unit.functions[i]? with
  | none => exact .fault List.prefix_rfl
  | some unit => exact .get (.bind (.modifyGet (.push (List.prefix_append ..) List.prefix_rfl)))

theorem execute_retains {instr : Instr} {ops : List Value} (ho : ops.length = instr.operands)
    (hr : instr ≠ .return) (hc : instr ≠ .setCompletion) :
    Ensures (execute frame callers instr) (fun _ => Retains low) (fun _ => Retains low)
      ⟨e.reset (low ++ ops) h, frames⟩ := by
  have hl : Retains low ⟨e.reset (low ++ ops) h, frames⟩ := List.prefix_append ..
  have hlow : Retains low ⟨e.reset low h, frames⟩ := List.prefix_rfl
  cases instr with
  | call argc => exact call_retains (frame :: callers) _ low ho rfl
  | jump target => exact .bind (.modified (.pure hl))
  | jumpIfFalse target =>
    obtain ⟨v, rfl⟩ := List.length_eq_one_iff.mp ho
    refine .bind (.within (.popped ?_))
    split
    · exact .bind (.modified (.pure hlow))
    · refine .bind (.pure (.pure ?_))
      exact hlow
  | jumpIfFalseKeep target =>
    obtain ⟨v, rfl⟩ := List.length_eq_one_iff.mp ho
    refine .bind (.within (.peek ?_))
    split
    · exact .bind (.bind (.within (.popped (.pure (.pure hlow)))))
    · exact .bind (.modified (.pure hl))
  | jumpIfTrueKeep target =>
    obtain ⟨v, rfl⟩ := List.length_eq_one_iff.mp ho
    refine .bind (.within (.peek ?_))
    split
    · exact .bind (.modified (.pure hl))
    · exact .bind (.bind (.within (.popped (.pure (.pure hlow)))))
  | «return» => exact absurd rfl hr
  | «try» catchAt exitAt =>
    refine .bind (.within ((enterProtected_ensures _).mono ?_ ?_))
    · rintro id e' ⟨f, -, -, rfl⟩
      exact .bind (.modified (.pure hl))
    · rintro error e' ⟨-, rfl⟩
      exact hl
  | leave =>
    simp only [execute]
    cases frame.handlers with
    | nil => exact .throw hl
    | cons handler handlers =>
      refine .bind (.modified (.bind (.within ((leaveProtected_ensures handler.scope _).mono ?_ ?_))))
      · rintro _ e' ⟨top, rest, -, -, rfl⟩
        exact .bind (.modified (.pure hl))
      · rintro error e' ⟨-, rfl, -⟩
        exact hl
  | closure i =>
    obtain rfl := List.length_eq_zero_iff.mp ho
    rw [List.append_nil]
    exact .bind (.within ((closure_retains frame e low i).mono (fun _ _ hr => .pure hr) fun _ _ hr => hr))
  | throw =>
    obtain ⟨v, rfl⟩ := List.length_eq_one_iff.mp ho
    have hx := throw_ensures frame (e.reset (low ++ [v]) h) low (v := v) .refl
    exact .bind (.within (hx.mono (fun _ _ hF => hF.elim) fun _ _ hd => retains_of_disturbed _ low hd))
  | setCompletion => exact absurd rfl hc
  | enterCatch name =>
    obtain ⟨v, rfl⟩ := List.length_eq_one_iff.mp ho
    have hx := enterCatch_ensures frame (e.reset (low ++ [v]) h) low name (v := v) .refl
    refine .bind (.within (hx.mono ?_ fun _ _ hd => retains_of_disturbed _ low hd))
    rintro _ e' ⟨env, heap, -, rfl⟩
    exact .pure hlow
  | exitCatch =>
    refine .bind (.within (.modified (.pure ?_)))
    have hs : (e.reset (low ++ ops) h).leaveScope.stack = (low ++ ops).toArray := by
      simp only [leaveScope]
      split <;> rfl
    show low <+: Array.toList _
    rw [hs]
    exact hl
  | undefined | null | boolean | number | string | this | getVar | setVar | defineVar | declareVar
  | newObject | initProp | getProp | setProp | getIndex | setIndex | getMethod | pop | negate | not
  | typeof | binary =>
    have hx := simple_ensures frame (e.reset (low ++ ops) h) low .refl ho rfl (by simp)
    refine .bind (.within (hx.mono (fun _ e' hs => .pure ?_) fun error e' hd => ?_))
    · exact retains_of_settles _ low hs
    · exact retains_of_disturbed _ low hd

theorem setCompletion_spares {v : Value} {i : Nat} {R : Error → Engine → Prop} (hc : frame.completion ≠ some i) :
    Ensures (simple frame .setCompletion) (fun _ e' => e'.level.stack[i]? = low[i]?) R
      (e.reset (low ++ [v]) h) := by
  cases hs : frame.completion with
  | none =>
    refine .bind (.popped ?_)
    simp only [hs]
    exact .pure rfl
  | some slot =>
    refine (setCompletion_ensures frame e low hs).mono ?_ fun _ _ hd => hd
    rintro _ e' rfl
    have hne : slot ≠ i := fun heq => hc (by rw [hs, heq])
    exact List.getElem?_set_ne hne

end Loop

def CallFrame.Spares (frame : CallFrame) (size i : Nat) : Prop :=
  match frame.unit.code[frame.next]? with
  | none | some .return => i < frame.base
  | some instr => i + instr.operands < size ∧ frame.completion ≠ some i

theorem CallFrame.spares_instr {frame : CallFrame} {size i : Nat} {instr : Instr}
    (hcode : frame.unit.code[frame.next]? = some instr) (hr : instr ≠ .return) (h : frame.Spares size i) :
    i + instr.operands < size ∧ frame.completion ≠ some i := by
  simp only [Spares, hcode] at h
  cases instr <;> first | exact absurd rfl hr | exact h

namespace Loop

open Engine

theorem getElem?_of_retains {l low : List Value} {s : Loop} {i : Nat} (hr : Retains low s) (hl : low <+: l)
    (hi : i < low.length) : s.engine.level.stack[i]? = l[i]? := by
  obtain ⟨above, ha⟩ := hr
  obtain ⟨ops, rfl⟩ := hl
  rw [← ha, List.getElem?_append_left hi, List.getElem?_append_left hi]

variable {frame : CallFrame} {callers : List CallFrame} {e : Engine} {i : Nat}

theorem execute_spares {frames : List CallFrame} {instr : Instr} (hr : instr ≠ .return)
    (hi : i + instr.operands < e.stack.size) (hc : frame.completion ≠ some i) :
    Ensures (execute frame callers instr) (fun _ s => s.engine.level.stack[i]? = e.level.stack[i]?)
      (fun _ s => s.engine.level.stack[i]? = e.level.stack[i]?) ⟨e, frames⟩ := by
  have hlen := length_stack e
  obtain ⟨low, ops, hs, ho, hlow⟩ := exists_split (l := e.level.stack) (n := instr.operands) (by omega)
  have hpre : low <+: e.level.stack := ⟨ops, hs.symm⟩
  have he : e = e.reset (low ++ ops) e.heap := by
    rw [← hs]
    rfl
  by_cases hset : instr = .setCompletion
  · subst hset
    obtain ⟨v, rfl⟩ := List.length_eq_one_iff.mp ho
    have hx := setCompletion_spares frame e low (h := e.heap) (v := v)
      (R := fun _ e' => e'.level.stack[i]? = e.level.stack[i]?) hc
    rw [← he] at hx
    refine .bind (.within (hx.mono (fun _ e' h => .pure ?_) fun _ _ h => h))
    show e'.level.stack[i]? = e.level.stack[i]?
    rw [h, hs, List.getElem?_append_left (by omega)]
  · have hx : Ensures (execute frame callers instr) (fun _ => Retains low) (fun _ => Retains low)
        ⟨e.reset (low ++ ops) e.heap, frames⟩ := execute_retains frame callers e low ho hr hset
    rw [← he] at hx
    exact hx.mono (fun _ _ h => getElem?_of_retains h hpre (by omega))
      fun _ _ h => getElem?_of_retains h hpre (by omega)

theorem returnFrom_spares {frames : List CallFrame} (returned : Option Value) (hi : i < frame.base)
    (hb : frame.base ≤ e.stack.size) :
    Ensures (returnFrom frame callers returned) (fun _ s => s.engine.level.stack[i]? = e.level.stack[i]?)
      (fun _ s => s.engine.level.stack[i]? = e.level.stack[i]?) ⟨e, frames⟩ := by
  have hlen : (e.level.stack.take frame.base).length = frame.base := by
    rw [List.length_take, length_stack]
    omega
  have hpre : e.level.stack.take frame.base <+: e.level.stack := List.take_prefix ..
  refine (returnFrom_retains frame callers _ returned hpre (by omega)).mono ?_ ?_
  · exact fun _ _ h => getElem?_of_retains h hpre (by omega)
  · exact fun _ _ h => getElem?_of_retains h hpre (by omega)

theorem return_spares {frames : List CallFrame} (hi : i < frame.base) (hb : frame.base < e.stack.size) :
    Ensures (execute frame callers .return) (fun _ s => s.engine.level.stack[i]? = e.level.stack[i]?)
      (fun _ s => s.engine.level.stack[i]? = e.level.stack[i]?) ⟨e, frames⟩ := by
  have hpop : e.level.stack[i]? = e.pop.2.level.stack[i]? := by
    show e.stack.toList[i]? = e.stack.pop.toList[i]?
    rw [Array.toList_pop, List.getElem?_dropLast, if_pos (by rw [Array.length_toList]; omega)]
  rw [hpop]
  have hx : popped e = .ok e.pop.1 e.pop.2 := rfl
  refine .bind (.within (Ensures.of_ok hx (returnFrom_spares _ hi ?_)))
  show frame.base ≤ e.stack.pop.size
  rw [Array.size_pop]
  omega

theorem step_spares (callers : List CallFrame) (hb : frame.base < e.stack.size) (hi : frame.Spares e.stack.size i) :
    Ensures step (fun _ s => s.engine.level.stack[i]? = e.level.stack[i]?)
      (fun _ s => s.engine.level.stack[i]? = e.level.stack[i]?) ⟨e, frame :: callers⟩ := by
  refine .get ?_
  dsimp only
  cases hcode : frame.unit.code[frame.next]? with
  | none =>
    simp only [CallFrame.Spares, hcode] at hi
    exact returnFrom_spares none hi (by omega)
  | some instr =>
    have hexec (e' : Engine) (hs : e'.stack = e.stack) :
        Ensures (execute { frame with next := frame.next + 1 } callers instr)
          (fun _ s => s.engine.level.stack[i]? = e.level.stack[i]?)
          (fun _ s => s.engine.level.stack[i]? = e.level.stack[i]?)
          ⟨e', { frame with next := frame.next + 1 } :: callers⟩ := by
      rw [show e.level.stack = e'.level.stack from congrArg Array.toList hs.symm]
      rw [← hs] at hb hi
      by_cases hr : instr = .return
      · subst hr
        simp only [CallFrame.Spares, hcode] at hi
        exact return_spares hi hb
      · obtain ⟨hlt, hc⟩ := CallFrame.spares_instr hcode hr hi
        exact execute_spares hr hlt hc
    dsimp only
    split
    · exact .bind (.modified (.bind (.modified (hexec _ rfl))))
    · exact .bind (.modified (hexec _ rfl))

end Loop

end ScriptEngine
