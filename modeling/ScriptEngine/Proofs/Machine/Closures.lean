import ScriptEngine.Proofs.Machine.Limits

namespace ScriptEngine

open Engine

variable {P : CodeUnit → Prop}

theorem Heap.ClosesOver.writes {h h' : Heap} {value : Value} (hh : h.ClosesOver P) (hw : h.Writes value h') :
    h'.ClosesOver P := by
  rcases hw with rfl | ⟨a, name, hi⟩
  · exact hh
  · exact hh.insertProperty? hi

namespace Engine

variable {α : Type} {e : Engine}

def ClosesOver (P : CodeUnit → Prop) (e : Engine) : Prop := e.heap.ClosesOver P

section Steps

theorem allows_closesOver : Allows P fun e e' => e.ClosesOver P → e'.ClosesOver P where
  refl _ h := h
  trans h h' hc := h' (h hc)
  touches ht h := by
    cases ht with
    | alloc hcell => exact Heap.ClosesOver.alloc h hcell
    | write hw => exact Heap.ClosesOver.writes h hw
    | push | restack | enterTrace | retrace | enterProtected | leaveProtected | rescope => exact h

theorem exceptionValue_closes (h : e.ClosesOver P) (error : Error) : (e.exceptionValue error).2.ClosesOver P := by
  unfold ClosesOver at h ⊢
  simp only [exceptionValue]
  split
  · exact h
  · split
    · exact h.alloc trivial
    · exact h

theorem unwind_closes (h : e.ClosesOver P) (id : ScopeId) (error : Error) : (e.unwind id error).2.ClosesOver P := by
  simp only [unwind]
  split
  · exact exceptionValue_closes h .unbalancedScope
  · next frame frames _ =>
    have hleft : { e with frames }.ClosesOver P := h
    have hvalue : ({ e with frames }.exceptionValue error).2.ClosesOver P := exceptionValue_closes hleft error
    exact hvalue.collectSince _ _

theorem native_closes {f : Builtin} (hf : f ≠ .eval) (args : List Value) (h : e.ClosesOver P) :
    Ensures (native f args) (fun result e' => (∃ v, result = .value v) ∧ e'.ClosesOver P)
      (fun _ e' => e'.ClosesOver P) e := by
  refine .get ?_
  cases f with
  | eval => exact absurd rfl hf
  | print =>
    have hprint : (stateOf (print args e)).ClosesOver P := by
      refine Ensures.state (P := fun e' : Engine => e'.ClosesOver P) (.get ?_)
      split
      · exact h
      · exact .fault h
    exact .bind ((Ensures.of_state hprint).mono (fun _ _ hp => .pure ⟨⟨_, rfl⟩, hp⟩) fun _ _ hp => hp)
  | makeError name =>
    refine .bind (.modifyGet (.pure ⟨⟨_, rfl⟩, ?_⟩))
    simp only [makeError]
    split <;> exact Heap.ClosesOver.alloc h trivial
  | string => cases args <;> exact .pure ⟨⟨_, rfl⟩, h⟩
  | number => cases args <;> exact .pure ⟨⟨_, rfl⟩, h⟩
  | isNaN => exact .pure ⟨⟨_, rfl⟩, h⟩
  | isFinite => exact .pure ⟨⟨_, rfl⟩, h⟩
  | gc => exact .bind (.modified (.pure ⟨⟨_, rfl⟩, Heap.ClosesOver.collectSince h 0 e.roots⟩))
  | math function => exact .pure ⟨⟨_, rfl⟩, h⟩

theorem callNative_closes {f : Builtin} (hf : f ≠ .eval) (args : List Value) (h : e.ClosesOver P) :
    Ensures (callNative f args) (fun result e' => (∃ v, result = .value v) ∧ e'.ClosesOver P)
      (fun _ e' => e'.ClosesOver P) e := by
  have htrace : Maintains (ClosesOver P) (enterTrace ⟨f.name, "native", 0⟩) := allows_closesOver.enterTrace _
  simp only [Ensures, callNative]
  cases ht : enterTrace ⟨f.name, "native", 0⟩ e with
  | error error e₁ => exact htrace.failed h ht
  | ok _ e₁ =>
    have hnative := native_closes hf args (htrace.returned h ht)
    dsimp only
    cases hn : native f args e₁ with
    | error error e₂ =>
      have hclosed : e₂.ClosesOver P := hnative.error hn
      exact hclosed
    | ok result e₂ =>
      obtain ⟨⟨v, rfl⟩, hclosed⟩ := hnative.ok hn
      exact ⟨⟨v, rfl⟩, hclosed⟩

theorem ClosesOver.callee {value : Value} {unit : CodeUnit} {env : Handle} (h : e.ClosesOver P)
    (hc : e.callee value = .ok (.closure unit env)) : P unit := by
  simp only [Engine.callee] at hc
  split at hc
  · cases hc
  · rename_i ho
    cases hc
    obtain ⟨a, -, ha⟩ := Option.bind_eq_some_iff.mp ho
    exact Heap.ClosesOver.unit h ha
  · cases hc

end Steps

end Engine

end ScriptEngine
