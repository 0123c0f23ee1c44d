import ScriptEngine.Environment
import ScriptEngine.Error
import ScriptEngine.Heap.Property
import ScriptEngine.Proofs.Outcome

namespace ScriptEngine

def Fault.isInternal : Fault → Bool
  | .stackUnderflow | .badFunctionIndex => true
  | _ => false

def Error.isInternal (e : Error) : Bool :=
  match e.root with
  | .fault f => f.isInternal
  | .unbalancedScope => true
  | _ => false

theorem Error.isInternal_carrying (value : Value) (e : Error) :
    (e.carrying value).isInternal = e.isInternal := by
  rw [isInternal, root_carrying, isInternal]

namespace Heap

theorem getProperty_error {h : Heap} {target : Value} {name : String} {f : Fault}
    (hf : h.getProperty target name = .error f) : f.isInternal = false := by
  cases target <;> cases hf <;> rfl

theorem setProperty_error {h : Heap} {target value : Value} {name : String} {f : Fault}
    (hf : h.setProperty target name value = .error f) : f.isInternal = false := by
  cases target with
  | object a =>
    simp only [setProperty] at hf
    split at hf
    · cases hf
    · cases hf; rfl
  | string | boolean | number => cases hf
  | undefined | null => cases hf; rfl

end Heap

namespace Environment

variable {h : Heap} {env : Handle} {name : String} {value : Value} {strict : Bool} {f : Fault}

theorem get_error (hf : get h env name = .error f) : f.isInternal = false := by
  simp only [get] at hf
  split at hf
  · cases hf
  · cases hf; rfl

theorem bindings_error (hf : bindings h env = .error f) : f.isInternal = false := by
  simp only [bindings] at hf
  split at hf
  · cases hf
  · cases hf; rfl

theorem define_error (hf : define h env name value = .error f) : f.isInternal = false := by
  simp only [define, bind_eq_error] at hf
  rcases hf with hf | ⟨v, _, hf⟩
  · exact bindings_error hf
  · split at hf
    · cases hf
    · cases hf; rfl

theorem hasOwn_error (hf : hasOwn h env name = .error f) : f.isInternal = false := by
  simp only [hasOwn, bind_eq_error] at hf
  rcases hf with hf | ⟨v, _, hf⟩
  · exact bindings_error hf
  · cases hf

theorem declare_error (hf : declare h env name = .error f) : f.isInternal = false := by
  simp only [declare, bind_eq_error] at hf
  rcases hf with hf | ⟨own, _, hf⟩
  · exact hasOwn_error hf
  · split at hf
    · cases hf
    · exact define_error hf

theorem binderWithin_error {n : Nat} (hf : binderWithin h name n env = .error f) :
    f.isInternal = false := by
  induction n generalizing env with
  | zero => cases hf
  | succ n ih =>
    simp only [binderWithin, bind_eq_error] at hf
    rcases hf with hf | ⟨own, _, hf⟩
    · exact hasOwn_error hf
    · split at hf
      · cases hf
      · split at hf
        · exact ih hf
        · cases hf

theorem assign_error (hf : assign h env name value strict = .error f) : f.isInternal = false := by
  simp only [assign, bind_eq_error] at hf
  rcases hf with hf | ⟨binder, _, hf⟩
  · exact binderWithin_error hf
  · cases binder with
    | bound scope => exact define_error hf
    | outermost scope =>
      simp only at hf
      split at hf
      · cases hf; rfl
      · exact define_error hf

end Environment

end ScriptEngine
