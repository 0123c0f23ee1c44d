import Mathlib.Data.List.Basic
import ScriptEngine.Machine
import ScriptEngine.Proofs.Engine.Internal
import ScriptEngine.Proofs.Heap.Evolution

namespace ScriptEngine

namespace Engine

def Settles (e : Engine) (low : List Value) (n : Nat) (e' : Engine) : Prop :=
  ∃ out h, out.length = n ∧ e' = e.reset (low ++ out) h ∧ e.heap.Evolves 0 h

def Disturbed (e : Engine) (low : List Value) (error : Error) (e' : Engine) : Prop :=
  error.isInternal = false ∧ ∃ extra h, e' = e.reset (low ++ extra) h ∧ e.heap.Evolves 0 h

variable {e : Engine} {low : List Value} {h : Heap}

theorem settles_nil (hh : e.heap.Evolves 0 h) : e.Settles low 0 (e.reset low h) :=
  ⟨[], h, rfl, by rw [List.append_nil], hh⟩

theorem settles_one {v : Value} (hh : e.heap.Evolves 0 h) : e.Settles low 1 (e.reset (low ++ [v]) h) :=
  ⟨[v], h, rfl, rfl, hh⟩

theorem disturbed {extra : List Value} {f : Fault} (hf : f.isInternal = false) (hh : e.heap.Evolves 0 h) :
    e.Disturbed low (.fault f) (e.reset (low ++ extra) h) :=
  ⟨hf, extra, h, rfl, hh⟩

theorem disturbed_nil {f : Fault} (hf : f.isInternal = false) (hh : e.heap.Evolves 0 h) :
    e.Disturbed low (.fault f) (e.reset low h) :=
  ⟨hf, [], h, by rw [List.append_nil], hh⟩

theorem push_settles {v : Value} (hh : e.heap.Evolves 0 h) :
    Ensures (push v) (fun _ => e.Settles low 1) (e.Disturbed low) (e.reset low h) :=
  .push (settles_one hh) (disturbed_nil rfl hh)

end Engine

namespace Loop

open Engine

variable (frame : CallFrame) (e : Engine) (low : List Value) {h : Heap}

theorem simple_ensures {instr : Instr} {ops : List Value} (hh : e.heap.Evolves 0 h)
    (hops : ops.length = instr.operands) (hp : instr.isPlain = true) (hc : ∀ n, instr ≠ .call n) :
    Ensures (simple frame instr) (fun _ => e.Settles low instr.results) (e.Disturbed low)
      (e.reset (low ++ ops) h) := by
  cases instr with
  | undefined | null | boolean | number | string | this =>
    obtain rfl := List.length_eq_zero_iff.mp hops
    rw [List.append_nil]
    exact push_settles hh
  | getVar name =>
    obtain rfl := List.length_eq_zero_iff.mp hops
    rw [List.append_nil]
    exact .get (.bind (.ask (fun v _ => push_settles hh)
      fun f hf => disturbed_nil (Environment.get_error hf) hh))
  | setVar name =>
    obtain ⟨v, rfl⟩ := List.length_eq_one_iff.mp hops
    exact .bind (.peek (.get (.change
      (fun h' hc => settles_one (hh.assign hc))
      fun f hf => disturbed (Environment.assign_error hf) hh)))
  | defineVar name =>
    obtain ⟨v, rfl⟩ := List.length_eq_one_iff.mp hops
    exact .bind (.popped (.change
      (fun h' hc => settles_nil (hh.define hc))
      fun f hf => disturbed_nil (Environment.define_error hf) hh))
  | declareVar name =>
    obtain rfl := List.length_eq_zero_iff.mp hops
    rw [List.append_nil]
    exact .change (f := (Environment.declare · frame.scope name))
      (fun h' hc => settles_nil (hh.declare hc))
      fun f hf => disturbed_nil (Environment.declare_error hf) hh
  | newObject =>
    obtain rfl := List.length_eq_zero_iff.mp hops
    rw [List.append_nil]
    exact .bind (.modifyGet (push_settles (hh.alloc trivial)))
  | initProp name =>
    obtain ⟨t, v, rfl⟩ := List.length_eq_two.mp hops
    rw [List.append_cons]
    exact .bind (.popped (.bind (.peek (.change (fun h' hc => settles_one (hh.setProperty hc))
      fun f hf => disturbed (Heap.setProperty_error hf) hh))))
  | getProp name =>
    obtain ⟨t, rfl⟩ := List.length_eq_one_iff.mp hops
    exact .bind (.popped (.bind (.ask (fun v _ => push_settles hh)
      fun f hf => disturbed_nil (Heap.getProperty_error hf) hh)))
  | setProp name =>
    obtain ⟨t, v, rfl⟩ := List.length_eq_two.mp hops
    rw [List.append_cons]
    exact .bind (.popped (.bind (.popped (.bind (.change
      (fun h' hc => push_settles (hh.setProperty hc))
      fun f hf => disturbed_nil (Heap.setProperty_error hf) hh)))))
  | getIndex =>
    obtain ⟨t, k, rfl⟩ := List.length_eq_two.mp hops
    rw [List.append_cons]
    exact .bind (.popped (.bind (.popped (.get (.bind (.ask (fun v _ => push_settles hh)
      fun f hf => disturbed_nil (Heap.getProperty_error hf) hh))))))
  | setIndex =>
    obtain ⟨t, k, v, rfl⟩ := List.length_eq_three.mp hops
    rw [List.append_cons, List.append_cons _ k]
    exact .bind (.popped (.bind (.popped (.bind (.popped (.get (.bind (.change
      (fun h' hc => push_settles (hh.setProperty hc))
      fun f hf => disturbed_nil (Heap.setProperty_error hf) hh))))))))
  | getMethod name =>
    obtain ⟨t, rfl⟩ := List.length_eq_one_iff.mp hops
    refine .bind (.popped (.bind (.ask (fun v _ => ?_)
      fun f hf => disturbed_nil (Heap.getProperty_error hf) hh)))
    refine .bind (.push (.push ?_ (disturbed rfl hh)) (disturbed_nil rfl hh))
    exact ⟨[v, t], h, rfl, by simp, hh⟩
  | pop =>
    obtain ⟨v, rfl⟩ := List.length_eq_one_iff.mp hops
    exact .bind (.popped (settles_nil hh))
  | negate | not =>
    obtain ⟨v, rfl⟩ := List.length_eq_one_iff.mp hops
    exact .bind (.popped (push_settles hh))
  | typeof =>
    obtain ⟨v, rfl⟩ := List.length_eq_one_iff.mp hops
    exact .bind (.popped (.get (push_settles hh)))
  | binary op =>
    obtain ⟨l, r, rfl⟩ := List.length_eq_two.mp hops
    rw [List.append_cons]
    exact .bind (.popped (.bind (.popped (.get (push_settles hh)))))
  | call n => exact absurd rfl (hc n)
  | jump | jumpIfFalse | jumpIfFalseKeep | jumpIfTrueKeep | «return» | throw | «try» | leave
  | enterCatch | exitCatch | closure | setCompletion => cases hp

theorem closure_ensures {i : Nat} (hh : e.heap.Evolves 0 h) (hf : frame.unit.Compiled)
    (hi : i < frame.unit.functions.length) :
    Ensures (simple frame (.closure i)) (fun _ => e.Settles low 1) (e.Disturbed low)
      (e.reset low h) := by
  simp only [simple, List.getElem?_eq_getElem hi]
  exact .get (.bind (.modifyGet (push_settles (hh.alloc (hf.functions (List.getElem_mem hi))))))

theorem throw_ensures {v : Value} (hh : e.heap.Evolves 0 h) :
    Ensures (simple frame .throw) (fun _ _ => False) (e.Disturbed low) (e.reset (low ++ [v]) h) :=
  .bind (.popped (.get (.throw ⟨rfl, [], h, by rw [List.append_nil], hh⟩)))

theorem setCompletion_ensures {v : Value} {slot : Nat} {R : Error → Engine → Prop}
    (hc : frame.completion = some slot) :
    Ensures (simple frame .setCompletion) (fun _ e' => e' = e.reset (low.set slot v) h) R
      (e.reset (low ++ [v]) h) := by
  refine .bind (.popped ?_)
  simp only [hc]
  refine .modified ?_
  simp [reset]

theorem enterCatch_ensures (name : String) {v : Value} (hh : e.heap.Evolves 0 h) :
    Ensures (simple frame (.enterCatch name))
      (fun _ e' => ∃ env h', e.heap.Evolves 0 h' ∧ e' = (e.reset low h').enterScope env)
      (e.Disturbed low) (e.reset (low ++ [v]) h) := by
  refine .bind (.popped (.get ?_))
  have hh' := hh.environment none (some e.env)
  refine .bind (.bind (.change (fun h' hd => .modified ?_) fun f hf => ?_))
  · exact ⟨_, h', hh'.define hd, rfl⟩
  · exact disturbed_nil (Environment.define_error hf) hh'

end Loop

end ScriptEngine
