import ScriptEngine.Proofs.Engine.Level

namespace ScriptEngine.Engine

variable {e : Engine}

theorem keeps_ledger (ledger : Ledger) : e.Keeps 0 { e with ledger } :=
  ⟨⟨.refl, Nat.le_refl _, rfl⟩, rfl⟩

theorem Keeps.trans {e' e'' : Engine} {m n : Nat} (h : e.Keeps m e') (h' : e'.Keeps n e'') :
    e.Keeps (m + n) e'' :=
  ⟨h.1.trans h'.1, h'.2.trans h.2⟩

theorem Keeps.mono {e' : Engine} {m n : Nat} (h : e.Keeps m e') (hmn : m ≤ n) : e.Keeps n e' :=
  ⟨h.1.mono hmn, h.2⟩

theorem compile_ensures (name source : String) (e : Engine) :
    Ensures (compile name source) (fun unit e' => unit.Compiled ∧ e.Keeps 0 e') (e.KeepsFailing 0) e := by
  refine .get ?_
  generalize SyntaxTree.acquire name source e.ledger = acquired
  obtain ⟨parsed, ledger⟩ := acquired
  refine .bind (.set ?_)
  cases parsed with
  | error d => exact .throw ⟨rfl, keeps_ledger _⟩
  | ok tree =>
    refine .bind (.modified ?_)
    cases hc : tree.compile e.strict with
    | error d => exact .throw ⟨rfl, keeps_ledger _⟩
    | ok unit =>
      refine .pure ⟨?_, keeps_ledger _⟩
      simp only [SyntaxTree.compile] at hc
      split at hc
      · rename_i hs
        cases hc
        exact .script hs
      · cases hc

theorem bindSource_ensures (name source : String) (mode : LoadMode) (e : Engine) :
    Ensures (bindSource name source mode) (fun _ => e.Keeps 0) (e.KeepsFailing 0) e := by
  refine .bind ((compile_ensures name source e).mono ?_ fun error e' h => h)
  rintro unit e₁ ⟨hu, ⟨ha, hl⟩⟩
  refine .bind (.modifyGet (.modifyGet ?_))
  by_cases hm : mode = .eval ∧ e₁.strict
  · simp only [target, if_pos hm]
    exact ⟨⟨(ha.heap.environment none (some e₁.env)).alloc hu, ha.serial, ha.fixed⟩, hl⟩
  · simp only [target, if_neg hm]
    exact ⟨⟨ha.heap.alloc hu, ha.serial, ha.fixed⟩, hl⟩

theorem load_ensures (name source : String) (mode : LoadMode) (e : Engine) :
    Ensures (load name source mode) (fun _ => e.Keeps 1) (e.KeepsFailing 1) e :=
  guarding_ensures (bindSource_ensures name source mode) e

theorem readFile_ensures (path : String) (file : Option Stream) (e : Engine) :
    Ensures (readFile path file) (fun _ => e.Keeps 0) (e.KeepsFailing 0) e := by
  refine .get ?_
  generalize SourceBuffer.ofFile path file e.ledger = opened
  obtain ⟨read, ledger⟩ := opened
  refine .bind (.set ?_)
  cases read with
  | ok buffer => exact .pure (keeps_ledger _)
  | error error => exact .throw ⟨rfl, keeps_ledger _⟩

theorem loadBuffer_ensures (path : String) (buffer : SourceBuffer) (e : Engine) :
    Ensures (loadBuffer path buffer) (fun _ => e.Keeps 1) (e.KeepsFailing 1) e := by
  have hx := load_ensures path buffer.text .program e
  simp only [Ensures, loadBuffer]
  cases hl : load path buffer.text .program e with
  | ok value e₁ => exact (hx.ok hl).trans (keeps_ledger _)
  | error error e₁ =>
    obtain ⟨hi, hk⟩ := hx.error hl
    exact ⟨hi, hk.trans (keeps_ledger _)⟩

theorem loadFile_ensures (path : String) (file : Option Stream) (e : Engine) :
    Ensures (loadFile path file) (fun _ => e.Keeps 2) (e.KeepsFailing 2) e := by
  refine guarding_ensures (fun e => .bind ((readFile_ensures path file e).mono ?_ ?_)) e
  · intro buffer e₁ hk
    refine (loadBuffer_ensures path buffer e₁).mono (fun _ _ h => ?_) fun _ _ h => ⟨h.1, ?_⟩
    · simpa using hk.trans h
    · simpa using hk.trans h.2
  · intro error e₁ h
    exact ⟨h.1, h.2.mono (by omega)⟩

theorem print_ensures (args : List Value) (e : Engine) :
    Ensures (print args) (fun _ => e.Keeps 0) (e.KeepsFailing 0) e := by
  refine .get ?_
  split
  · exact ⟨⟨.refl, Nat.le_refl _, rfl⟩, rfl⟩
  · exact .fault ⟨rfl, .refl, rfl⟩

theorem makeError_keeps (name : ErrorName) (args : List Value) (e : Engine) :
    e.Keeps 0 (e.makeError name args).2 := by
  simp only [makeError]
  split <;> exact ⟨⟨.alloc .refl trivial, Nat.le_refl _, rfl⟩, rfl⟩

theorem native_ensures (f : Builtin) (args : List Value) (e : Engine) :
    Ensures (native f args) (fun _ => e.Keeps 1) (e.KeepsFailing 1) e := by
  have hk : e.Keeps 1 e := ⟨.refl, rfl⟩
  refine .get ?_
  cases f with
  | print =>
    refine .bind ((print_ensures args e).mono (fun _ e' h => .pure ?_) fun error e' h => ?_)
    · exact h.mono (by omega)
    · exact ⟨h.1, h.2.mono (by omega)⟩
  | makeError name => exact .bind (.modifyGet (.pure ((makeError_keeps name args e).mono (by omega))))
  | string => cases args <;> exact .pure hk
  | number => cases args <;> exact .pure hk
  | isNaN => exact .pure hk
  | isFinite => exact .pure hk
  | eval =>
    cases args with
    | nil => exact .pure hk
    | cons value args =>
      cases value with
      | string source =>
        exact .bind ((load_ensures "(eval)" source .eval e).mono (fun _ e' h => .pure h)
          fun error e' h => h)
      | undefined | null | boolean | number | object => exact .pure hk
  | gc => exact .bind (.modified (.pure ⟨⟨.collect 0 e.roots .refl, Nat.le_refl _, rfl⟩, rfl⟩))
  | math function => exact .pure hk

theorem enterTrace_ensures (entry : TraceEntry) (e : Engine) :
    Ensures (enterTrace entry) (fun _ e' => e' = { e with trace := e.trace.push entry })
      (fun error e' => error.isInternal = false ∧ e' = e) e := by
  refine .get (.get ?_)
  split
  · exact .bind (.fault ⟨rfl, rfl⟩)
  · exact .modified rfl

def Answers (e : Engine) : NativeResult → Engine → Prop
  | .value _, e' => e.Keeps 1 e'
  | .run _, e' => e.Ages 1 e' ∧ ∃ t, e'.level = { e.level with trace := e.level.trace ++ [t] }

theorem callNative_ensures (f : Builtin) (args : List Value) (e : Engine) :
    Ensures (callNative f args) e.Answers (e.KeepsFailing 1) e := by
  have ht := enterTrace_ensures ⟨f.name, "native", 0⟩ e
  simp only [Ensures, callNative]
  cases hte : enterTrace ⟨f.name, "native", 0⟩ e with
  | error error e₁ =>
    obtain ⟨hi, rfl⟩ := ht.error hte
    exact ⟨hi, .refl, rfl⟩
  | ok _ e₁ =>
    obtain rfl := ht.ok hte
    have hn := native_ensures f args { e with trace := e.trace.push ⟨f.name, "native", 0⟩ }
    have leave {e' : Engine} (h : Keeps { e with trace := e.trace.push ⟨f.name, "native", 0⟩ } 1 e') :
        e.Keeps 1 e'.leaveTrace := by
      refine ⟨⟨h.1.heap, h.1.serial, h.1.fixed⟩, ?_⟩
      have hl : { e'.level with trace := e'.level.trace.dropLast } = e.level := by
        rw [h.2]
        simp [level]
      simpa [level, leaveTrace] using hl
    cases hne : native f args { e with trace := e.trace.push ⟨f.name, "native", 0⟩ } with
    | error error e₂ =>
      obtain ⟨hi, hk⟩ := hn.error hne
      simp only [hne]
      exact ⟨hi, leave hk⟩
    | ok result e₂ =>
      have hk := hn.ok hne
      simp only [hne]
      cases result with
      | value value => exact leave hk
      | run closure =>
        refine ⟨⟨hk.1.heap, hk.1.serial, hk.1.fixed⟩, ⟨f.name, "native", 0⟩, hk.2.trans ?_⟩
        simp [level]

end ScriptEngine.Engine
