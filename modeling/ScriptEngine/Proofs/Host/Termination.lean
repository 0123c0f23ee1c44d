import Mathlib.Data.List.Iterate
import ScriptEngine.Proofs.Host.Entry
import ScriptEngine.Proofs.Host.Limits
import ScriptEngine.Proofs.Machine.Countdown
import ScriptEngine.Proofs.Machine.Reentry

namespace ScriptEngine

open Engine

variable {P : CodeUnit → Prop} {n limit k : Nat} {m : Machine} {L₀ : Level}

theorem Stacked.length_floors_le {L : Level} {ls : List Layer} {fl : List Nat} (h : Stacked L₀ ls fl L) :
    fl.length ≤ L.trace.length := by
  induction h with
  | host => exact Nat.zero_le _
  | guard _ _ ih => exact ih
  | native _ t _ ih =>
    rw [List.length_append]
    exact Nat.le_add_right_of_le ih
  | entry _ ih => exact ih
  | frame _ hs _ ih =>
    obtain ⟨t, ht⟩ := hs.trace
    rw [ht, List.length_append]
    exact Nat.succ_le_succ ih

namespace Machine

theorem Orderly.frames_le {e : Engine} {tasks : List Task} {entry : Entry} {g : CallFrame} {callers : List CallFrame}
    (h : Orderly L₀ ⟨e, tasks, .running entry (g :: callers)⟩) : callers.length + 1 ≤ e.trace.size := by
  obtain ⟨fl, hf⟩ := h.fits
  cases hf with
  | @intro _ _ _ fl L _ _ _ hst hs _ =>
    obtain ⟨t, ht⟩ := hs.trace
    have hcallers : callers.length ≤ fl.length := by
      rw [hst.length_floors, List.countP_append, List.countP_map]
      have hall : callers.countP (Layer.isFrame ∘ Layer.frame) = callers.length :=
        List.countP_eq_length.mpr fun _ _ => rfl
      omega
    have hsize : e.trace.size = L.trace.length + 1 := by
      rw [← length_trace, ht, List.length_append]
      rfl
    have hfloors := hst.length_floors_le
    omega

def builtin? (m : Machine) : Option Builtin :=
  match m.control with
  | .running _ (g :: _) => g.builtin? m.engine
  | _ => none

inductive Wanes (P : CodeUnit → Prop) (n limit : Nat) : Nat → Machine → Prop
  | running {e : Engine} {entry : Entry} {frames : List CallFrame} {k : Nat} (scopes : List ScopeId) :
      e.ClosesOver P → (∀ g ∈ frames, g.Admitted P) → countdown n limit frames + scopes.length < k →
        Wanes P n limit k ⟨e, scopes.map .guard, .running entry frames⟩
  | returning {e : Engine} {result : Except Error Value} {k : Nat} (scopes : List ScopeId) :
      scopes.length ≤ k → Wanes P n limit k ⟨e, scopes.map .guard, .returning result⟩

namespace Wanes

theorem of_winds {s : Loop} {bound : Nat} {scopes : List ScopeId} {entry : Entry}
    (hs : s.Winds P n limit bound) (hk : bound + scopes.length ≤ k) :
    Wanes P n limit k ⟨s.engine, scopes.map .guard, .running entry s.frames⟩ := by
  have hsooner := hs.sooner
  exact .running _ hs.closes hs.admitted (by omega)

theorem raise {s : Loop} {bound : Nat} {scopes : List ScopeId} (hs : s.Winds P n limit bound)
    (hk : bound + scopes.length ≤ k) (entry : Entry) (error : Error) :
    Wanes P n limit k (raise entry error (scopes.map .guard) s) := by
  simp only [Machine.raise]
  cases hc : Loop.catch? error s.engine s.frames with
  | some caught =>
    have hcaught : caught.Winds P n limit (countdown n limit s.frames) := Loop.catch?_winds hs.closes hs.admitted hc
    have hsooner := hs.sooner
    exact of_winds hcaught (by omega)
  | none => exact .returning _ (by omega)

theorem step (hP : Onwards P n) (h : Wanes P n limit (k + 1) m) (ho : m.Orderly L₀)
    (hlimit : m.engine.limits.traceLimit = limit) (hx : m.builtin? ≠ some .eval) : Wanes P n limit k m.step := by
  cases h with
  | @running e entry frames _ scopes hcloses ha hk =>
    cases frames with
    | nil => exact .returning _ (by omega)
    | cons g callers =>
      have hsteps := Loop.step_winds hP hcloses ha ho.frames_le hlimit hx
      have hbound : countdown n limit (g :: callers) + scopes.length ≤ k := Nat.le_of_lt_succ hk
      simp only [Machine.step]
      cases hs : Loop.step ⟨e, g :: callers⟩ with
      | error error s => exact .raise (hsteps.error hs) hbound entry error
      | ok signal s =>
        obtain ⟨hsignal, hwinds⟩ := hsteps.ok hs
        cases signal with
        | proceed => exact of_winds hwinds hbound
        | finished v => exact .returning _ (by omega)
        | evaluate closure base => cases hsignal
  | @returning e result _ scopes hk =>
    cases scopes with
    | nil => exact .returning [] (Nat.zero_le _)
    | cons scope scopes =>
      have hk : scopes.length ≤ k := Nat.le_of_succ_le_succ hk
      simp only [List.map_cons, Machine.step, resume]
      split <;> exact .returning _ hk

theorem ends (hP : Onwards P n) (h : Wanes P n limit k m) (ho : m.Orderly L₀)
    (hlimit : m.engine.limits.traceLimit = limit) (hx : ∀ j, (Machine.step^[j] m).builtin? ≠ some .eval) :
    ∃ r, (Machine.step^[k] m).result? = some r := by
  induction k generalizing m with
  | zero =>
    cases h with
    | running _ _ _ hk => exact absurd hk (Nat.not_lt_zero _)
    | @returning e result _ scopes hk =>
      obtain rfl := List.length_eq_zero_iff.mp (Nat.le_zero.mp hk)
      exact ⟨resultIn e result, rfl⟩
  | succ k ih =>
    have hlimits : m.step.engine.limits = m.engine.limits := congrArg (·.2.1) ho.ages.fixed
    exact ih (h.step hP ho hlimit (hx 0)) ho.step (by rw [hlimits, hlimit]) fun j => hx (j + 1)

theorem call {e : Engine} {closure : Value} {unit : CodeUnit} {env : Handle} (h : e.ClosesOver P)
    (hc : e.callee closure = .ok (.closure unit env)) (receiver : Value) (n limit : Nat) :
    ∃ k, Wanes P n limit k (call receiver closure [] [] e) := by
  simp only [Machine.call]
  cases hb : beginProtected e with
  | error error e₁ => exact ⟨0, .returning [] (Nat.le_refl 0)⟩
  | ok scope e₁ =>
    have hreturning (e : Engine) (result : Except Error Value) :
        ∃ k, Wanes P n limit k ⟨e, [.guard scope], .returning result⟩ :=
      ⟨1, .returning [scope] (Nat.le_refl 1)⟩
    dsimp only
    cases hp : pushAll [closure, receiver] e₁ with
    | error error e₂ => exact hreturning _ _
    | ok _ e₂ =>
      obtain ⟨-, hlevel⟩ := (pushAll_ensures [closure, receiver] e₁).ok hp
      have hheap : e₂.heap = e.heap := by
        have hpushed := pushAll_heap [closure, receiver] e₁
        rw [hp] at hpushed
        exact hpushed.trans (beginProtected_heap hb)
      have hcloses : e₂.ClosesOver P := by simpa only [Engine.ClosesOver, hheap] using h
      have hcallee : e₂.callee closure = .ok (.closure unit env) := by simpa only [callee, display, hheap] using hc
      have hsite : callSite 0 e₂ = .ok ⟨e₁.stack.toList.length, receiver, [], .closure unit env⟩ e₂ :=
        callSite_of_layout (congrArg Level.stack hlevel) hcallee
      simp only [List.length_nil, start, hsite]
      split
      · exact hreturning _ _
      · cases hn : enterClosure unit env ⟨e₁.stack.toList.length, receiver, [], .closure unit env⟩
            { e₂ with loops := e₂.loops + 1 } with
        | error error e₃ => exact hreturning _ _
        | ok frame e₃ =>
          have hdeeper : { e₂ with loops := e₂.loops + 1 }.ClosesOver P := hcloses
          have hentered : e₃.ClosesOver P := (allows_closesOver.enterClosure _ _ _).returned hn hdeeper
          obtain ⟨-, _, _, _, -, rfl⟩ := (enterClosure_ensures _ _ _ _).ok hn
          refine ⟨_, .running [scope] hentered ?_ (Nat.lt_succ_self _)⟩
          rw [List.forall_mem_singleton]
          exact ⟨hcloses.callee hcallee, List.forall_mem_nil _⟩

end Wanes

theorem builtin?_of_result {r : EStateM.Result Error Engine Value} (h : m.result? = some r) : m.builtin? = none := by
  obtain ⟨e, result, rfl⟩ := eq_of_result? h
  rfl

end Machine

def isLoopFree (source : String) : Bool :=
  match parse source with
  | .ok items => Stmt.allLoopFree items
  | .error _ => true

def Loading.LoopFree : Loading → Prop
  | .text _ source _ => isLoopFree source = true
  | .file path stream => ∀ ledger buffer, (SourceBuffer.ofFile path stream ledger).1 = .ok buffer →
      isLoopFree buffer.text = true

namespace Engine

variable {e e' : Engine} {v : Value}

def Heads (v : Value) (e : Engine) : Prop :=
  ∃ u env, e.callee v = .ok (.closure u env) ∧ e.ClosesOver u.Contains ∧ Onwards u.Contains u.longest

theorem heads_of_heap (h : e.Heads v) (hh : e'.heap = e.heap) : e'.Heads v := by
  obtain ⟨u, env, hc, hcloses, hu⟩ := h
  refine ⟨u, env, ?_, ?_, hu⟩
  · simpa only [callee, display, hh] using hc
  · simpa only [ClosesOver, hh] using hcloses

theorem compile_onwards {name source : String} {u : CodeUnit} (hl : isLoopFree source = true)
    (hu : compile name source e = .ok u e') : Onwards u.Contains u.longest := by
  rw [compile_eq] at hu
  unfold isLoopFree at hl
  cases hp : parse source with
  | error d =>
    rw [hp] at hu
    cases hu
  | ok items =>
    rw [hp] at hu hl
    dsimp only at hu
    cases hc : SyntaxTree.compile ⟨name, items⟩ e.strict with
    | error d =>
      rw [hc] at hu
      cases hu
    | ok w =>
      rw [hc] at hu
      cases hu
      exact ⟨fun v hv => hv.advances hl hc, fun v hv w hw => .function hv hw, fun v hv => hv.size_le⟩

theorem load_heads {name source : String} {mode : LoadMode} (hl : isLoopFree source = true) (ht : e.heap.Tidy)
    (hnone : ∀ P, e.ClosesOver P) (hload : load name source mode e = .ok v e') : e'.Heads v := by
  obtain ⟨id, e₁, u, hb, hu, rfl, hh'⟩ := load_eq_ok hload
  have hh := beginProtected_heap hb
  have hcloses : (target mode e₁).2.ClosesOver u.Contains := by
    have hnone₁ : e₁.ClosesOver u.Contains := by simpa only [ClosesOver, hh] using hnone u.Contains
    simp only [target]
    split
    · exact hnone₁.environment _ _
    · exact hnone₁
  refine heads_of_heap ⟨u, _, callee_closureOf (target_tidy mode (hh ▸ ht)) u _, ?_, compile_onwards hl hu⟩ hh'
  exact hcloses.alloc .self

theorem loadFile_heads {path : String} {file : Option Stream} (hl : (Loading.file path file).LoopFree)
    (ht : e.heap.Tidy) (hnone : ∀ P, e.ClosesOver P) (hload : loadFile path file e = .ok v e') : e'.Heads v := by
  obtain ⟨e₁, e₂, ledger, buffer, hh, hfile, hload, hh'⟩ := loadFile_eq_ok hload
  have hnone₁ (P : CodeUnit → Prop) : e₁.ClosesOver P := by simpa only [ClosesOver, hh] using hnone P
  exact heads_of_heap (load_heads (hl ledger buffer hfile) (hh ▸ ht) hnone₁ hload) hh'

def NeverCalls (e : Engine) (f : Builtin) (l : Loading) : Prop :=
  ∀ scope e₁, beginProtected e = .ok scope e₁ → ∀ k, (Machine.step^[k] (.ofLoaded (l.load e₁))).builtin? ≠ some f

theorem neverCalls_of_result {f : Builtin} {l : Loading} {scope : ScopeId} {r : EStateM.Result Error Engine Value}
    (hb : beginProtected e = .ok scope e') (hr : (Machine.step^[n] (.ofLoaded (l.load e'))).result? = some r)
    (hx : ∀ k < n, (Machine.step^[k] (.ofLoaded (l.load e'))).builtin? ≠ some f) : e.NeverCalls f l := by
  intro scope' e₁ hb' k
  rw [hb] at hb'
  cases hb'
  rcases Nat.lt_or_ge k n with hk | hk
  · exact hx k hk
  · obtain ⟨more, rfl⟩ := Nat.exists_eq_add_of_le' hk
    rw [Machine.builtin?_of_result (Machine.of_result? hr more).1]
    exact (Option.some_ne_none f).symm

end Engine

theorem Loading.LoopFree.load_heads {e e' : Engine} {l : Loading} {v : Value} (hl : l.LoopFree) (ht : e.heap.Tidy)
    (hnone : ∀ P, e.ClosesOver P) (hload : l.load e = .ok v e') : e'.Heads v := by
  cases l with
  | text name source mode => exact Engine.load_heads hl ht hnone hload
  | file path stream => exact Engine.loadFile_heads hl ht hnone hload

/-- A script without loops comes to an end in a fresh instance, whatever functions it has and however they
call each other, inside try statements and out of them, unless it has a text evaluated. -/
theorem loop_free_scripts_end {flags : Flags} {limits : Limits} {e : Engine} (hc : create? flags limits = some e)
    (output diagnostics : Sink) {l : Loading} (hl : l.LoopFree)
    (hx : NeverCalls { e with output, diagnostics } .eval l) :
    ∃ n r, ∀ fuel, n ≤ fuel → evaluate fuel l.load { e with output, diagnostics } = some r := by
  have hfresh (P : CodeUnit → Prop) : e.heap.ClosesOver P := closesOver_create hc
  have hnone (P : CodeUnit → Prop) : Engine.ClosesOver P { e with output, diagnostics } := hfresh P
  have htidy : ({ e with output, diagnostics } : Engine).heap.Tidy := (sound_create hc).tidy
  have hcompiled : ({ e with output, diagnostics } : Engine).heap.OnlyCompiled := onlyCompiled_create (e := e) hc
  generalize ({ e with output, diagnostics } : Engine) = e at *
  cases hb : beginProtected e with
  | error error e₁ => exact ⟨0, .error error e₁, fun fuel _ => by rw [evaluate_eq, hb]⟩
  | ok scope e₁ =>
    have hheap := beginProtected_heap hb
    obtain ⟨r, n, hr⟩ : ∃ r n, (Machine.step^[n] (.ofLoaded (l.load e₁))).result? = some r := by
      have hsteps := hx scope e₁ hb
      obtain ⟨ho, -⟩ := Machine.orderly_of_load (hheap ▸ hcompiled) (l.load_ensures e₁)
      cases hload : l.load e₁ with
      | error error e₂ => exact ⟨.error error e₂, 0, rfl⟩
      | ok closure e₂ =>
        rw [hload] at ho hsteps
        have hnone₁ (P : CodeUnit → Prop) : e₁.ClosesOver P := by simpa only [ClosesOver, hheap] using hnone P
        obtain ⟨u, env, hcallee, hcloses, hu⟩ := hl.load_heads (hheap ▸ htidy) hnone₁ hload
        obtain ⟨k, hk⟩ := Machine.Wanes.call hcloses hcallee (.object e₂.global) u.longest
          (Machine.call (.object e₂.global) closure [] [] e₂).engine.limits.traceLimit
        obtain ⟨r, hr⟩ := hk.ends hu ho.step rfl fun j => hsteps (j + 1)
        exact ⟨r, k + 1, hr⟩
    refine ⟨n, endProtected scope r, fun fuel hf => ?_⟩
    obtain ⟨more, rfl⟩ := Nat.exists_eq_add_of_le' hf
    rw [evaluate_eq, hb]
    dsimp only
    rw [Machine.run_eq_result, (Machine.of_result? hr more).1]
    rfl

def relapsing : Loading :=
  .text "relapse" "function f() \x7b try \x7b f(); \x7d catch (e) \x7b f(); \x7d \x7d\nf();" .program

theorem loop_free_scripts_end_of_relapsing :
    ∃ e n r, create? .none { traceLimit := 4 } = some e ∧ relapsing.LoopFree ∧ NeverCalls e .eval relapsing ∧
      ∀ fuel, n ≤ fuel → evaluate fuel relapsing.load e = some r := by
  have hfree : relapsing.LoopFree := by
    show isLoopFree _ = true
    decide +kernel
  have hok : (create? .none { traceLimit := 4 }).any (fun e =>
      (valueOf? (beginProtected e)).any fun begun =>
        (Machine.step^[31] (.ofLoaded (relapsing.load begun.2))).result?.isSome &&
          (List.iterate Machine.step (.ofLoaded (relapsing.load begun.2)) 31).all fun m =>
            decide (m.builtin? ≠ some .eval)) = true := by decide +kernel
  obtain ⟨e, hc, hrest⟩ := (Option.any_eq_true _ _).mp hok
  obtain ⟨⟨scope, e₁⟩, hb, hrest⟩ := (Option.any_eq_true _ _).mp hrest
  obtain ⟨hended, hcalls⟩ := Bool.and_eq_true_iff.mp hrest
  obtain ⟨r, hr⟩ := Option.isSome_iff_exists.mp hended
  have hnever : NeverCalls e .eval relapsing := by
    refine neverCalls_of_result (eq_ok_of_valueOf? hb) hr fun k hk => ?_
    exact of_decide_eq_true (List.all_eq_true.mp hcalls _ (List.mem_iterate.mpr ⟨k, hk, rfl⟩))
  obtain ⟨n, r', hends⟩ := loop_free_scripts_end hc e.output e.diagnostics hfree hnever
  exact ⟨e, n, r', hc, hfree, hnever, hends⟩

end ScriptEngine
