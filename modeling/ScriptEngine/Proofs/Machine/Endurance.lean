import ScriptEngine.Proofs.Machine.Holdings
import ScriptEngine.Proofs.Machine.Touch

namespace ScriptEngine

open Engine

theorem Engine.allows_evolves : Allows CodeUnit.Compiled fun e e' => e.heap.Evolves 0 e'.heap where
  refl _ := .refl
  trans h h' := h.trans h'
  touches h := by
    cases h with
    | alloc hc => exact .alloc .refl ((Cell.onlyCompiled_iff _).mpr hc)
    | write hw =>
      rcases hw with rfl | ⟨a, name, hi⟩
      · exact .refl
      · exact Heap.Evolves.refl.insertProperty? hi
    | push | restack | enterTrace | retrace | enterProtected | leaveProtected | rescope => exact .refl

namespace Loop

variable {frame : CallFrame} {callers frames : List CallFrame} {held : Handle → Prop} {e : Engine} {n : Nat}

def heap (s : Loop) : Heap := s.engine.heap

theorem call_keeps_held (ht : e.heap.Tidy) (hd : e.heap.Dated n) (hn : n + 2 < 2 ^ 32)
    (hheld : ∀ a, held a → e.heap.Reaches e.roots a) (argc : Nat) :
    e.heap.Spares held (stateOf (call callers argc ⟨e, frames⟩)).heap := by
  have hsite := callSite_state argc e
  show e.heap.Spares held (stateOf (EStateM.bind (within (callSite argc)) _ _)).heap
  simp only [EStateM.bind, within]
  cases hs : callSite argc e with
  | error error e₁ =>
    obtain rfl : e₁ = e := by rw [hs] at hsite; exact hsite
    exact .refl _ _
  | ok site e₁ =>
    obtain rfl : e₁ = e := by rw [hs] at hsite; exact hsite
    obtain ⟨base, receiver, args, callee⟩ := site
    cases callee with
    | closure unit env =>
      exact .of_evolves ht (enterFrame_relates allows_evolves unit env _ callers ⟨e₁, frames⟩)
    | native f =>
      have hspares := (callNative_preserves f args ht hd hn).spares hheld
      have hages := callNative_ensures f args e₁
      dsimp only
      rw [get_bind]
      cases hr : callNative f args e₁ with
      | error error e₂ => rw [hr] at hspares; exact hspares
      | ok result e₂ =>
        rw [hr] at hspares
        cases result with
        | run closure => exact hspares
        | value v =>
          have ht₂ : e₂.heap.Tidy := ht.evolves (hages.ok hr).1.heap
          exact hspares.trans (.of_evolves ht₂ (pushResult_relates allows_evolves v ⟨e₂.cutStack base, frames⟩))

theorem step_keeps_held (hu : ∀ g, frames.head? = some g → g.unit.Compiled) (ht : e.heap.Tidy) (hd : e.heap.Dated n)
    (hn : n + 2 < 2 ^ 32) (hheld : ∀ a, held a → e.heap.Reaches e.roots a) :
    e.heap.Spares held (stateOf (step ⟨e, frames⟩)).heap := by
  refine Ensures.state (P := fun s : Loop => e.heap.Spares held s.heap) (.get ?_)
  cases frames with
  | nil => exact .pure (.refl _ _)
  | cons frame callers =>
    have hunit : frame.unit.Compiled := hu frame rfl
    have hexec (e' : Engine) (hheap : e'.heap = e.heap) (hroots : e'.roots = e.roots) (instr : Instr) (next : Nat)
        (frames : List CallFrame) :
        Ensures (execute { frame with next } callers instr) (fun _ s => e.heap.Spares held s.heap)
          (fun _ s => e.heap.Spares held s.heap) ⟨e', frames⟩ := by
      refine .of_state (P := fun s : Loop => e.heap.Spares held s.heap) ?_
      rw [← hheap] at ht hd hheld ⊢
      rw [← hroots] at hheld
      by_cases hc : ∃ argc, instr = .call argc
      · obtain ⟨argc, rfl⟩ := hc
        exact call_keeps_held ht hd hn hheld argc
      · have hmoved : CodeUnit.Compiled (CallFrame.unit { frame with next }) := hunit
        have hb := execute_relates allows_evolves (fun _ hu => hmoved.functions hu) callers (not_exists.mp hc)
        exact .of_evolves ht (hb ⟨e', frames⟩)
    dsimp only
    cases frame.unit.code[frame.next]? with
    | none =>
      have hb := returnFrom_relates allows_evolves frame callers none ⟨e, frame :: callers⟩
      exact .of_state (P := fun s : Loop => e.heap.Spares held s.heap) (.of_evolves ht hb)
    | some instr =>
      dsimp only
      split
      · rename_i line _
        exact .bind (.modified (.bind (.modified (hexec (e.atLine line) rfl rfl instr _ _))))
      · exact .bind (.modified (hexec e rfl rfl instr _ _))

theorem catch?_unwinds {error : Error} {s : Loop} (hc : catch? error e frames = some s) :
    ∃ id, s.engine = (e.unwind id error).2 := by
  induction frames with
  | nil => cases hc
  | cons frame callers ih =>
    simp only [catch?] at hc
    split at hc
    · exact ih hc
    · rename_i handler handlers _
      obtain rfl := Option.some.inj hc
      exact ⟨handler.scope, rfl⟩

end Loop

section Loading

variable {e : Engine} {n : Nat}

theorem Engine.readFile_heap (path : String) (file : Option Stream) (e : Engine) :
    Ensures (readFile path file) (fun _ e' => e'.heap = e.heap) (fun _ e' => e'.heap = e.heap) e := by
  refine .get ?_
  generalize SourceBuffer.ofFile path file e.ledger = opened
  obtain ⟨read, ledger⟩ := opened
  refine .bind (.set ?_)
  cases read with
  | ok buffer => exact .pure rfl
  | error error => exact .throw rfl

theorem Engine.loadBuffer_preserves (path : String) (buffer : SourceBuffer) (ht : e.heap.Tidy) (hd : e.heap.Dated n)
    (hn : n + 2 < 2 ^ 32) : e.heap.Preserves e.roots (stateOf (loadBuffer path buffer e)).heap := by
  have hload := load_preserves path buffer.text .program ht hd hn
  simp only [loadBuffer]
  cases hl : load path buffer.text .program e with
  | ok closure e₁ => rw [hl] at hload; exact hload
  | error error e₁ => rw [hl] at hload; exact hload

theorem Engine.readBuffer_preserves (path : String) (file : Option Stream) (ht : e.heap.Tidy) (hd : e.heap.Dated n)
    (hn : n + 2 < 2 ^ 32) : e.heap.Preserves e.roots (stateOf ((readFile path file >>= loadBuffer path) e)).heap := by
  have hkeeps := readFile_ensures path file e
  have hheap := readFile_heap path file e
  show e.heap.Preserves e.roots (stateOf (EStateM.bind (readFile path file) (loadBuffer path) e)).heap
  simp only [EStateM.bind]
  cases hr : readFile path file e with
  | error error e₁ =>
    rw [show (stateOf (.error error e₁ : EStateM.Result Error Engine Value)).heap = e.heap from hheap.error hr]
    exact .refl _ _
  | ok buffer e₁ =>
    obtain ⟨hages, hlevel⟩ := hkeeps.ok hr
    have hroots : e.roots ⊆ e₁.roots := by
      refine roots_subset hages.fixed ?_ ?_ ?_ <;> rw [hlevel] <;> exact fun _ h => h
    rw [← hheap.ok hr] at ht hd ⊢
    exact (loadBuffer_preserves path buffer ht hd hn).fewer hroots

theorem Script.load_preserves (script : Script) (ht : e.heap.Tidy) (hd : e.heap.Dated n)
    (hn : n + e.heap.collectionsTo (stateOf (script.load e)).heap + 2 < 2 ^ 32) :
    e.heap.Preserves e.roots (stateOf (script.load e)).heap := by
  cases script with
  | text name source => exact Engine.load_preserves name source .program ht hd (by omega)
  | file path stream =>
    refine guarding_preserves (readBuffer_ensures path stream) ht ?_
    intro id e₁ hb
    refine ⟨?_, loadFile_midway hd hn hb⟩
    have hroots := roots_beginProtected hb
    rw [← beginProtected_heap hb] at ht hd ⊢
    exact (readBuffer_preserves path stream ht hd (by omega)).fewer hroots

end Loading

section Unwinding

variable {h : Heap} {held : Handle → Prop} {e : Engine}

theorem Engine.unwind_steady (hs : h.Spares held e.heap) (ht : e.heap.Tidy) (id : ScopeId) (error : Error) :
    h.Steady held (e.unwind id error).2.heap := by
  simp only [unwind]
  split
  · obtain ⟨v, h₁, hh, hv⟩ := exceptionValue_spec .unbalancedScope e
    rw [hv]
    exact (hs.trans (.of_evolves ht hh)).steady
  · rename_i frame frames _
    obtain ⟨v, h₁, hh, hv⟩ := exceptionValue_spec error { e with frames }
    rw [hv]
    exact ⟨h₁, hs.trans (.of_evolves ht hh), .collectSince _ _ _⟩

theorem Engine.endProtected_steady {α : Type} {r : EStateM.Result Error Engine α} (hs : h.Spares held (stateOf r).heap)
    (ht : (stateOf r).heap.Tidy) (id : ScopeId) : h.Steady held (stateOf (endProtected id r)).heap := by
  cases r with
  | error error e => exact unwind_steady hs ht id error
  | ok a e =>
    have hl := leaveProtected_ensures id e
    simp only [endProtected]
    cases hx : leaveProtected id e with
    | ok _ e₁ =>
      obtain ⟨frame, frames, -, -, rfl⟩ := hl.ok hx
      exact hs.steady
    | error error e₁ =>
      obtain ⟨-, rfl, -⟩ := hl.error hx
      exact unwind_steady hs ht id error

namespace Machine

open Engine

variable {tasks : List Task} {n : Nat}

theorem raise_steady {s : Loop} (hs : h.Spares held s.heap) (ht : s.heap.Tidy) (entry : Entry) (error : Error) :
    h.Steady held (raise entry error tasks s).engine.heap := by
  simp only [raise]
  cases hc : Loop.catch? error s.engine s.frames with
  | some s' =>
    obtain ⟨id, he⟩ := Loop.catch?_unwinds hc
    simp only [he]
    exact unwind_steady hs ht id error
  | none =>
    obtain ⟨v, h₁, hh, hv⟩ := exceptionValue_spec error { s.engine with loops := s.engine.loops - 1 }
    simp only [failLoop, hv]
    cases error.carried? with
    | some value => exact hs.steady
    | none => exact (hs.trans (.of_evolves ht hh)).steady

theorem start_steady (argc : Nat) (ht : e.heap.Tidy) (hd : e.heap.Dated n) (hn : n + 2 < 2 ^ 32)
    (hheld : ∀ a, held a → e.heap.Reaches e.roots a) : e.heap.Steady held (start argc tasks e).engine.heap := by
  have hsite := callSite_state argc e
  have hkeep : e.heap.Spares held e.heap := .refl _ _
  simp only [start]
  cases hs : callSite argc e with
  | error error e₁ =>
    obtain rfl : e₁ = e := by rw [hs] at hsite; exact hsite
    exact hkeep.steady
  | ok site e₁ =>
    obtain rfl : e₁ = e := by rw [hs] at hsite; exact hsite
    obtain ⟨base, receiver, args, callee⟩ := site
    cases callee with
    | native f =>
      have hspares := (callNative_preserves f args ht hd hn).spares hheld
      simp only
      cases hr : callNative f args e₁ with
      | error error e₂ => rw [hr] at hspares; exact hspares.steady
      | ok result e₂ =>
        rw [hr] at hspares
        cases result with
        | value v => exact hspares.steady
        | run closure => exact hspares.steady
    | closure unit env =>
      simp only
      split
      · exact hkeep.steady
      · have hb : e₁.heap.Evolves 0 _ :=
          allows_evolves.enterClosure unit env ⟨base, receiver, args, .closure unit env⟩ { e₁ with loops := e₁.loops + 1 }
        cases hr : enterClosure unit env ⟨base, receiver, args, .closure unit env⟩ { e₁ with loops := e₁.loops + 1 } with
        | ok frame e₂ =>
          rw [hr] at hb
          exact (Heap.Spares.of_evolves ht hb).steady
        | error error e₂ =>
          rw [hr] at hb
          exact raise_steady (s := ⟨e₂, []⟩) (.of_evolves ht hb) (ht.evolves hb) _ error

theorem pushAll_heap (values : List Value) (e : Engine) : (stateOf (pushAll values e)).heap = e.heap := by
  induction values generalizing e with
  | nil => rfl
  | cons v values ih =>
    show (stateOf (EStateM.bind (push v) _ e)).heap = _
    simp only [EStateM.bind, push_eq]
    split
    · rename_i hx
      split at hx
      · cases hx
      · cases hx
        exact ih _
    · rename_i hx
      split at hx <;> cases hx
      rfl

theorem call_steady (receiver callee : Value) (args : List Value) (ht : e.heap.Tidy) (hd : e.heap.Dated n)
    (hn : n + 2 < 2 ^ 32)
    (hheld : ∀ a, held a → e.heap.Reaches (e.roots ++ (receiver :: callee :: args).filterMap (·.handle?)) a) :
    e.heap.Steady held (call receiver callee args tasks e).engine.heap := by
  simp only [call]
  cases hb : beginProtected e with
  | error error e₁ =>
    obtain ⟨-, rfl⟩ := (beginProtected_ensures e).error hb
    obtain ⟨v, h₁, hh, hv⟩ := exceptionValue_spec error e
    simp only [carry_heap, hv]
    exact (Heap.Spares.of_evolves ht hh).steady
  | ok scope e₁ =>
    have hheap := beginProtected_heap hb
    have hpushed := pushAll_heap (callee :: receiver :: args) e₁
    have hx := pushAll_ensures (callee :: receiver :: args) e₁
    simp only
    cases hp : pushAll (callee :: receiver :: args) e₁ with
    | error error e₂ =>
      rw [hp] at hpushed
      rw [show e₂.heap = e.heap from hpushed.trans hheap]
      exact (Heap.Spares.refl _ _).steady
    | ok _ e₂ =>
      rw [hp] at hpushed
      obtain ⟨ha, hl⟩ := hx.ok hp
      have hroots : e.roots ⊆ e₂.roots := by
        have hstack : e₁.level.stack ⊆ e₂.level.stack := hl ▸ List.subset_append_left _ _
        have hgrown := roots_subset ha.fixed hstack (hl ▸ List.Subset.refl _) (hl ▸ List.Subset.refl _)
        exact List.Subset.trans (roots_beginProtected hb) hgrown
      have hvalues : (receiver :: callee :: args).filterMap (·.handle?) ⊆ e₂.roots := by
        intro a hm
        obtain ⟨v, hv, hva⟩ := List.mem_filterMap.mp hm
        refine mem_roots.mpr (.inr (.inr (.inr (.inr (.inr ⟨v, ?_, hva⟩)))))
        rw [hl]
        refine List.mem_append_right _ ?_
        simp only [List.mem_cons] at hv ⊢
        exact or_left_comm.mp hv
      have hsame : e₂.heap = e.heap := hpushed.trans hheap
      rw [← hsame] at ht hd hheld ⊢
      refine start_steady args.length ht hd hn ?_
      intro a hm
      exact (hheld a hm).mono (List.append_subset.mpr ⟨hroots, hvalues⟩)

theorem resume_steady (result : Except Error Value) (ht : e.heap.Tidy) (task : Task) :
    e.heap.Steady held (resume result tasks e task).engine.heap := by
  have hkeep : e.heap.Spares held e.heap := .refl _ _
  cases task with
  | guard scope =>
    have hstate := stateOf_resultIn e result
    have hend : e.heap.Steady held (stateOf (carried (endProtected scope (resultIn e result)))).heap := by
      rw [carried_heap]
      refine endProtected_steady ?_ ?_ scope
      · rw [hstate]
        exact hkeep
      · rw [hstate]
        exact ht
    simp only [resume]
    cases hr : carried (endProtected scope (resultIn e result)) with
    | ok v e₁ => rw [hr] at hend; exact hend
    | error error e₁ => rw [hr] at hend; exact hend
  | native base => exact hkeep.steady
  | loop entry frames =>
    cases result with
    | error error => exact raise_steady (s := ⟨e, frames⟩) hkeep ht entry error
    | ok v =>
      simp only [resume, push_eq]
      split
      · rename_i hx
        split at hx <;> cases hx
        exact hkeep.steady
      · rename_i hx
        split at hx <;> cases hx
        exact raise_steady (s := ⟨e, frames⟩) hkeep ht entry _

theorem Orderly.step_steady {L₀ : Level} {m : Machine} (h : m.Orderly L₀) (ht : m.engine.heap.Tidy)
    (hd : m.engine.heap.Dated n) (hn : n + 2 < 2 ^ 32) :
    m.engine.heap.Steady (m.engine.heap.Reaches m.holdings) m.step.engine.heap := by
  have hheld (a : Handle) (ha : m.engine.heap.Reaches m.holdings a) :
      m.engine.heap.Reaches (m.engine.roots ++ m.control.values.filterMap (·.handle?)) a :=
    ha.mono (holdings_subset h.moored)
  obtain ⟨e, tasks, control⟩ := m
  cases control with
  | calling receiver callee args => exact call_steady receiver callee args ht hd hn hheld
  | returning result =>
    cases tasks with
    | nil => exact (Heap.Spares.refl _ _).steady
    | cons task tasks => exact resume_steady result ht task
  | running entry frames =>
    obtain ⟨fl, hf⟩ := h.fits
    have hu : ∀ g, frames.head? = some g → g.unit.Compiled := by
      intro g hg
      cases hf with
      | idle => cases hg
      | intro hst hs hw =>
        obtain rfl := Option.some.inj hg
        exact hs.compiled
    have hroots (a : Handle) (ha : e.heap.Reaches (holdings ⟨e, tasks, .running entry frames⟩) a) :
        e.heap.Reaches e.roots a := by
      simpa [Control.values] using hheld a ha
    have hspares := Loop.step_keeps_held hu ht hd hn hroots
    have hx := Loop.step_ensures h.compiled hf
    simp only [Machine.step]
    cases hs : Loop.step ⟨e, frames⟩ with
    | ok signal s =>
      rw [hs] at hspares
      cases signal with
      | proceed => exact hspares.steady
      | finished v => exact hspares.steady
      | evaluate closure base => exact hspares.steady
    | error error s =>
      rw [hs] at hspares
      exact raise_steady hspares (ht.evolves (hx.error hs).2.1.heap) entry error

end Machine

end Unwinding

end ScriptEngine
