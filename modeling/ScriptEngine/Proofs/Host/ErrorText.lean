import ScriptEngine.Proofs.Host.Entry
import ScriptEngine.Proofs.Host.Limits
import ScriptEngine.Proofs.Machine.Currency

namespace ScriptEngine

open Engine

section Creation

variable {h : Heap} {owner : Handle} {name : String} {value : Value}

theorem Heap.Upholds.insert_getD (ht : h.Tidy) (hv : value.Current h) (a : Handle) (name : String) :
    h.Upholds ((h.insertProperty? a name value).getD h) := by
  cases hi : h.insertProperty? a name value with
  | none => exact .refl ht
  | some h' => exact .insertProperty? ht hv hi

namespace Engine

theorem upholds_install (ht : h.Tidy) (owner : Handle) (f : Builtin) : h.Upholds (install owner h f) := by
  have hup := Heap.Upholds.alloc ht (.object (.of (.native f)))
  refine hup.trans (.insert_getD hup.tidy (fun b hb => ?_) owner f.name)
  obtain rfl := Option.some.inj hb
  exact Heap.current_alloc ht fun _ hc => by cases hc

theorem upholds_installs (ht : h.Tidy) (owner : Handle) (fs : List Builtin) : h.Upholds (fs.foldl (install owner) h) := by
  induction fs generalizing h with
  | nil => exact .refl ht
  | cons f fs ih =>
    have hup := upholds_install ht owner f
    exact hup.trans (ih hup.tidy)

theorem upholds_setGlobals {entries : List (String × Value)} (ht : h.Tidy) (owner : Handle)
    (hv : ∀ p ∈ entries, p.2.Current h) : h.Upholds (entries.foldl (setGlobal owner) h) := by
  induction entries generalizing h with
  | nil => exact .refl ht
  | cons p entries ih =>
    have hup : h.Upholds (setGlobal owner h p) := .insert_getD ht (hv p (.head _)) owner p.1
    exact hup.trans (ih hup.tidy fun q hq => hup.among (hv q (.tail _ hq)))

theorem upholds_populate (ht : h.Tidy) (global : Handle) : h.Upholds (populate global h) := by
  delta populate
  dsimp only
  have hglobals := upholds_installs ht global Builtin.globals
  generalize Builtin.globals.foldl (install global) h = h₁ at hglobals ⊢
  have hmade : h₁.Upholds (h₁.allocObject (.of .plain)).2 := .alloc hglobals.tidy _
  have hmath : (h₁.allocObject (.of .plain)).2.Current (h₁.allocObject (.of .plain)).1 :=
    Heap.current_alloc hglobals.tidy fun _ hc => by cases hc
  generalize h₁.allocObject (.of .plain) = made at hmade hmath ⊢
  have hmembers := upholds_installs hmade.tidy made.1 Builtin.mathMembers
  generalize Builtin.mathMembers.foldl (install made.1) made.2 = h₂ at hmembers ⊢
  have hpi : h₂.Upholds (setGlobal made.1 h₂ ("PI", .number pi)) :=
    .insert_getD hmembers.tidy (Value.among_of_plain rfl) made.1 "PI"
  generalize setGlobal made.1 h₂ ("PI", .number pi) = h₃ at hpi ⊢
  refine (((hglobals.trans hmade).trans hmembers).trans hpi).trans (upholds_setGlobals hpi.tidy global ?_)
  have hobject : (Value.object made.1).Current h₃ := by
    intro b hb
    obtain rfl := Option.some.inj hb
    exact hpi.current _ (hmembers.current _ hmath)
  simp only [List.mem_cons, List.not_mem_nil, or_false, forall_eq_or_imp, forall_eq]
  exact ⟨hobject, Value.among_of_plain rfl, Value.among_of_plain rfl, Value.among_of_plain rfl⟩

theorem current_create {flags : Flags} {limits : Limits} {e : Engine} (hc : create? flags limits = some e) : e.Current := by
  simp only [create?] at hc
  split at hc
  · have hregistry : (Heap.empty.allocObject (.of .plain)).2.Current (Heap.empty.allocObject (.of .plain)).1 :=
      Heap.current_alloc Heap.tidy_empty fun _ hb => by cases hb
    have ht₁ : (Heap.empty.allocObject (.of .plain)).2.Tidy := Heap.tidy_empty.alloc _
    generalize Heap.empty.allocObject (.of .plain) = registry at hc hregistry ht₁
    obtain ⟨registry, h₁⟩ := registry
    have hup₂ : h₁.Upholds (h₁.allocObject (.of .plain)).2 := .alloc ht₁ _
    have hglobal : (h₁.allocObject (.of .plain)).2.Current (h₁.allocObject (.of .plain)).1 :=
      Heap.current_alloc ht₁ fun _ hb => by cases hb
    generalize h₁.allocObject (.of .plain) = global at hc hup₂ hglobal
    obtain ⟨global, h₂⟩ := global
    have hup₃ : h₂.Upholds (Environment.alloc h₂ (some global) none).2 := .alloc hup₂.tidy _
    have henv : (Environment.alloc h₂ (some global) none).2.Current (Environment.alloc h₂ (some global) none).1 :=
      Heap.current_alloc hup₂.tidy fun b hb => by
        obtain rfl := List.mem_singleton.mp hb
        exact hglobal
    generalize Environment.alloc h₂ (some global) none = env at hc hup₃ henv
    have hup₄ := upholds_populate hup₃.tidy global
    generalize populate global env.2 = h₄ at hc hup₄
    obtain rfl := Option.some.inj hc
    have hrest := hup₃.trans hup₄
    exact ⟨hup₄.tidy, hrest.current _ (hup₂.current _ hregistry), hrest.current _ hglobal, hup₄.current _ henv,
      hup₄.current _ henv, List.forall_mem_nil _, List.forall_mem_nil _, List.forall_mem_nil _⟩
  · cases hc

end Engine

end Creation

namespace Machine

variable {m : Machine} {L₀ : Level}

theorem Current.result {r : EStateM.Result Error Engine Value} (h : m.Current) (hr : m.result? = some r) :
    Fares Value.Current Telling r := by
  obtain ⟨e, tasks, control⟩ := m
  cases control with
  | running | calling => cases hr
  | returning result =>
    simp only [result?] at hr
    split at hr
    · obtain rfl := Option.some.inj hr
      cases result <;> exact ⟨h.engine, h.control⟩
    · cases hr

theorem current_ofLoaded {r : EStateM.Result Error Engine Value} (hr : Fares Value.Current Telling r) :
    (ofLoaded r).Current := by
  cases r with
  | error error e => exact ⟨hr.1, hr.2⟩
  | ok closure e =>
    refine ⟨hr.1, fun a ha => ?_, hr.2, List.forall_mem_nil _⟩
    obtain rfl := Option.some.inj ha
    exact hr.1.global

theorem Orderly.evolves (h : m.Orderly L₀) (k : Nat) : ∃ n, m.engine.heap.Evolves n (Machine.step^[k] m).engine.heap := by
  induction k with
  | zero => exact ⟨0, .refl⟩
  | succ k ih =>
    obtain ⟨n, hn⟩ := ih
    rw [Function.iterate_succ_apply']
    exact ⟨_, hn.trans (h.run k).ages.heap⟩

end Machine

namespace Engine

variable {e : Engine} {fuel : Nat} {r : EStateM.Result Error Engine Value}

theorem loading_fares (h : e.Current) (l : Loading) : Fares Value.Current Telling (l.load e) := by
  cases l with
  | text name source mode => exact load_fares h name source mode
  | file path stream => exact loadFile_fares h path stream

theorem evaluate_fares (h : e.Current) (hh : e.heap.OnlyCompiled) (l : Loading)
    (hr : e.evaluate fuel l.load = some r) : Fares Value.Current Bears r ∧ ∃ n, e.heap.Evolves n (stateOf r).heap := by
  rw [evaluate_eq] at hr
  cases hb : beginProtected e with
  | error error e₁ =>
    have hbears := (beginProtected_fares h).failed hb
    rw [hb] at hr
    obtain rfl := Option.some.inj hr
    exact ⟨hbears, 0, Session.crowded_evolves hb⟩
  | ok scope e₁ =>
    have hheap := beginProtected_heap hb
    obtain ⟨h₁, -⟩ := (beginProtected_fares h).returned hb
    rw [hb] at hr
    obtain ⟨r', hrun, rfl⟩ := Option.map_eq_some_iff.mp hr
    rw [Machine.run_eq_result] at hrun
    obtain ⟨ho, hkeeps⟩ := Machine.orderly_of_load (hheap ▸ hh) (l.load_ensures e₁)
    have hm := (Machine.current_ofLoaded (loading_fares h₁ l)).run ho fuel
    refine ⟨endProtected_fares (hm.result hrun) scope, ?_⟩
    obtain ⟨n, hran⟩ := ho.evolves fuel
    have hended := endProtected_evolves scope r'
    rw [Session.engine_of_result hrun] at hended
    rw [← hheap]
    exact ⟨_, (hkeeps.1.heap.trans hran).trans hended⟩

end Engine

/-- Whatever a script fails with in a fresh instance, the error says what the value shows that is left on
top of the stack. As long as no error object contains itself, the text is that of the whole value, to any
depth. -/
theorem error_says_what_its_value_shows {flags : Flags} {limits : Limits} {e₀ e : Engine} {fuel : Nat} {error : Error}
    (hc : create? flags limits = some e₀) (output diagnostics : Sink) (l : Loading)
    (hr : evaluate fuel l.load { e₀ with output, diagnostics } = some (.error error e)) :
    ∃ v, e.stack.back? = some v ∧ error.text = e.display v ∧
      (e.heap.Unknotted → ∀ depth, e.heap.chainLimit ≤ depth → error.text = e.heap.displayWithin depth v) := by
  have hcurrent : Current { e₀ with output, diagnostics } := { current_create hc with }
  have hcompiled : e₀.heap.OnlyCompiled := onlyCompiled_create hc
  have hfresh : e₀.heap.slots.size ≤ e₀.heap.born := (evolves_create hc).size_le (Nat.le_refl 0)
  obtain ⟨hfares, n, hevolves⟩ := evaluate_fares hcurrent hcompiled l hr
  obtain ⟨v, htop, htext⟩ := hfares.2
  have hsize : e.heap.slots.size ≤ e.heap.born := hevolves.size_le hfresh
  refine ⟨v, htop, htext, fun hu depth hd => htext.trans ?_⟩
  exact (Heap.display_eq_of_unknotted hu hsize hd v).symm

def thrownAgain : Loading :=
  .text "sample" ("var n = RangeError('b'), x = TypeError('a'); x.name = n; " ++
    "try \x7b eval('throw x;'); \x7d catch (e) \x7b e.message = 'again'; gc(); throw e; \x7d") .program

theorem error_says_what_its_value_shows_when_thrown_again :
    ∃ e₀ error e v, create? .none {} = some e₀ ∧ evaluate 40 thrownAgain.load e₀ = some (.error error e) ∧
      error.text = "RangeError: b: again" ∧ e.stack.back? = some v ∧ e.heap.Unknotted ∧
      ∀ depth, e.heap.chainLimit ≤ depth → error.text = e.heap.displayWithin depth v := by
  have hok : (create? .none {}).any (fun e₀ =>
      ((evaluate 40 thrownAgain.load e₀).bind failureOf?).any fun failed =>
        failed.1.text == "RangeError: b: again" && failed.2.heap.mentionsBefore) = true := by decide +kernel
  obtain ⟨e₀, hc, hrun⟩ := (Option.any_eq_true _ _).mp hok
  obtain ⟨⟨error, e⟩, hfailed, hend⟩ := (Option.any_eq_true _ _).mp hrun
  obtain ⟨r, hr, hf⟩ := Option.bind_eq_some_iff.mp hfailed
  obtain rfl := eq_error_of_failureOf? hf
  obtain ⟨htext, hbefore⟩ := Bool.and_eq_true_iff.mp hend
  have hu := Heap.unknotted_of_mentionsBefore hbefore
  obtain ⟨v, htop, -, hwhole⟩ := error_says_what_its_value_shows hc e₀.output e₀.diagnostics thrownAgain hr
  exact ⟨e₀, error, e, v, hc, hr, eq_of_beq htext, htop, hu, hwhole hu⟩

end ScriptEngine
