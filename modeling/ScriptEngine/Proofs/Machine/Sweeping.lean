import ScriptEngine.Proofs.Machine.Launch

namespace ScriptEngine

open Engine

namespace Machine

def sweep (asked : Bool) (m : Machine) : Machine :=
  match m.control with
  | .running _ _ => if asked then { m with engine := m.engine.gc.2 } else m
  | .calling _ _ _ | .returning _ => m

def sweeping (asked : Nat → Bool) : Nat → Machine → Machine
  | 0, m => m
  | n + 1, m => ((sweeping asked n m).sweep (asked n)).step

def sweptCollections (asked : Nat → Bool) : Nat → Machine → Nat
  | 0, _ => 0
  | n + 1, m =>
    let before := sweeping asked n m
    let swept := before.sweep (asked n)
    sweptCollections asked n m + before.engine.heap.collectionsTo swept.engine.heap +
      swept.engine.heap.collectionsTo swept.step.engine.heap

variable {L₀ : Level} {m m' : Machine} {k n : Nat}

theorem runs_of_level {ls : List Layer} {fl : List Nat} {e e' : Engine} {frames : List CallFrame}
    (h : Loop.Runs L₀ ls fl ⟨e, frames⟩) (hl : e'.level = e.level) : Loop.Runs L₀ ls fl ⟨e', frames⟩ := by
  cases h with
  | intro hst hs hw => exact .intro hst (hl ▸ hs) (hl ▸ hw)
  | idle hst he => exact .idle hst (hl.trans he)

section Sweep

theorem sweep_evolves (asked : Bool) (m : Machine) : m.engine.heap.Evolves 1 (m.sweep asked).engine.heap := by
  simp only [sweep]
  split
  · split
    · exact .collect 0 _ .refl
    · exact .refl
  · exact .refl
  · exact .refl

theorem Orderly.sweep (h : m.Orderly L₀) (asked : Bool) : (m.sweep asked).Orderly L₀ := by
  obtain ⟨e, tasks, control⟩ := m
  cases control with
  | running entry frames =>
    cases asked with
    | false => exact h
    | true =>
      obtain ⟨fl, hf⟩ := h.fits
      have hlevel : e.gc.2.level = e.level := rfl
      refine ⟨h.compiled.collectSince 0 e.roots, ⟨fl, runs_of_level hf hlevel⟩, ?_⟩
      intro g N hmem
      exact h.moored g N hmem
  | calling | returning => exact h

theorem Alike.sweep (h : m.Alike 1 m') (asked : Bool) : m.Alike 0 (m'.sweep asked) := by
  obtain ⟨e, tasks, control⟩ := m
  obtain ⟨e', tasks', control'⟩ := m'
  obtain ⟨ρ, he, ht, hc⟩ := h
  cases hc with
  | running entry hf =>
    cases asked with
    | false => exact ⟨ρ, he.less, ht, .running entry hf⟩
    | true =>
      obtain ⟨ρ', he'⟩ := he.collectMore 0
      exact ⟨ρ', he', ht, .running entry hf⟩
  | calling hr hv ha => exact ⟨ρ, he.less, ht, .calling hr hv ha⟩
  | value hv => exact ⟨ρ, he.less, ht, .value hv⟩
  | error hx => exact ⟨ρ, he.less, ht, .error hx⟩

end Sweep

theorem Alike.room (h : m.Alike 0 m') (hd : m'.engine.heap.Dated k) (hk : k + 2 < 2 ^ 32) : m.Alike 1 m' := by
  obtain ⟨ρ, he, ht, hc⟩ := h
  exact ⟨ρ, ⟨he.akin, he.heap.within hd hk⟩, ht, hc⟩

/-- Machines that differ in their handles, at the same step of runs with and without additional
collections. The second has made `k` collections. -/
structure Abreast (L₀ : Level) (k : Nat) (m m' : Machine) : Prop where
  alike : m.Alike 0 m'
  orderly : m.Orderly L₀
  orderly' : m'.Orderly L₀
  sound : m'.engine.heap.Sound k

namespace Abreast

theorem swept (h : Abreast L₀ k m m') (asked : Bool)
    (hk : k + m'.engine.heap.collectionsTo (m'.sweep asked).engine.heap + 2 < 2 ^ 32) :
    Abreast L₀ (k + m'.engine.heap.collectionsTo (m'.sweep asked).engine.heap) m (m'.sweep asked) where
  alike := (h.alike.room h.sound.dated (by omega)).sweep asked
  orderly := h.orderly
  orderly' := h.orderly'.sweep asked
  sound := h.sound.evolves ((sweep_evolves asked m').mono (by omega)) (by omega)

theorem step (h : Abreast L₀ k m m')
    (hk : k + m'.engine.heap.collectionsTo m'.step.engine.heap + 2 < 2 ^ 32) :
    Abreast L₀ (k + m'.engine.heap.collectionsTo m'.step.engine.heap) m.step m'.step where
  alike := (h.alike.room h.sound.dated (by omega)).step h.orderly.moored h.orderly'.moored
    (h.orderly'.room h.sound.dated hk)
  orderly := h.orderly.step
  orderly' := h.orderly'.step
  sound := h.sound.evolves h.orderly'.ages.heap (by omega)

theorem sweeping (h : Abreast L₀ k m m') (asked : Nat → Bool) (n : Nat)
    (hk : k + sweptCollections asked n m' + 2 < 2 ^ 32) :
    Abreast L₀ (k + sweptCollections asked n m') (Machine.step^[n] m) (Machine.sweeping asked n m') := by
  induction n with
  | zero => exact h
  | succ n ih =>
    simp only [sweptCollections] at hk
    have hbefore := ih (by omega)
    have hswept := hbefore.swept (asked n) (by omega)
    have hstep := hswept.step (by omega)
    rw [Function.iterate_succ_apply']
    simpa only [sweptCollections, Nat.add_assoc, Machine.sweeping] using hstep

end Abreast

theorem sweptCollections_le (ho : m.Orderly L₀) (hs : m.engine.heap.Sound k) (asked : Nat → Bool) (n : Nat)
    (hk : k + 3 * n + 1 < 2 ^ 32) :
    sweptCollections asked n m ≤ 3 * n ∧ (sweeping asked n m).Orderly L₀ ∧
      (sweeping asked n m).engine.heap.Sound (k + sweptCollections asked n m) := by
  induction n with
  | zero => exact ⟨Nat.le_refl _, ho, hs⟩
  | succ n ih =>
    obtain ⟨hle, ho₁, hs₁⟩ := ih (by omega)
    have hswept := sweep_evolves (asked n) (sweeping asked n m)
    have hle₁ := hs₁.dated.collectionsTo_le hswept (by omega)
    have hs₂ := hs₁.evolves (hswept.mono (by omega)) (by omega)
    have ho₂ := ho₁.sweep (asked n)
    have hle₂ := hs₂.dated.collectionsTo_le ho₂.ages.heap (by omega)
    have hs₃ := hs₂.evolves ho₂.ages.heap (by omega)
    simp only [sweptCollections, sweeping]
    refine ⟨by omega, ho₂.step, ?_⟩
    simpa only [Nat.add_assoc] using hs₃

theorem Alike.result (h : m.Alike k m') : Option.Rel (Engine.Like k Value.Alike) m.result? m'.result? := by
  obtain ⟨e, tasks, control⟩ := m
  obtain ⟨e', tasks', control'⟩ := m'
  obtain ⟨ρ, he, ht, hc⟩ := h
  cases hc with
  | running | calling => exact .none
  | value hv =>
    cases ht with
    | nil => exact .some (.ok ⟨ρ, he, hv⟩)
    | cons => exact .none
  | error hx =>
    cases ht with
    | nil => exact .some (.error ⟨ρ, he, hx⟩)
    | cons => exact .none

/-- Collections cannot be noticed. A script that was loaded into a fresh instance runs as it would
without the additional collections, whichever steps of its loops they come before: after every
number of steps it has printed the same, it has come to its end or not, and if so the results are
alike, so that the cells that can be reached from them correspond one to one. -/
theorem sweeping_unobserved {flags : Flags} {limits : Limits} {e : Engine} {script : Script} {scope : ScopeId}
    (hc : create? flags limits = some e) (hl : e.Launches script.load scope m) (asked : Nat → Bool) (n : Nat)
    (hn : e.heap.collectionsTo m.engine.heap + sweptCollections asked n m < 2 ^ 32 - 2) :
    (step^[n] m).engine.output = (sweeping asked n m).engine.output ∧
      (step^[n] m).engine.diagnostics = (sweeping asked n m).engine.diagnostics ∧
      Option.Rel (Engine.Like 0 Value.Alike) (e.evaluate n script.load)
        ((sweeping asked n m).result?.map (endProtected scope)) := by
  obtain ⟨ρ, he⟩ := create_alike hc
  have hs := sound_create hc
  have hstart : Abreast m.engine.level (0 + e.heap.collectionsTo m.engine.heap) m m :=
    ⟨hl.alike he hs.dated (by omega), hl.orderly hs.compiled, hl.orderly hs.compiled, hl.sound hs (by omega)⟩
  have hrun := hstart.sweeping asked n (by omega)
  obtain ⟨ρ', he', -, -⟩ := hrun.alike
  refine ⟨he'.akin.output, he'.akin.diagnostics, ?_⟩
  have hresult := (hrun.alike.room hrun.sound.dated (by omega)).result
  rw [evaluate_of_launches n hl]
  generalize (step^[n] m).result? = r at hresult ⊢
  generalize (sweeping asked n m).result? = r' at hresult ⊢
  cases hresult with
  | none => exact .none
  | some h => exact .some (h.endProtected scope)

theorem sweeping_unobserved_at_every_step :
    ∃ e scope m v e', create? .none {} = some e ∧
      e.Launches (Script.text "sample" "var o = \x7b a: 'b' \x7d; print(o.a); o;").load scope m ∧
      (sweeping (fun _ => true) 40 m).result?.map (endProtected scope) = some (.ok v e') ∧
      e'.output = .capture "b\n" := by
  have hok : (create? .none {}).any (fun e =>
      (valueOf? (beginProtected e)).any fun begun =>
        (valueOf? ((Script.text "sample" "var o = \x7b a: 'b' \x7d; print(o.a); o;").load begun.2)).isSome &&
        ((e.evaluate 40 (Script.text "sample" "var o = \x7b a: 'b' \x7d; print(o.a); o;").load).bind valueOf?).any
          fun r => r.2.output = .capture "b\n") = true := by decide +kernel
  obtain ⟨e, he, hbegun⟩ := (Option.any_eq_true _ _).mp hok
  obtain ⟨⟨scope, e₁⟩, hb, hrest⟩ := (Option.any_eq_true _ _).mp hbegun
  obtain ⟨hload, hran⟩ := Bool.and_eq_true_iff.mp hrest
  obtain ⟨⟨closure, e₂⟩, hloaded⟩ := Option.isSome_iff_exists.mp hload
  obtain ⟨⟨v, e₃⟩, hv, hout⟩ := (Option.any_eq_true _ _).mp hran
  obtain ⟨r, hr, hrv⟩ := Option.bind_eq_some_iff.mp hv
  have hl := Launches.intro (eq_ok_of_valueOf? hb) (eq_ok_of_valueOf? hloaded)
  have hs := sound_create he
  have hfirst := hs.dated.collectionsTo_le hl.evolves (by omega)
  have hbound := (sweptCollections_le (hl.orderly hs.compiled) (hl.sound hs (by omega)) (fun _ => true) 40 (by omega)).1
  obtain ⟨-, -, hrel⟩ := sweeping_unobserved he hl (fun _ => true) 40 (by omega)
  rw [hr, eq_ok_of_valueOf? hrv] at hrel
  generalize hswept : (sweeping _ 40 _).result?.map (endProtected scope) = swept at hrel
  cases hrel with
  | some h =>
    cases h with
    | @ok _ _ v' e' h =>
      obtain ⟨ρ, he', -⟩ := h
      exact ⟨e, scope, _, v', e', he, hl, hswept, he'.akin.output.symm.trans (of_decide_eq_true hout)⟩

end Machine

end ScriptEngine
