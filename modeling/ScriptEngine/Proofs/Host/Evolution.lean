import ScriptEngine.Proofs.Host.Discipline
import ScriptEngine.Proofs.Host.ErrorText

namespace ScriptEngine

open Engine

namespace Host

variable {κ χ α : Type} {panics : Panics κ χ} {h h' : Host κ χ}

def Evolving (x : Host κ χ → Option (Record κ χ α)) : Prop :=
  ∀ h r, x h = some r → h.engine.heap.OnlyCompiled → ∃ n, h.engine.heap.Evolves n r.host.engine.heap

theorem throw_evolves {error error' : Error} (hp : ∀ k, Evolving (panics k)) (hh : h.engine.heap.OnlyCompiled)
    (ht : throw panics.handlers error h = some (error', h')) : ∃ n, h.engine.heap.Evolves n h'.engine.heap := by
  simp only [throw] at ht
  split at ht
  · obtain ⟨-, rfl⟩ := Prod.mk.inj (Option.some.inj ht)
    exact ⟨0, .refl⟩
  · obtain ⟨v, heap, hheap, hv⟩ := exceptionValue_spec error h.engine
    rw [hv] at ht
    cases hk : h.handler with
    | none =>
      simp only [panic, hk, Option.map_some, Option.some.injEq, Prod.mk.injEq] at ht
      obtain ⟨-, rfl⟩ := ht
      exact ⟨0, hheap⟩
    | some k =>
      simp only [panic, hk, Panics.handlers, Option.map_map, Option.map_eq_some_iff] at ht
      obtain ⟨r, hrun, hrest⟩ := ht
      obtain ⟨-, rfl⟩ := Prod.mk.inj hrest
      obtain ⟨n, hn⟩ := hp k _ r hrun (hh.evolves hheap)
      exact ⟨_, hheap.trans hn⟩

theorem surface_evolves {r : EStateM.Result Error Engine α} {outcome : Outcome κ χ α} (hp : ∀ k, Evolving (panics k))
    (hh : (stateOf r).heap.OnlyCompiled) (hs : surface panics.handlers h r = some outcome) :
    ∃ n, (stateOf r).heap.Evolves n (stateOf outcome).engine.heap := by
  cases r with
  | ok a e =>
    obtain rfl := Option.some.inj hs
    exact ⟨0, .refl⟩
  | error error e =>
    obtain ⟨⟨error', h'⟩, ht, rfl⟩ := Option.map_eq_some_iff.mp hs
    exact throw_evolves (h := { h with engine := e }) hp hh ht

theorem surface_evolves_after {r : EStateM.Result Error Engine α} {outcome : Outcome κ χ α} {n : Nat}
    (hp : ∀ k, Evolving (panics k)) (hh : h.engine.heap.OnlyCompiled) (hr : h.engine.heap.Evolves n (stateOf r).heap)
    (hs : surface panics.handlers h r = some outcome) :
    ∃ n, h.engine.heap.Evolves n (stateOf outcome).engine.heap := by
  obtain ⟨k, hk⟩ := surface_evolves hp (hh.evolves hr) hs
  exact ⟨_, hr.trans hk⟩

theorem perform_evolves {action : Action κ χ} {fuel : Nat} {outcome : Outcome κ χ Reply}
    (hp : ∀ k, Evolving (panics k)) (hh : h.engine.heap.OnlyCompiled)
    (ha : action.perform panics.handlers fuel h = some outcome) :
    ∃ n, h.engine.heap.Evolves n (stateOf outcome).engine.heap := by
  cases action with
  | operate operation =>
    obtain rfl := Option.some.inj ha
    rw [engine_receive]
    exact ⟨2, (operation.perform_moves h.engine).1.heap⟩
  | throw error =>
    obtain ⟨⟨error', h'⟩, ht, rfl⟩ := Option.map_eq_some_iff.mp ha
    exact throw_evolves hp hh ht
  | rethrow error =>
    obtain ⟨⟨error', h'⟩, ht, rfl⟩ := Option.map_eq_some_iff.mp ha
    have hheap := carry_heap error h.engine
    rw [← hheap] at hh ⊢
    exact throw_evolves (h := { h with engine := (h.engine.carry error).2 }) hp hh ht
  | load name source mode =>
    obtain ⟨outcome', hs, rfl⟩ := Option.map_eq_some_iff.mp ha
    rw [Action.stateOf_reply]
    exact surface_evolves_after hp hh ((Loading.text name source mode).load_keeps h.engine).1.heap hs
  | loadFile path file =>
    obtain ⟨outcome', hs, rfl⟩ := Option.map_eq_some_iff.mp ha
    rw [Action.stateOf_reply]
    exact surface_evolves_after hp hh ((Loading.file path file).load_keeps h.engine).1.heap hs
  | call receiver callee args =>
    obtain ⟨outcome', hc, rfl⟩ := Option.map_eq_some_iff.mp ha
    obtain ⟨r, hcalled, hs⟩ := Option.bind_eq_some_iff.mp hc
    obtain ⟨n, hran⟩ := (Machine.Orderly.calling hh receiver callee args).evolves fuel
    rw [← Session.engine_of_call hcalled] at hran
    rw [Action.stateOf_reply]
    exact surface_evolves_after hp hh hran hs
  | setHandler handler =>
    obtain rfl := Option.some.inj ha
    exact ⟨0, .refl⟩
  | setContext context =>
    obtain rfl := Option.some.inj ha
    exact ⟨0, .refl⟩

theorem Evolving.protect {body : Host κ χ → Option (Record κ χ α)} (hb : Evolving body) :
    Evolving (Host.protect body) := by
  intro h r hrun hh
  simp only [Host.protect] at hrun
  cases hx : Engine.beginProtected h.engine with
  | error error e =>
    rw [hx] at hrun
    obtain rfl := Option.some.inj hrun
    exact ⟨0, Session.crowded_evolves hx⟩
  | ok id e =>
    rw [hx] at hrun
    obtain ⟨b, hbody, rfl⟩ := Option.map_eq_some_iff.mp hrun
    have hheap := beginProtected_heap hx
    obtain ⟨n, hn⟩ := hb _ b hbody (hheap ▸ hh)
    have hended := endProtected_evolves id (within b.outcome)
    rw [stateOf_within] at hended
    rw [Record.host, Host.endProtected, engine_receive, ← hheap]
    exact ⟨_, hn.trans hended⟩

end Host

open Host

variable {κ χ α : Type} {h : Host κ χ}

theorem Program.run_evolves {panics : Panics κ χ} (hp : ∀ k, Evolving (panics k)) (fuel : Nat) (p : Program κ χ α) :
    Evolving (p.run panics fuel) := by
  induction p with
  | done result =>
    intro h r hr _
    cases result <;>
    · obtain rfl := Option.some.inj hr
      exact ⟨0, .refl⟩
  | act action next ih =>
    intro h r hr hh
    obtain ⟨outcome, ha, hmap⟩ := Option.bind_eq_some_iff.mp hr
    obtain ⟨rest, hnext, rfl⟩ := Option.map_eq_some_iff.mp hmap
    obtain ⟨n, hn⟩ := perform_evolves hp hh ha
    obtain ⟨k, hk⟩ := ih _ _ _ rest hnext (hh.evolves hn)
    exact ⟨_, hn.trans hk⟩
  | protect body next ihb ih =>
    intro h r hr hh
    obtain ⟨b, hb, hmap⟩ := Option.bind_eq_some_iff.mp hr
    obtain ⟨rest, hnext, rfl⟩ := Option.map_eq_some_iff.mp hmap
    obtain ⟨n, hn⟩ := ihb.protect h b hb hh
    obtain ⟨k, hk⟩ := ih _ _ _ rest hnext (hh.evolves hn)
    exact ⟨_, hn.trans hk⟩

theorem Program.panics_evolve (handler : κ → Program κ χ Unit) (fuel : Nat) (k : κ) :
    Evolving (Program.panics handler fuel k) := by
  induction fuel generalizing k with
  | zero =>
    intro h r hr
    cases hr
  | succ fuel ih => exact run_evolves ih fuel (handler k)

theorem Host.Reached.tidy {handler : κ → Program κ χ Unit} {n : Nat} (hr : Reached handler n h) :
    h.engine.heap.Tidy ∧ h.engine.heap.OnlyCompiled := by
  induction hr with
  | created hc => exact ⟨(current_create hc).tidy, onlyCompiled_create hc⟩
  | ran _ hrun ih =>
    obtain ⟨k, hk⟩ := Program.run_evolves (Program.panics_evolve handler _) _ _ _ _ hrun ih.2
    exact ⟨ih.1.evolves hk, ih.2.evolves hk⟩
  | @raised error _ h _ _ ih =>
    obtain ⟨v, heap, hheap, hv⟩ := exceptionValue_spec error h.engine
    simp only [Host.update, hv]
    exact ⟨ih.1.evolves hheap, ih.2.evolves hheap⟩

end ScriptEngine
