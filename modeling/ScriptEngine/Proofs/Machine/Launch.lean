import ScriptEngine.Proofs.Host.Neutral
import ScriptEngine.Proofs.Machine.Likeness

namespace ScriptEngine

open Engine

namespace Heap

theorem Dated.midway {h h₁ h₂ : Heap} {n : Nat} (hd : h.Dated n) (h₁e : h.Evolves 1 h₁) (h₂e : h₁.Evolves 1 h₂)
    (hn : n + h.collectionsTo h₂ + 2 < 2 ^ 32) : ∃ n₁, h₁.Dated n₁ ∧ n₁ + 2 < 2 ^ 32 := by
  obtain ⟨j, hj, he, hdate⟩ := h₁e.numbers
  obtain ⟨i, hi, he', -⟩ := h₂e.numbers
  refine ⟨n + j, hdate n hd (by omega), ?_⟩
  have hepoch : 1 ≤ h.epoch.toNat := by
    rw [hd.epoch]
    omega
  rcases Nat.le_one_iff_eq_zero_or_eq_one.mp hj with rfl | rfl
  · omega
  · have hle : 1 ≤ h.collectionsTo h₂ := by
      rcases Nat.le_one_iff_eq_zero_or_eq_one.mp hi with rfl | rfl
      · rw [collectionsTo, he', he]
        exact le_epochAfter_sub (k := 1) hepoch (by omega)
      · rw [collectionsTo, he', he]
        exact Nat.le_trans (by omega) (le_epochAfter_sub (k := 2) hepoch (by omega))
    omega

theorem Dated.collectionsTo_le {h h' : Heap} {n j : Nat} (hd : h.Dated n) (he : h.Evolves j h')
    (hn : n + j + 1 < 2 ^ 32) : h.collectionsTo h' ≤ j := by
  obtain ⟨i, hi, -, hdate⟩ := he.numbers
  have hd' := hdate n hd (by omega)
  have hlt := h'.epoch.toNat_lt
  have hepoch := hd.epoch
  have hepoch' := hd'.epoch
  rw [collectionsTo, UInt32.toNat_sub]
  omega

end Heap

section Creation

variable {k : Nat} {ρ : Renaming} {h h' : Heap} {owner owner' : Handle}

theorem Heap.Alike.insert_getD {v v' : Value} (hh : h.Alike k ρ h') (ho : ρ.object owner owner') (name : String)
    (hv : v.Alike ρ v') :
    ((h.insertProperty? owner name v).getD h).Alike k ρ ((h'.insertProperty? owner' name v').getD h') := by
  obtain ⟨h₁, h₁', hi, hi', hh₁⟩ := hh.insertProperty? ho name hv
  rw [hi, hi']
  exact hh₁

theorem installs_alike (hh : h.Alike k ρ h') (ho : ρ.object owner owner') (fs : List Builtin) :
    ∃ ρ', ρ.Extends ρ' ∧ (fs.foldl (install owner) h).Alike k ρ' (fs.foldl (install owner') h') := by
  induction fs generalizing ρ h h' with
  | nil => exact ⟨ρ, .refl ρ, hh⟩
  | cons f fs ih =>
    have hnative : (Object.of (.native f)).Alike ρ (.of (.native f)) := ⟨.native f, ⟨rfl, rfl⟩, .nil⟩
    obtain ⟨ρ₁, hρ₁, hh₁, ha⟩ := hh.allocObject hnative
    obtain ⟨ρ₂, hρ₂, hh₂⟩ := ih (hh₁.insert_getD (hρ₁.object ho) f.name (.object ha)) (hρ₁.object ho)
    exact ⟨ρ₂, hρ₁.trans hρ₂, hh₂⟩

theorem setGlobals_alike {entries entries' : List (String × Value)} (hh : h.Alike k ρ h') (ho : ρ.object owner owner')
    (he : PropertyMap.Alike ρ entries entries') :
    (entries.foldl (setGlobal owner) h).Alike k ρ (entries'.foldl (setGlobal owner') h') := by
  induction he generalizing h h' with
  | nil => exact hh
  | @cons p q _ _ hpq _ ih =>
    obtain ⟨name, v⟩ := p
    obtain ⟨name', v'⟩ := q
    obtain ⟨rfl, hv⟩ := hpq
    exact ih (hh.insert_getD ho name hv)

theorem populate_alike (hh : h.Alike k ρ h') (ho : ρ.object owner owner') :
    ∃ ρ', ρ.Extends ρ' ∧ (populate owner h).Alike k ρ' (populate owner' h') := by
  delta populate
  dsimp only
  obtain ⟨ρ₁, hρ₁, hh₁⟩ := installs_alike hh ho Builtin.globals
  generalize Builtin.globals.foldl (install owner) h = h₁ at hh₁ ⊢
  generalize Builtin.globals.foldl (install owner') h' = h₁' at hh₁ ⊢
  have hplain : (Object.of .plain).Alike ρ₁ (.of .plain) := ⟨.plain, ⟨rfl, rfl⟩, .nil⟩
  obtain ⟨ρ₂, hρ₂, hh₂, hm⟩ := hh₁.allocObject hplain
  obtain ⟨ρ₃, hρ₃, hh₃⟩ := installs_alike hh₂ hm Builtin.mathMembers
  have hh₄ := hh₃.insert_getD (hρ₃.object hm) "PI" (.plain (v := .number pi) rfl)
  refine ⟨ρ₃, (hρ₁.trans hρ₂).trans hρ₃, setGlobals_alike hh₄ (((hρ₁.trans hρ₂).trans hρ₃).object ho) ?_⟩
  exact .cons ⟨rfl, .object (hρ₃.object hm)⟩ (.cons ⟨rfl, .plain rfl⟩ (.cons ⟨rfl, .plain rfl⟩
    (.cons ⟨rfl, .plain rfl⟩ .nil)))

theorem empty_alike : Heap.empty.Alike 1 ⟨fun _ _ => False, fun _ _ => False⟩ .empty :=
  ⟨rfl, ⟨Heap.tidy_empty, Heap.tidy_empty⟩, ⟨0, 0, Nat.le_refl _, Heap.dated_empty, Heap.dated_empty, by omega⟩,
    ⟨fun h => h.elim, fun h => h.elim⟩, fun h => h.elim, fun h => h.elim⟩

theorem Engine.create_alike {flags : Flags} {limits : Limits} {e : Engine} (hc : create? flags limits = some e) :
    ∃ ρ, e.Alike 1 ρ e := by
  simp only [create?] at hc
  split at hc
  · have hplain (ρ : Renaming) : (Object.of .plain).Alike ρ (.of .plain) := ⟨.plain, ⟨rfl, rfl⟩, .nil⟩
    obtain ⟨ρ₁, -, hh₁, hr⟩ := empty_alike.allocObject (hplain _)
    obtain ⟨ρ₂, hρ₂, hh₂, hg⟩ := hh₁.allocObject (hplain _)
    have hscope : Environment.Alike ρ₂ ⟨_, none⟩ ⟨_, none⟩ := ⟨hg, .none⟩
    obtain ⟨ρ₃, hρ₃, hh₃, hs⟩ := hh₂.allocEnvironment hscope
    obtain ⟨ρ₄, hρ₄, hh₄⟩ := populate_alike hh₃ (hρ₃.object hg)
    obtain rfl := Option.some.inj hc
    have hr₄ := hρ₄.object (hρ₃.object (hρ₂.object hr))
    have hg₄ := hρ₄.object (hρ₃.object hg)
    exact ⟨ρ₄, ⟨rfl, rfl, rfl, rfl, rfl, rfl, rfl, rfl, rfl, .nil, .nil, hr₄, hg₄, hρ₄.scope hs, hρ₄.scope hs, .nil⟩, hh₄⟩
  · cases hc

theorem Engine.sound_create {flags : Flags} {limits : Limits} {e : Engine} (hc : create? flags limits = some e) :
    e.heap.Sound 0 :=
  Heap.Sound.evolves_zero ⟨Heap.onlyCompiled_empty, Heap.tidy_empty, Heap.dated_empty⟩ (evolves_create hc)

end Creation

inductive Script where
  | text (name source : String)
  | file (path : String) (stream : Option Stream)

namespace Script

def load : Script → EngineM Value
  | .text name source => Engine.load name source .program
  | .file path stream => Engine.loadFile path stream

theorem load_ensures (script : Script) (e : Engine) :
    Ensures script.load (fun _ => e.Keeps 2) (e.KeepsFailing 2) e := by
  cases script with
  | text name source =>
    exact (Engine.load_ensures name source .program e).mono (fun _ _ h => h.mono (by omega))
      fun _ _ h => ⟨h.1, h.2.mono (by omega)⟩
  | file path stream => exact Engine.loadFile_ensures path stream e

end Script

namespace Engine

variable {e e' : Engine} {ρ : Renaming} {n : Nat}

theorem Like.room {α β : Type} {V : Renaming → α → β → Prop} {r : EStateM.Result Error Engine α}
    {r' : EStateM.Result Error Engine β} (h : Like 0 V r r') (hd : (stateOf r').heap.Dated n) (hn : n + 2 < 2 ^ 32) :
    Like 1 V r r' := by
  cases h with
  | ok h =>
    obtain ⟨ρ, he, hV⟩ := h
    exact .ok ⟨ρ, ⟨he.akin, he.heap.within hd hn⟩, hV⟩
  | error h =>
    obtain ⟨ρ, he, hx⟩ := h
    exact .error ⟨ρ, ⟨he.akin, he.heap.within hd hn⟩, hx⟩

theorem unwind_evolves (id : ScopeId) (error : Error) (e : Engine) : e.heap.Evolves 1 (e.unwind id error).2.heap := by
  cases hf : findFrame id e.frames with
  | none =>
    obtain ⟨v, h, hh, hv⟩ := exceptionValue_spec .unbalancedScope e
    simp only [unwind, hf, hv]
    exact hh.mono (by omega)
  | some found =>
    obtain ⟨v, e', hu, ha, -⟩ := unwind_found hf error
    rw [hu]
    exact ha.heap

theorem endProtected_evolves {α : Type} (id : ScopeId) (r : EStateM.Result Error Engine α) :
    (stateOf r).heap.Evolves 1 (stateOf (endProtected id r)).heap := by
  cases r with
  | error error e => exact unwind_evolves id error e
  | ok a e =>
    have hl := leaveProtected_ensures id e
    simp only [endProtected]
    cases hx : leaveProtected id e with
    | ok _ e₁ =>
      obtain ⟨frame, frames, -, -, rfl⟩ := hl.ok hx
      exact .refl
    | error error e₁ =>
      obtain ⟨-, rfl, -⟩ := hl.error hx
      exact unwind_evolves id error e₁

theorem Like.state {α : Type} {V : Renaming → α → α → Prop} {k : Nat} {r r' : EStateM.Result Error Engine α}
    (h : Like k V r r') : ∃ ρ, (stateOf r).Alike k ρ (stateOf r') := by
  cases h with
  | ok h => exact ⟨h.choose, h.choose_spec.1⟩
  | error h => exact ⟨h.choose, h.choose_spec.1⟩

theorem readBuffer_ensures (path : String) (file : Option Stream) (e : Engine) :
    Ensures (readFile path file >>= loadBuffer path) (fun _ => e.Keeps 1) (e.KeepsFailing 1) e := by
  refine .bind ((readFile_ensures path file e).mono (fun buffer e₁ hk => ?_) fun _ _ h => ⟨h.1, h.2.mono (by omega)⟩)
  refine (loadBuffer_ensures path buffer e₁).mono (fun _ _ h => ?_) fun _ _ h => ⟨h.1, ?_⟩
  · simpa using hk.trans h
  · simpa using hk.trans h.2

theorem loadFile_midway {path : String} {file : Option Stream} {id : ScopeId} {e₁ : Engine} (hd : e.heap.Dated n)
    (hn : n + e.heap.collectionsTo (stateOf (loadFile path file e)).heap + 2 < 2 ^ 32)
    (hb : beginProtected e = .ok id e₁) :
    ∃ k, (stateOf ((readFile path file >>= loadBuffer path) e₁)).heap.Dated k ∧ k + 2 < 2 ^ 32 := by
  have hkeeps : e₁.Keeps 1 (stateOf ((readFile path file >>= loadBuffer path) e₁)) :=
    ((readBuffer_ensures path file e₁).mono (fun _ _ h => h) fun _ _ h => h.2).state
  simp only [loadFile, guarding, protect, hb, carried_heap] at hn
  rw [← beginProtected_heap hb] at hd hn
  exact hd.midway hkeeps.1.heap (endProtected_evolves id _) hn

theorem loadFile_like (he : e.Alike 1 ρ e') (path : String) (file : Option Stream) (hd : e'.heap.Dated n)
    (hn : n + e'.heap.collectionsTo (stateOf (loadFile path file e')).heap + 2 < 2 ^ 32) :
    Like 0 Value.Alike (loadFile path file e) (loadFile path file e') := by
  have hb := he.beginProtected
  simp only [Engine.loadFile, guarding, protect]
  cases hx : beginProtected e' with
  | error error' e₁' =>
    rw [hx] at hb
    generalize beginProtected e = r at hb ⊢
    cases hb with
    | error h =>
      obtain ⟨ρ₁, he₁, hx₁⟩ := h
      exact Like.carried (.error ⟨ρ₁, he₁.less, hx₁⟩)
  | ok id' e₁' =>
    obtain ⟨k, hdk, hk⟩ := loadFile_midway hd hn hx
    rw [hx] at hb
    generalize beginProtected e = r at hb ⊢
    cases hb with
    | @ok id e₁ _ _ h =>
      obtain ⟨ρ₁, he₁, rfl⟩ := h
      have hloaded : Like 0 Value.Alike ((readFile path file >>= loadBuffer path) e₁)
          ((readFile path file >>= loadBuffer path) e₁') := by
        refine Both.bind (he₁.readFile path file) ?_ fun _ _ _ _ h => ⟨ρ₁, h.1.less, h.2⟩
        rintro buffer e₂ _ e₂' ⟨he₂, rfl⟩
        exact he₂.loadBuffer path buffer
      exact ((hloaded.room hdk hk).endProtected id).carried

theorem script_like (he : e.Alike 1 ρ e') (script : Script) (hd : e'.heap.Dated n)
    (hn : n + e'.heap.collectionsTo (stateOf (script.load e')).heap + 2 < 2 ^ 32) :
    Like 0 Value.Alike (script.load e) (script.load e') := by
  cases script with
  | text name source => exact he.load name source .program
  | file path stream => exact loadFile_like he path stream hd hn

inductive Launches (load : EngineM Value) (e : Engine) : ScopeId → Machine → Prop
  | intro {scope : ScopeId} {e₁ e₂ : Engine} {closure : Value} : beginProtected e = .ok scope e₁ →
      load e₁ = .ok closure e₂ → Launches load e scope ⟨e₂, [], .calling (.object e₂.global) closure []⟩

namespace Launches

variable {script : Script} {scope : ScopeId} {m : Machine}

theorem evolves (h : e.Launches script.load scope m) : e.heap.Evolves 2 m.engine.heap := by
  cases h with
  | intro hb hl =>
    rw [← beginProtected_heap hb]
    exact ((script.load_ensures _).ok hl).1.heap

theorem sound (h : e.Launches script.load scope m) (hs : e.heap.Sound n)
    (hn : n + e.heap.collectionsTo m.engine.heap + 2 < 2 ^ 32) :
    m.engine.heap.Sound (n + e.heap.collectionsTo m.engine.heap) :=
  hs.evolves h.evolves (by omega)

theorem orderly (h : e.Launches script.load scope m) (hh : e.heap.OnlyCompiled) : m.Orderly m.engine.level := by
  have hm := hh.evolves h.evolves
  cases h with
  | intro hb hl => exact .calling hm _ _ _

theorem alike (h : e.Launches script.load scope m) (he : e.Alike 1 ρ e) (hd : e.heap.Dated n)
    (hn : n + e.heap.collectionsTo m.engine.heap + 2 < 2 ^ 32) : m.Alike 0 m := by
  cases h with
  | @intro e₁ e₂ closure hb hl =>
    have hheap := beginProtected_heap hb
    have hbegun := he.beginProtected
    rw [hb] at hbegun
    cases hbegun with
    | ok h =>
      obtain ⟨ρ₁, he₁, -⟩ := h
      have hstate : stateOf (script.load e₁) = e₂ := by rw [hl]; rfl
      have hloaded := script_like he₁ script (hheap ▸ hd) (by rw [hstate, hheap]; exact hn)
      rw [hl] at hloaded
      cases hloaded with
      | ok h =>
        obtain ⟨ρ₂, he₂, hv⟩ := h
        exact ⟨ρ₂, he₂, .nil, .calling (.object he₂.akin.global) hv .nil⟩

end Launches

end Engine

namespace Machine

variable {L₀ : Level} {m : Machine} {n : Nat}

def result? : Machine → Option (EStateM.Result Error Engine Value)
  | ⟨e, tasks, .returning result⟩ => if tasks.isEmpty then some (resultIn e result) else none
  | ⟨_, _, .running _ _⟩ | ⟨_, _, .calling _ _ _⟩ => none

theorem run_eq_result (fuel : Nat) (m : Machine) : run fuel m = (step^[fuel] m).result? := by
  fun_induction run fuel m with
  | case1 fuel e result =>
    have hfixed : step ⟨e, [], .returning result⟩ = ⟨e, [], .returning result⟩ := rfl
    rw [Function.iterate_fixed hfixed]
    rfl
  | case2 m hne =>
    obtain ⟨e, tasks, control⟩ := m
    cases control with
    | returning result =>
      cases tasks with
      | nil => exact (hne e result rfl).elim
      | cons task tasks => rfl
    | running | calling => rfl
  | case3 m fuel hne ih => exact ih

theorem Orderly.room (h : m.Orderly L₀) (hd : m.engine.heap.Dated n)
    (hn : n + m.engine.heap.collectionsTo m.step.engine.heap + 2 < 2 ^ 32) :
    ∀ entry frames y t, m.control = .running entry frames → Loop.step ⟨m.engine, frames⟩ = .error y t →
      ∃ n, t.engine.heap.Dated n ∧ n + 2 < 2 ^ 32 := by
  intro entry frames y t hc hs
  obtain ⟨e, tasks, control⟩ := m
  obtain rfl : control = .running entry frames := hc
  obtain ⟨fl, hf⟩ := h.fits
  obtain ⟨hi, ha, fl', -, hst⟩ := (Loop.step_ensures h.compiled hf).error hs
  have hraised := (raise_fits hst hi).1
  simp only [Machine.step, hs] at hn
  exact hd.midway ha.heap hraised.heap hn

end Machine

theorem Engine.evaluate_of_launches {load : EngineM Value} {e : Engine} {scope : ScopeId} {m : Machine} (fuel : Nat)
    (h : e.Launches load scope m) :
    e.evaluate fuel load = (Machine.step^[fuel] m).result?.map (endProtected scope) := by
  cases h with
  | intro hb hl =>
    rw [← Machine.run_eq_result]
    simp only [evaluate, hb, hl]
    rfl

end ScriptEngine
