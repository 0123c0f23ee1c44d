import ScriptEngine.Proofs.Engine.Endurance
import ScriptEngine.Proofs.Machine.Launch

namespace ScriptEngine

namespace Heap

def IsObject (h : Heap) (a : Handle) : Prop :=
  ∃ o, h.object? a = some o

def IsScope (h : Heap) (a : Handle) : Prop :=
  ∃ env, h.environment? a = some env ∧ h.IsObject env.names

end Heap

def Value.Lives (h : Heap) (v : Value) : Prop :=
  ∀ a, v.handle? = some a → h.IsObject a

def Cell.Lives (h : Heap) : Cell → Prop
  | .object o =>
    (∀ a ∈ o.parent, h.IsObject a) ∧ (∀ p ∈ o.properties, p.2.Lives h) ∧ ∀ a ∈ o.kind.links, h.IsScope a
  | .environment env => h.IsObject env.names ∧ ∀ a ∈ env.outer, h.IsScope a

section Likeness

variable {ρ : Renaming} {h : Heap} {a : Handle} {roots : List Handle}

def Renaming.Fixes (ρ : Renaming) (a : Handle) : Prop :=
  ρ.object a a ∨ ρ.scope a a

theorem Value.Alike.fixes {v : Value} (hv : v.Alike ρ v) (ha : v.handle? = some a) : ρ.object a a := by
  cases hv with
  | plain hp => rw [hp] at ha; cases ha
  | object hb =>
    obtain rfl := Option.some.inj ha
    exact hb

namespace Heap.Mirrors

theorem object_cell (hg : h.Mirrors ρ h) (ha : ρ.object a a) : ∃ o, h.cell? a = some (.object o) ∧ o.Alike ρ o := by
  obtain ⟨o, o', ho, ho', hoo⟩ := hg.object ha
  obtain rfl := Option.some.inj (ho.symm.trans ho')
  exact ⟨o, object?_eq_some.mp ho, hoo⟩

theorem scope_cell (hg : h.Mirrors ρ h) (ha : ρ.scope a a) :
    ∃ env, h.cell? a = some (.environment env) ∧ env.Alike ρ env := by
  obtain ⟨env, env', he, he', hee⟩ := hg.scope ha
  obtain rfl := Option.some.inj (he.symm.trans he')
  exact ⟨env, environment?_eq_some.mp he, hee⟩

theorem isObject (hg : h.Mirrors ρ h) (ha : ρ.object a a) : h.IsObject a := by
  obtain ⟨o, ho, -⟩ := hg.object_cell ha
  exact ⟨o, object?_eq_some.mpr ho⟩

theorem isScope (hg : h.Mirrors ρ h) (ha : ρ.scope a a) : h.IsScope a := by
  obtain ⟨env, he, hee⟩ := hg.scope_cell ha
  exact ⟨env, environment?_eq_some.mpr he, hg.isObject hee.names⟩

theorem lives {v : Value} (hg : h.Mirrors ρ h) (hv : v.Alike ρ v) : v.Lives h :=
  fun _ ha => hg.isObject (hv.fixes ha)

theorem outer_fixes {env : Environment} (he : env.Alike ρ env) (ha : a ∈ env.outer) : ρ.scope a a := by
  have hout := he.outer
  rw [Option.mem_def.mp ha] at hout
  cases hout with
  | some hs => exact hs

theorem kind_fixes {kind : ObjectClass} (hk : kind.Alike ρ kind) (ha : a ∈ kind.links) : ρ.scope a a := by
  cases hk with
  | plain | error | native => cases ha
  | closure u hs =>
    obtain rfl := List.mem_singleton.mp ha
    exact hs

theorem property_fixes {o : Object} {p : String × Value} (ho : o.Alike ρ o) (hp : p ∈ o.properties) : p.2.Alike ρ p.2 :=
  (List.forall₂_same.mp ho.properties p hp).2

theorem cell_lives (hg : h.Mirrors ρ h) (ha : ρ.Fixes a) : ∃ cell, h.cell? a = some cell ∧ cell.Lives h := by
  rcases ha with ha | ha
  · obtain ⟨o, ho, hoo⟩ := hg.object_cell ha
    refine ⟨_, ho, ?_, ?_, ?_⟩
    · intro b hb
      rw [hoo.parent.1] at hb
      cases hb
    · exact fun p hp => hg.lives (property_fixes hoo hp)
    · exact fun b hb => hg.isScope (kind_fixes hoo.kind hb)
  · obtain ⟨env, he, hee⟩ := hg.scope_cell ha
    exact ⟨_, he, hg.isObject hee.names, fun b hb => hg.isScope (outer_fixes hee hb)⟩

theorem link_fixes {s : Slot} {b : Handle} (hg : h.Mirrors ρ h) (ha : ρ.Fixes a) (hs : h.slot? a = some s)
    (hb : b ∈ s.cell.links) : ρ.Fixes b := by
  have hcell : h.cell? a = some s.cell := by rw [cell?, hs, Option.map_some]
  rcases ha with ha | ha
  · obtain ⟨o, ho, hoo⟩ := hg.object_cell ha
    rw [Option.some.inj (hcell.symm.trans ho)] at hb
    simp only [Cell.links, hoo.parent.1, Option.toList_none, List.nil_append, List.mem_append, List.mem_filterMap] at hb
    rcases hb with ⟨p, hp, hh⟩ | hb
    · exact .inl ((property_fixes hoo hp).fixes hh)
    · exact .inr (kind_fixes hoo.kind hb)
  · obtain ⟨env, he, hee⟩ := hg.scope_cell ha
    rw [Option.some.inj (hcell.symm.trans he)] at hb
    rcases List.mem_cons.mp hb with rfl | hb
    · exact .inl hee.names
    · exact .inr (outer_fixes hee (Option.mem_toList.mp hb))

theorem reached_fixes (hg : h.Mirrors ρ h) (hr : ∀ a ∈ roots, ρ.Fixes a) (ha : h.Reaches roots a) : ρ.Fixes a := by
  induction ha with
  | root ha => exact hr _ ha
  | link _ hs hb ih => exact hg.link_fixes ih hs hb

end Heap.Mirrors

end Likeness

def Control.frames : Control → List CallFrame
  | .running _ frames => frames
  | .calling _ _ _ | .returning _ => []

def Task.frames : Task → List CallFrame
  | .loop _ frames => frames
  | .guard _ | .native _ => []

def Control.values : Control → List Value
  | .running _ _ => []
  | .calling receiver callee args => receiver :: callee :: args
  | .returning (.ok value) => [value]
  | .returning (.error error) => error.carried?.toList

theorem tower_mem {l : Layer} {N : Level} {ls : List Layer} {M : Level} (h : (l, N) ∈ tower ls M) :
    N.stack ⊆ M.stack ∧ N.chain ⊆ M.chain := by
  induction ls generalizing M with
  | nil => cases h
  | cons l' ls ih =>
    rcases List.mem_cons.mp h with heq | h
    · obtain ⟨-, rfl⟩ := Prod.mk.inj heq
      exact ⟨fun _ hv => hv, fun _ ha => ha⟩
    · obtain ⟨hstack, hchain⟩ := ih h
      have hbelow : (l'.below M).stack ⊆ M.stack ∧ (l'.below M).chain ⊆ M.chain := by
        cases l' with
        | guard scope =>
          simp only [Layer.below]
          split
          · exact ⟨fun _ hv => hv, fun _ ha => ha⟩
          · exact ⟨List.take_subset _ _, fun _ ha => ha⟩
        | native base => exact ⟨List.take_subset _ _, fun _ ha => ha⟩
        | entry x => exact ⟨List.take_subset _ _, fun _ ha => ha⟩
        | frame g =>
          refine ⟨List.take_subset _ _, ?_⟩
          intro a ha
          simp only [Layer.below, Level.chain, List.mem_append, List.mem_singleton] at ha ⊢
          rcases ha with ha | rfl
          · exact .inl (List.take_subset _ _ ha)
          · cases hs : M.scopes[g.savedScope]? with
            | none => exact .inr rfl
            | some b => exact .inl (List.mem_of_getElem? hs)
      exact ⟨fun _ hv => hbelow.1 (hstack hv), fun _ ha => hbelow.2 (hchain ha)⟩

namespace Machine

open Engine

def frames (m : Machine) : List CallFrame :=
  m.control.frames ++ m.tasks.flatMap Task.frames

def values (m : Machine) : List Value :=
  m.engine.stack.toList ++ m.control.values ++ m.frames.map (·.receiver)

def scopes (m : Machine) : List Handle :=
  m.engine.globalEnv :: m.engine.env ::
    (m.engine.scopes.toList ++ m.engine.frames.map (·.env) ++ m.frames.map (·.scope))

def holdings (m : Machine) : List Handle :=
  m.engine.registry :: m.engine.global :: (m.scopes ++ m.values.filterMap (·.handle?))

/-- No handle that a machine holds leads nowhere, no handle in a cell that can be reached from
these does, and no error says that one did. -/
structure Secure (m : Machine) : Prop where
  registry : m.engine.heap.IsObject m.engine.registry
  global : m.engine.heap.IsObject m.engine.global
  values : ∀ v ∈ m.values, v.Lives m.engine.heap
  scopes : ∀ a ∈ m.scopes, m.engine.heap.IsScope a
  closed : ∀ a, m.engine.heap.Reaches m.holdings a → ∃ cell, m.engine.heap.cell? a = some cell ∧ cell.Lives m.engine.heap
  errors : ∀ error, (m.Raises error ∨ ∃ entry tasks s, m.Strikes entry tasks error s) → error.isStale = false

variable {L₀ : Level} {m : Machine} {ρ : Renaming} {k : Nat}

theorem exists_level_of_frame {g : CallFrame} (hg : g ∈ m.frames) : ∃ N, (.frame g, N) ∈ m.tower := by
  have hlayer : Layer.frame g ∈ m.allLayers := by
    simp only [frames, List.mem_append, List.mem_flatMap] at hg
    simp only [allLayers, List.mem_append]
    rcases hg with hg | ⟨task, ht, hg⟩
    · refine .inl ?_
      cases hc : m.control with
      | running entry frames =>
        rw [hc] at hg
        simpa [Control.layers, Control.frames] using hg
      | calling | returning => rw [hc] at hg; cases hg
    · refine .inr (List.mem_flatMap.mpr ⟨task, ht, ?_⟩)
      cases task with
      | loop entry frames => simpa [Task.layers, Task.frames] using hg
      | guard | native => cases hg
  rw [← map_tower m.allLayers m.engine.level] at hlayer
  obtain ⟨⟨l, N⟩, hmem, rfl⟩ := List.mem_map.mp hlayer
  exact ⟨N, hmem⟩

theorem frame_fixes {e : Engine} {g : CallFrame} {N : Level} (he : e.Alike k ρ e) (hg : g.Moored e.global N)
    (hstack : N.stack ⊆ e.level.stack) (hchain : N.chain ⊆ e.level.chain) :
    g.receiver.Alike ρ g.receiver ∧ ρ.scope g.scope g.scope := by
  have hvalues := List.forall₂_same.mp he.akin.stack
  have hscopes := List.forall₂_same.mp (forall₂_concat he.akin.scopes he.akin.env)
  obtain ⟨v, hv, hr⟩ := hg.receiver
  refine ⟨?_, hscopes _ (hchain (List.mem_of_getElem? hg.scope))⟩
  rw [hr]
  split
  · exact .object he.akin.global
  · exact hvalues v (hstack (List.mem_of_getElem? hv))

theorem frames_fixed {g : CallFrame} (he : m.engine.Alike k ρ m.engine) (hm : m.Moored) (hg : g ∈ m.frames) :
    g.receiver.Alike ρ g.receiver ∧ ρ.scope g.scope g.scope := by
  obtain ⟨N, hN⟩ := exists_level_of_frame hg
  obtain ⟨hstack, hchain⟩ := tower_mem hN
  exact frame_fixes he (hm g N hN) hstack hchain

theorem values_fixed (he : m.engine.Alike k ρ m.engine) (hc : m.control.Alike ρ m.control) (hm : m.Moored) :
    ∀ v ∈ m.values, v.Alike ρ v := by
  intro v hv
  simp only [values, List.mem_append, List.mem_map] at hv
  rcases hv with (hv | hv) | ⟨g, hg, rfl⟩
  · exact List.forall₂_same.mp he.akin.stack v hv
  · generalize m.control = control at hc hv
    cases hc with
    | running => cases hv
    | calling hr hcallee ha =>
      rcases List.mem_cons.mp hv with rfl | hv
      · exact hr
      · rcases List.mem_cons.mp hv with rfl | hv
        · exact hcallee
        · exact List.forall₂_same.mp ha v hv
    | value hvalue =>
      obtain rfl := List.mem_singleton.mp hv
      exact hvalue
    | @error x _ hx =>
      have hcarried := hx.value
      rw [Option.mem_toList.mp hv] at hcarried
      cases hcarried with
      | some hvalue => exact hvalue
  · exact (frames_fixed he hm hg).1

theorem scopes_fixed (he : m.engine.Alike k ρ m.engine) (hm : m.Moored) : ∀ a ∈ m.scopes, ρ.scope a a := by
  intro a ha
  simp only [scopes, List.mem_cons, List.mem_append, List.mem_map] at ha
  rcases ha with rfl | rfl | (ha | ⟨f, hf, rfl⟩) | ⟨g, hg, rfl⟩
  · exact he.akin.globalEnv
  · exact he.akin.env
  · exact List.forall₂_same.mp he.akin.scopes a ha
  · exact (List.forall₂_same.mp he.akin.frames f hf).env
  · exact (frames_fixed he hm hg).2

theorem holdings_fixed (he : m.engine.Alike k ρ m.engine) (hc : m.control.Alike ρ m.control) (hm : m.Moored) :
    ∀ a ∈ m.holdings, ρ.Fixes a := by
  intro a ha
  simp only [holdings, List.mem_cons, List.mem_append, List.mem_filterMap] at ha
  rcases ha with rfl | rfl | ha | ⟨v, hv, ha⟩
  · exact .inl he.akin.registry
  · exact .inl he.akin.global
  · exact .inr (scopes_fixed he hm a ha)
  · exact .inl ((values_fixed he hc hm v hv).fixes ha)

theorem Alike.error_live {error : Error} (h : m.Alike 1 m) (hm : m.Moored)
    (hr : m.Raises error ∨ ∃ entry tasks s, m.Strikes entry tasks error s) : error.isStale = false := by
  obtain ⟨ρ, he, ht, hc⟩ := h
  have hstep {e : Engine} {tasks : List Task} {entry : Entry} {frames : List CallFrame} {s : Loop}
      (he : e.Alike 1 ρ e) (hc : (Control.running entry frames).Alike ρ (.running entry frames))
      (hm : Moored ⟨e, tasks, .running entry frames⟩) (hs : Loop.step ⟨e, frames⟩ = .error error s) :
      error.isStale = false := by
    cases hc with
    | running _ hf =>
      have hl := loop_like he hf hm hm
      rw [hs] at hl
      cases hl with
      | error hx =>
        obtain ⟨_, _, _, hx⟩ := hx
        exact hx.live
  rcases hr with hr | ⟨entry, tasks, s, hs⟩
  · cases hr with
    | inside hs => exact hstep he hc hm hs
    | between =>
      cases hc with
      | error hx => exact hx.live
  · cases hs with
    | raised hs => exact hstep he hc hm hs
    | handed =>
      cases hc with
      | error hx => exact hx.live
    | unanswered hp =>
      rw [push_eq] at hp
      split at hp <;> cases hp
      rfl

theorem Alike.secure (h : m.Alike 1 m) (hm : m.Moored) : m.Secure := by
  obtain ⟨ρ, he, ht, hc⟩ := h
  have hg := he.heap.graph
  refine ⟨hg.isObject he.akin.registry, hg.isObject he.akin.global, ?_, ?_, ?_, fun error => error_live ⟨ρ, he, ht, hc⟩ hm⟩
  · exact fun v hv => hg.lives (values_fixed he hc hm v hv)
  · exact fun a ha => hg.isScope (scopes_fixed he hm a ha)
  · exact fun a ha => hg.cell_lives (hg.reached_fixes (holdings_fixed he hc hm) ha)

theorem control_subset : m.control.values.filterMap (·.handle?) ⊆ m.holdings := by
  intro a ha
  obtain ⟨v, hv, ha⟩ := List.mem_filterMap.mp ha
  have hvalues : v ∈ m.values := List.mem_append_left _ (List.mem_append_right _ hv)
  exact .tail _ (.tail _ (List.mem_append_right _ (List.mem_filterMap.mpr ⟨v, hvalues, ha⟩)))

theorem holdings_subset (hm : m.Moored) : m.holdings ⊆ m.engine.roots ++ m.control.values.filterMap (·.handle?) := by
  have hvalue {v : Value} {a : Handle} (hv : v ∈ m.engine.level.stack) (ha : v.handle? = some a) : a ∈ m.engine.roots :=
    mem_roots.mpr (.inr (.inr (.inr (.inr (.inr ⟨v, hv, ha⟩)))))
  have hscope {a : Handle} (ha : a ∈ m.engine.level.chain) : a ∈ m.engine.roots :=
    mem_roots.mpr (.inr (.inr (.inr (.inl ha))))
  have hframe {g : CallFrame} (hg : g ∈ m.frames) :
      (∀ a, g.receiver.handle? = some a → a ∈ m.engine.roots) ∧ g.scope ∈ m.engine.roots := by
    obtain ⟨N, hN⟩ := exists_level_of_frame hg
    obtain ⟨hstack, hchain⟩ := tower_mem hN
    obtain ⟨v, hv, hr⟩ := (hm g N hN).receiver
    refine ⟨?_, hscope (hchain (List.mem_of_getElem? (hm g N hN).scope))⟩
    intro a ha
    rw [hr] at ha
    split at ha
    · exact mem_roots.mpr (.inr (.inl (Option.some.inj ha).symm))
    · exact hvalue (hstack (List.mem_of_getElem? hv)) ha
  intro a ha
  simp only [holdings, scopes, values, List.mem_cons, List.mem_append, List.mem_filterMap, List.mem_map] at ha ⊢
  rcases ha with rfl | rfl | (rfl | rfl | (ha | ⟨f, hf, rfl⟩) | ⟨g, hg, rfl⟩) | ⟨v, (hv | hv) | ⟨g, hg, rfl⟩, ha⟩
  · exact .inl (mem_roots.mpr (.inl rfl))
  · exact .inl (mem_roots.mpr (.inr (.inl rfl)))
  · exact .inl (mem_roots.mpr (.inr (.inr (.inl rfl))))
  · exact .inl (hscope (List.mem_append_right _ (.head _)))
  · exact .inl (hscope (List.mem_append_left _ ha))
  · exact .inl (mem_roots.mpr (.inr (.inr (.inr (.inr (.inl ⟨f, hf, rfl⟩))))))
  · exact .inl (hframe hg).2
  · exact .inl (hvalue hv ha)
  · exact .inr ⟨v, hv, ha⟩
  · exact .inl ((hframe hg).1 a ha)

end Machine

end ScriptEngine
