import ScriptEngine.Proofs.Heap.Outwards
import ScriptEngine.Proofs.Host.Session
import ScriptEngine.Proofs.Machine.Descent

namespace ScriptEngine

open Engine Heap

section Creation

variable {h h' : Heap} {n : Nat}

theorem Heap.Grows.insert_getD {a : Handle} {name : String} {value : Value} (hg : h.Grows n h') :
    h.Grows n ((h'.insertProperty? a name value).getD h') := by
  cases hi : h'.insertProperty? a name value with
  | none => exact hg
  | some h'' => exact hg.insertProperty? hi

theorem installs_grow (hg : h.Grows n h') (owner : Handle) (fs : List Builtin) :
    h.Grows n (fs.foldl (install owner) h') := by
  induction fs generalizing h' with
  | nil => exact hg
  | cons f fs ih =>
    have hmade : h.Grows n (h'.allocObject (.of (.native f))).2 := hg.allocObject rfl
    exact ih hmade.insert_getD

theorem setGlobals_grow (hg : h.Grows n h') (owner : Handle) (entries : List (String × Value)) :
    h.Grows n (entries.foldl (setGlobal owner) h') := by
  induction entries generalizing h' with
  | nil => exact hg
  | cons entry entries ih => exact ih hg.insert_getD

theorem populate_grows (global : Handle) (h : Heap) : h.Grows 0 (populate global h) := by
  delta populate
  dsimp only
  have hi := installs_grow (.refl (n := 0) (h := h)) global Builtin.globals
  generalize Builtin.globals.foldl (install global) h = h₁ at hi ⊢
  have hm : h.Grows 0 (h₁.allocObject (.of .plain)).2 := hi.allocObject rfl
  generalize h₁.allocObject (.of .plain) = made at hm ⊢
  have hf := installs_grow hm made.1 Builtin.mathMembers
  generalize Builtin.mathMembers.foldl (install made.1) made.2 = h₂ at hf ⊢
  have hpi : h.Grows 0 (setGlobal made.1 h₂ ("PI", .number pi)) := hf.insert_getD
  exact setGlobals_grow hpi global _

theorem Heap.Descends.populate {last names : Handle} (hd : h.Descends last names) (ht : h.Tidy) (hdated : h.Dated 0)
    (global : Handle) : (populate global h).Descends last names := by
  obtain ⟨j, hj, -, -, hgrown⟩ := (populate_grows global h).numbers last names
  obtain rfl : j = 0 := by omega
  exact (hgrown 0 hdated (by omega)).2 ht hd

theorem Heap.Descends.first {last names : Handle} (hd : h.Descends last names)
    (hnone : ∀ a s env, h.slot? a = some s → s.cell ≠ .environment env) (v : Handle) :
    (h.alloc (.environment ⟨v, none⟩)).2.Descends (h.alloc (.environment ⟨v, none⟩)).1 v := by
  have hcases (a : Handle) (s : Slot) (hs : (h.alloc (.environment ⟨v, none⟩)).2.slot? a = some s) :
      a = (h.alloc (.environment ⟨v, none⟩)).1 ∧ s = ⟨h.epoch, h.born, .environment ⟨v, none⟩⟩ ∨ h.slot? a = some s := by
    rw [slot?_alloc] at hs
    split at hs
    · next ha => exact .inl ⟨ha.1.symm, (Option.some.inj hs).symm⟩
    · exact .inr hs
  refine ⟨fun a s hs => ?_, fun a s b hs hb => ?_, fun a s w hs hw => ?_⟩
  · rw [born_alloc]
    obtain ⟨-, rfl⟩ | hs := hcases a s hs
    · exact Nat.lt_succ_self _
    · exact Nat.lt_succ_of_lt (hd.born a s hs)
  · obtain ⟨-, rfl⟩ | hs := hcases a s hs
    · cases hb
    · obtain ⟨t, env, ht, hcell, -⟩ := hd.older a s b hs hb
      exact (hnone b t env ht hcell).elim
  · obtain ⟨rfl, rfl⟩ | hs := hcases a s hs
    · cases hw
      exact ⟨rfl, rfl⟩
    · exact (hnone a s _ hs hw).elim

structure Heap.Bare (h : Heap) : Prop where
  tidy : h.Tidy
  dated : h.Dated 0
  descends : h.Descends ⟨0⟩ ⟨0⟩
  objects : ∀ a s env, h.slot? a = some s → s.cell ≠ .environment env

theorem Heap.bare_empty : Heap.empty.Bare := by
  have hslot (a : Handle) (s : Slot) : Heap.empty.slot? a ≠ some s := by simp [slot?, Heap.empty]
  exact ⟨tidy_empty, dated_empty, ⟨fun a s hs => (hslot a s hs).elim, fun a s _ hs => (hslot a s hs).elim,
    fun a s _ hs => (hslot a s hs).elim⟩, fun a s _ hs => (hslot a s hs).elim⟩

theorem Heap.Bare.allocObject (hb : h.Bare) : (h.allocObject (.of .plain)).2.Bare := by
  refine ⟨hb.tidy.alloc _, hb.dated.alloc _, hb.descends.alloc hb.tidy (founded_object rfl), fun a s env hs => ?_⟩
  rw [Heap.allocObject, slot?_alloc] at hs
  split at hs
  · obtain rfl := Option.some.inj hs
    simp
  · exact hb.objects a s env hs

theorem descends_create {flags : Flags} {limits : Limits} {e : Engine} (hc : create? flags limits = some e) :
    e.heap.Descends e.globalEnv e.global := by
  simp only [create?] at hc
  split at hc
  · have hr := bare_empty.allocObject
    generalize Heap.empty.allocObject (.of .plain) = registry at hc hr
    have hg := hr.allocObject
    generalize registry.2.allocObject (.of .plain) = global at hc hg
    have hd := (hg.descends.first hg.objects global.1).populate (hg.tidy.alloc _) (hg.dated.alloc _) global.1
    rw [show global.2.alloc (.environment ⟨global.1, none⟩) = Environment.alloc global.2 (some global.1) none from rfl] at hd
    generalize Environment.alloc global.2 (some global.1) none = env at hc hd
    generalize populate global.1 env.2 = h₃ at hc hd
    obtain rfl := Option.some.inj hc
    exact hd
  · cases hc

end Creation

namespace Engine

variable {e e' : Engine}

theorem exceptionValue_fixed (error : Error) (e : Engine) : (e.exceptionValue error).2.fixed = e.fixed := by
  obtain ⟨v, h, -, hv⟩ := exceptionValue_spec error e
  rw [hv]
  rfl

theorem unwind_fixed (id : ScopeId) (error : Error) (e : Engine) : (e.unwind id error).2.fixed = e.fixed := by
  simp only [unwind]
  split
  · exact exceptionValue_fixed .unbalancedScope e
  · rename_i frame frames _
    exact exceptionValue_fixed error { e with frames }

theorem endProtected_fixed {α : Type} (id : ScopeId) (r : EStateM.Result Error Engine α) :
    (stateOf (endProtected id r)).fixed = (stateOf r).fixed := by
  cases r with
  | error error e => exact unwind_fixed id error e
  | ok a e =>
    have hl := leaveProtected_ensures id e
    simp only [endProtected]
    cases hx : leaveProtected id e with
    | ok _ e₁ =>
      obtain ⟨frame, frames, -, -, rfl⟩ := hl.ok hx
      rfl
    | error error e₁ =>
      obtain ⟨-, rfl, -⟩ := hl.error hx
      exact unwind_fixed id error e₁

end Engine

namespace Session

variable {n : Nat} {s s' : Session}

def Descends (s : Session) : Prop :=
  s.heap.Descends s.machine.engine.globalEnv s.machine.engine.global

theorem founded_of_secure {m : Machine} (hs : m.Secure) (ht : m.engine.heap.Tidy)
    (hd : m.engine.heap.Descends m.engine.globalEnv m.engine.global) : m.engine.Founded := by
  refine ⟨ht, ?_, ?_, fun a s b ha hb => ?_⟩
  · obtain ⟨env, henv, -⟩ := hs.scopes m.engine.env (.tail _ (.head _))
    exact ⟨env, henv⟩
  · obtain ⟨env, henv, -⟩ := hs.scopes m.engine.globalEnv (.head _)
    exact ⟨env, henv⟩
  · obtain ⟨t, env, ht, hcell, -⟩ := hd.older a s b ha hb
    exact ⟨env, environment?_of_slot ht hcell⟩

theorem Next.grows (h : s.Next s') {L₀ : Level} (ho : s.machine.Orderly L₀) (hf : s.machine.engine.Founded) :
    s.heap.Grows 2 s'.heap ∧ s'.machine.engine.fixed = s.machine.engine.fixed := by
  cases h with
  | @crowded e e' error hb =>
    obtain ⟨-, rfl⟩ := (beginProtected_ensures e).error hb
    exact ⟨(exceptionValue_grows error e).mono (by omega), exceptionValue_fixed error e⟩
  | @loaded e e₁ scope script hb =>
    have hbegun := hf.begun hb
    have hages : e₁.Ages 2 (stateOf (script.load e₁)) :=
      Ensures.state (P := e₁.Ages 2) ((script.load_ensures e₁).mono (fun _ _ h => h.1) fun _ _ h => h.2.1)
    obtain ⟨-, -, -, hbegan, -⟩ := beginProtected_ok hb
    have hgrows : e₁.heap.Grows 2 (stateOf (script.load e₁)).heap := script_founds hbegun script
    rw [beginProtected_heap hb] at hgrows
    simp only [heap, machine, Machine.engine_ofLoaded]
    exact ⟨hgrows, hages.fixed.trans hbegan.fixed⟩
  | stepped => exact ⟨Machine.step_grows hf, ho.ages.fixed⟩
  | @ended scope m r hr =>
    have hgrows := endProtected_grows scope r
    have hfixed := endProtected_fixed scope r
    rw [engine_of_result hr] at hgrows hfixed
    exact ⟨hgrows.mono (by omega), hfixed⟩
  | dismissed => exact ⟨.refl, rfl⟩
  | displayed => exact ⟨.refl, rfl⟩

theorem Visited.descends (h : Visited n s) (hn : n + 2 < 2 ^ 32) : s.Descends := by
  induction h with
  | created hc => exact descends_create hc
  | @next n s s' hv hnext ih =>
    obtain ⟨L₀, ha⟩ := hv.intact (by omega)
    have hd := ih (by omega)
    have hfounded := founded_of_secure (hv.secure (by omega)) ha.sound.tidy hd
    obtain ⟨hgrows, hfixed⟩ := hnext.grows ha.orderly hfounded
    have hglobalEnv : s'.machine.engine.globalEnv = s.machine.engine.globalEnv := congrArg (·.2.2.2.2) hfixed
    have hglobal : s'.machine.engine.global = s.machine.engine.global := congrArg (·.2.2.2.1) hfixed
    rw [Descends, hglobalEnv, hglobal]
    exact Heap.Descends.grows hd ha.sound hgrows (by omega)

/-- The scopes that code can run in: those that are held, and those of the closures that can be reached. -/
inductive RunsIn (s : Session) : Handle → Prop
  | held {a : Handle} : a ∈ s.machine.scopes → RunsIn s a
  | closure {a c : Handle} {unit : CodeUnit} {o : Object} : s.Reaches c → s.heap.object? c = some o →
      o.kind = .closure unit a → RunsIn s a

theorem Visited.scope_of_runsIn {a : Handle} (h : Visited n s) (hn : n + 2 < 2 ^ 32) (ha : s.RunsIn a) :
    ∃ env, s.heap.environment? a = some env := by
  cases ha with
  | held ha =>
    obtain ⟨env, henv, -⟩ := (h.secure hn).scopes a ha
    exact ⟨env, henv⟩
  | @closure c unit o hc ho hk =>
    obtain ⟨cell, hcell, hlives⟩ := (h.secure hn).closed c hc
    rw [Heap.object?_eq_some] at ho
    obtain rfl := Option.some.inj (hcell.symm.trans ho)
    obtain ⟨env, henv, -⟩ := hlives.2.2 a (by rw [hk]; exact List.mem_singleton_self a)
    exact ⟨env, henv⟩

/-- At every moment of every session, as long as the numbers of the collections have not started
over: from each scope that code can run in, the links from scope to scope lead through live scopes,
each made before the one it is met from, to the global scope. A name is looked up and assigned by a
walk over these scopes, however long the walk may take, and what sloppy code assigns to a name that
none of them binds becomes a new property of the global object, with all else as it was. -/
theorem scope_chains_lead_out {a : Handle} (h : Visited n s) (hn : n < 2 ^ 32 - 2) (ha : s.RunsIn a) :
    ∃ path, s.heap.Outwards s.machine.engine.globalEnv a path ∧ (path.map (·.2)).Pairwise (· > ·) ∧
      path.length ≤ s.heap.chainLimit ∧
      (∀ name fuel, path.length ≤ fuel →
        Environment.lookupWithin s.heap name fuel a = path.findSome? (Environment.own? s.heap name ·.1) ∧
        Environment.binderWithin s.heap name fuel a =
          .ok ((path.find? fun p => (Environment.own? s.heap name p.1).isSome).elim
            (.outermost s.machine.engine.globalEnv) (.bound ·.1))) ∧
      ∀ name value, (∀ p ∈ path, Environment.own? s.heap name p.1 = none) →
        ∃ mark born o, s.heap.slot? s.machine.engine.global = some ⟨mark, born, .object o⟩ ∧
          o.properties.get? name = none ∧
          Environment.assign s.heap a name value false = .ok (s.heap.setSlot s.machine.engine.global
            ⟨mark, born, .object { o with properties := o.properties ++ [(name, value)] }⟩) := by
  have hd := h.descends (by omega)
  obtain ⟨env, henv⟩ := h.scope_of_runsIn (by omega) ha
  obtain ⟨t, ht, hcell⟩ := slot_of_environment? henv
  obtain ⟨path, hpath, hsorted, hlength⟩ := hd.outwards ht hcell
  have hlimit : ((a, t.born) :: path).length ≤ s.heap.chainLimit := by
    have hborn := hd.born a t ht
    rw [List.length_cons, chainLimit]
    omega
  refine ⟨_, hpath, hsorted, hlimit, fun name fuel hf =>
    ⟨Environment.lookupWithin_eq hpath hf, Environment.binderWithin_eq hpath hf⟩, fun name value hunbound => ?_⟩
  have hlookup : Environment.lookup s.heap a name = none := by
    rw [Environment.lookup, Environment.lookupWithin_eq hpath hlimit]
    exact List.findSome?_eq_none_iff.mpr hunbound
  obtain ⟨o, ho⟩ := (h.secure (by omega)).global
  obtain ⟨⟨mark, born, cell⟩, hs, rfl⟩ := slot?_of_cell? (object?_eq_some.mp ho)
  exact ⟨mark, born, o, hs, Environment.assign_unbound hd hpath hlimit hs hlookup value⟩

theorem scope_chains_lead_out_nested :
    ∃ n scope m outer, Visited n (.busy scope m) ∧
      (m.engine.heap.environment? m.engine.env).bind (·.outer) = some outer ∧ outer ≠ m.engine.globalEnv ∧
      ∃ mark born o, m.engine.heap.slot? m.engine.global = some ⟨mark, born, .object o⟩ ∧
        o.properties.get? "y" = none ∧
        Environment.assign m.engine.heap m.engine.env "y" .null false = .ok (m.engine.heap.setSlot m.engine.global
          ⟨mark, born, .object { o with properties := o.properties ++ [("y", .null)] }⟩) := by
  obtain ⟨script, hok⟩ : ∃ script : Script, (create? .none {}).any (fun e =>
      (valueOf? (beginProtected e)).any fun begun =>
        let m := Machine.ofLoaded (script.load begun.2)
        let inner := Machine.step^[8] m
        decide <| e.heap.collectionsTo m.engine.heap + Machine.collections 8 m = 0 ∧
          Environment.lookup inner.engine.heap inner.engine.env "y" = none ∧
          ∃ outer ∈ (inner.engine.heap.environment? inner.engine.env).bind (·.outer),
            outer ≠ inner.engine.globalEnv) = true :=
    ⟨.text "sample" "(function()\x7b(function()\x7by=1;\x7d)();\x7d)();", by decide +kernel⟩
  obtain ⟨e, he, hbegun⟩ := (Option.any_eq_true _ _).mp hok
  obtain ⟨⟨scope, e₁⟩, hb, hrest⟩ := (Option.any_eq_true _ _).mp hbegun
  obtain ⟨hcount, hunbound, outer, houter, hinside⟩ := of_decide_eq_true hrest
  have hloaded := (Visited.created he).next (.loaded script (eq_ok_of_valueOf? hb))
  have hinner := hloaded.steps 8
  simp only [heap, machine] at hinner hcount
  generalize Machine.step^[8] _ = m at hinner hunbound houter hinside
  have henv : m.engine.env ∈ m.scopes := .tail _ (.head _)
  obtain ⟨path, -, -, hlimit, hwalk, hnew⟩ := scope_chains_lead_out hinner (by omega) (.held henv)
  have hnone : path.findSome? (Environment.own? m.engine.heap "y" ·.1) = none :=
    (hwalk "y" _ hlimit).1.symm.trans hunbound
  exact ⟨_, scope, m, outer, hinner, houter, hinside, hnew "y" .null (List.findSome?_eq_none_iff.mp hnone)⟩

end Session

end ScriptEngine
