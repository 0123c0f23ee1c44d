import ScriptEngine.Proofs.Host.Entry
import ScriptEngine.Proofs.Host.Evolution
import ScriptEngine.Proofs.Machine.Enclosure

namespace ScriptEngine

open Engine

namespace Heap

variable {h h' h'' : Heap}

def Endures (h h' : Heap) : Prop :=
  ∀ a s, h.slot? a = some s → ∃ s', h'.slot? a = some s' ∧ s'.content = s.content

structure KeepsNames (h h' : Heap) : Prop where
  scopes : ∀ a env, h.environment? a = some env → h'.environment? a = some env
  objects : ∀ a o, h.object? a = some o →
    ∃ properties : PropertyMap Value, properties.names = o.properties.names ∧ h'.object? a = some { o with properties }

namespace Endures

theorem refl (h : Heap) : h.Endures h := fun _ s hs => ⟨s, hs, rfl⟩

theorem alloc (hh : h.Endures h') (ht : h'.Tidy) (cell : Cell) : h.Endures (h'.alloc cell).2 := by
  intro a s hs
  obtain ⟨s', hs', hc⟩ := hh a s hs
  exact ⟨s', slot?_alloc_of_live ht cell hs', hc⟩

theorem collectSince (hh : h.Endures h') (hs : h.Stamped) (roots : List Handle) :
    h.Endures (h'.collectSince h.born roots).2 := by
  intro a s ha
  obtain ⟨s', hs', hc⟩ := hh a s ha
  have hborn : s'.born = s.born := congrArg (·.1) hc
  have hold : ((h'.collectSince h.born roots).2.slot? a).map Slot.content = some s'.content :=
    content_collected_of_old hs' (hborn ▸ hs.below a s ha)
  obtain ⟨s'', hs'', hc'⟩ := Option.map_eq_some_iff.mp hold
  exact ⟨s'', hs'', hc'.trans hc⟩

end Endures

end Heap

namespace Enclosure

open Heap

variable {h h' : Heap} (ht : h.Tidy) (hs : h.Stamped) (outer : Handle) {a : Handle}

theorem opened_endures : h.Endures (opened ht hs outer).base :=
  ((Endures.refl h).alloc ht _).alloc (ht.alloc _) _

theorem opened_fresh : h.slot? (opened ht hs outer).scope = none ∧ h.slot? (opened ht hs outer).names = none := by
  have hnone {g : Heap} (hg : g.Tidy) (cell : Cell) : g.slot? (g.alloc cell).1 = none :=
    Option.map_eq_none_iff.mp (cell?_alloc_before hg cell)
  refine ⟨?_, hnone ht _⟩
  cases hslot : h.slot? (opened ht hs outer).scope with
  | none => rfl
  | some s =>
    obtain ⟨s', hs', -⟩ := (Endures.refl h).alloc ht (.object (.of .plain)) _ s hslot
    cases (hnone (ht.alloc _) _).symm.trans hs'

theorem opened_old {s : Slot} (ha : h.slot? a = some s) :
    (∃ s', (opened ht hs outer).base.slot? a = some s' ∧ s'.content = s.content) ∧ a ≠ (opened ht hs outer).names := by
  refine ⟨opened_endures ht hs outer a s ha, ?_⟩
  rintro rfl
  cases (opened_fresh ht hs outer).2.symm.trans ha

variable {ht hs outer}

theorem Holds.keepsNames (hh : (opened ht hs outer).Holds h') : h.KeepsNames h' where
  scopes a env henv := by
    obtain ⟨s, hslot, hcell⟩ := slot?_of_cell? (environment?_eq_some.mp henv)
    obtain ⟨⟨s', hslot', hcontent⟩, hne⟩ := opened_old ht hs outer hslot
    obtain ⟨t, ht', -, hrev⟩ := hh.older a s' hslot' hne
    rw [show s'.cell = .environment env from (congrArg (·.2) hcontent).trans hcell] at hrev
    exact environment?_of_slot ht' hrev
  objects a o ho := by
    obtain ⟨s, hslot, hcell⟩ := slot?_of_cell? (object?_eq_some.mp ho)
    obtain ⟨⟨s', hslot', hcontent⟩, hne⟩ := opened_old ht hs outer hslot
    obtain ⟨t, ht', -, hrev⟩ := hh.older a s' hslot' hne
    rw [show s'.cell = .object o from (congrArg (·.2) hcontent).trans hcell] at hrev
    obtain ⟨properties, hnames, hcell'⟩ := hrev
    exact ⟨properties, hnames, object?_of_slot? ht' hcell'⟩

theorem own?_opened (name : String) : Environment.own? (opened ht hs outer).base name (opened ht hs outer).scope = none := by
  have hh : (opened ht hs outer).Holds (opened ht hs outer).base := holds_base (ht.environment none (some outer))
  have hnames : (opened ht hs outer).base.slot? (opened ht hs outer).names = some ⟨h.epoch, h.born, .object (.of .plain)⟩ :=
    slot?_alloc_of_live (ht.alloc _) _ (slot?_alloc_new ht _)
  rw [hh.own?_scope hnames]
  rfl

end Enclosure

/-- Along a run each scope that was there stays, and each object with the names that it had. The scope `scope`
binds the names that have been declared, and a declaration changes nothing but the object of its names. The values
of an object of before change only by assignments to names that have not been declared. -/
structure Machine.BindsIn (h : Heap) (scope : Handle) (env : Environment) (m : Machine) : Prop where
  keepsNames : ∀ k, h.KeepsNames (Machine.step^[k] m).engine.heap
  stands : ∀ k, (Machine.step^[k] m).engine.heap.environment? scope = some env
  names : ∀ k name, (Environment.own? (Machine.step^[k] m).engine.heap name scope).isSome = true ↔
    ∃ j < k, (Machine.step^[j] m).declares? = some name
  declarations : ∀ k name, (Machine.step^[k] m).declares? = some name → ∀ a, a ≠ env.names →
    (Machine.step^[k + 1] m).engine.heap.slot? a = (Machine.step^[k] m).engine.heap.slot? a
  cells : ∀ k a s, h.slot? a = some s →
    ((Machine.step^[k + 1] m).engine.heap.slot? a).map Slot.content =
        ((Machine.step^[k] m).engine.heap.slot? a).map Slot.content ∨
      ∃ name value mark born o, (Machine.step^[k] m).assigns? = some (name, value) ∧
        (∀ j < k, (Machine.step^[j] m).declares? ≠ some name) ∧
        (Machine.step^[k] m).engine.heap.slot? a = some ⟨mark, born, .object o⟩ ∧ o.properties.has name = true ∧
        (Machine.step^[k + 1] m).engine.heap.slot? a =
          some ⟨mark, born, .object { o with properties := o.properties.insert name value }⟩

theorem Enclosure.Confines.bindsIn {h : Heap} {ht : h.Tidy} {hs : h.Stamped} {outer : Handle} {m : Machine} {L₀ : Level}
    (hm : (opened ht hs outer).Confines m) (ho : m.Orderly L₀)
    (hnone : ∀ name, Environment.own? m.engine.heap name (opened ht hs outer).scope = none) :
    m.BindsIn h (opened ht hs outer).scope ⟨(opened ht hs outer).names, some outer⟩ := by
  have hbound (k : Nat) (name : String) :
      (Environment.own? (Machine.step^[k] m).engine.heap name (opened ht hs outer).scope).isSome = true ↔
        ∃ j < k, (Machine.step^[j] m).declares? = some name := by
    rw [hm.bound ho k name, hnone name]
    simp
  have hdeclarations (k : Nat) (name : String) (hd : (Machine.step^[k] m).declares? = some name) :=
    (hm.turns ho k).others (hd ▸ Option.some_ne_none name)
  refine ⟨fun k => (hm.run ho k).holds.keepsNames, fun k => (hm.run ho k).holds.scope_eq, hbound, hdeclarations,
    fun k a s ha => ?_⟩
  obtain ⟨⟨s', hs', -⟩, hne⟩ := opened_old ht hs outer ha
  refine ((hm.turns ho k).cells a s' hs' hne).imp_right ?_
  rintro ⟨name, value, hassigns, hunbound, mark, born, o, hslot, hhas, hslot'⟩
  refine ⟨name, value, mark, born, o, hassigns, fun j hj hd => ?_, hslot, hhas, hslot'⟩
  have hsome := (hbound k name).mpr ⟨j, hj, hd⟩
  rw [hunbound] at hsome
  cases hsome

namespace Engine

variable {e e' : Engine} {name source : String}

theorem exceptionValue_endures {h : Heap} (hh : h.Endures e.heap) (ht : e.heap.Tidy) (error : Error) :
    h.Endures (e.exceptionValue error).2.heap := by
  simp only [exceptionValue]
  split
  · exact hh
  · split
    · exact hh.alloc ht _
    · exact hh

theorem bindSource_endures (name source : String) (mode : LoadMode) (ht : e.heap.Tidy) :
    Ensures (bindSource name source mode) (fun _ e' => e.heap.Endures e'.heap ∧ e'.frames = e.frames)
      (fun _ e' => e' = e) e := by
  have hstate := compile_state name source e
  cases hc : compile name source e with
  | error error e₁ => exact .bind (.of_error hc (hstate.error hc))
  | ok u e₁ =>
    obtain rfl := hstate.ok hc
    have htarget : e₁.heap.Endures (target mode e₁).2.heap := by
      simp only [target]
      split
      · exact ((Heap.Endures.refl _).alloc ht _).alloc (ht.alloc _) _
      · exact .refl _
    have hframes : (target mode e₁).2.frames = e₁.frames := by
      simp only [target]
      split <;> rfl
    exact .bind (.of_ok hc (.bind (.modifyGet (.modifyGet ⟨htarget.alloc (target_tidy mode ht) _, hframes⟩))))

theorem load_endures (mode : LoadMode) (ht : e.heap.Tidy) (hs : e.heap.Stamped) :
    e.heap.Endures (stateOf (load name source mode e)).heap := by
  rw [load, guarding, carried_heap]
  simp only [protect]
  cases hb : beginProtected e with
  | error error e₁ =>
    obtain ⟨-, rfl⟩ := (beginProtected_ensures e).error hb
    exact exceptionValue_endures (.refl _) ht error
  | ok id e₁ =>
    obtain ⟨frame, rfl, ho, rfl⟩ := (beginProtected_ensures e).ok hb
    generalize hopened : ({ e with frames := frame :: e.frames, nextSerial := e.nextSerial + 1 } : Engine) = e₁ at *
    have hheap : e₁.heap = e.heap := hopened ▸ rfl
    have hframes : e₁.frames = frame :: e.frames := hopened ▸ rfl
    have hbody := bindSource_endures name source mode (hheap ▸ ht)
    dsimp only
    cases hx : bindSource name source mode e₁ with
    | ok v e₂ =>
      obtain ⟨hendures, hframes₂⟩ := hbody.ok hx
      simp only [endProtected, leaveProtected_top (hframes₂.trans hframes)]
      exact hheap ▸ hendures
    | error error e₂ =>
      obtain rfl := hbody.error hx
      have hfound : findFrame frame.id e₂.frames = some (frame, e.frames) := hframes ▸ findFrame_top frame e.frames
      have hendures : e.heap.Endures ({ e₂ with frames := e.frames }.exceptionValue error).2.heap :=
        exceptionValue_endures (hheap ▸ .refl _) (hheap ▸ ht) error
      simp only [endProtected, unwind, hfound]
      have hcollected := hendures.collectSince hs
      rw [← ho.heapMark] at hcollected
      exact hcollected _

theorem load_opens {closure : Value} (ht : e.heap.Tidy) (hs : e.heap.Stamped) (hstrict : e.strict = true)
    (hl : load name source .eval e = .ok closure e') :
    ∃ items u, parse source = .ok items ∧ Compiler.script ⟨name, true⟩ items = .ok u ∧
      e'.callee closure = .ok (.closure u (Enclosure.opened ht hs e.env).scope) ∧
      e'.heap = ((Enclosure.opened ht hs e.env).base.allocObject
        (.of (.closure u (Enclosure.opened ht hs e.env).scope))).2 := by
  obtain ⟨id, e₁, u, hb, hu, rfl, hheap⟩ := load_eq_ok hl
  obtain ⟨frame, -, -, rfl⟩ := (beginProtected_ensures e).ok hb
  generalize hopened : ({ e with frames := frame :: e.frames, nextSerial := e.nextSerial + 1 } : Engine) = e₁ at *
  have hstrict₁ : e₁.strict = true := hopened ▸ hstrict
  have htarget : target .eval e₁ = ((Enclosure.opened ht hs e.env).scope,
      { e₁ with heap := (Enclosure.opened ht hs e.env).base }) := by
    subst hopened
    simp only [target, hstrict, and_self, if_true]
    rfl
  rw [htarget] at hheap ⊢
  rw [compile_eq, hstrict₁] at hu
  cases hp : parse source with
  | error d =>
    rw [hp] at hu
    cases hu
  | ok items =>
    rw [hp] at hu
    simp only [SyntaxTree.compile] at hu
    cases hc : Compiler.script ⟨name, true⟩ items with
    | error x =>
      rw [hc] at hu
      cases hu
    | ok u₁ =>
      rw [hc] at hu
      cases hu
      refine ⟨items, u, rfl, hc, ?_, hheap⟩
      have hcallee := callee_closureOf (e := { e₁ with heap := (Enclosure.opened ht hs e.env).base })
        (ht.environment none (some e.env)) u (Enclosure.opened ht hs e.env).scope
      simpa only [callee, display, hheap] using hcallee

end Engine

open Host

variable {κ χ : Type} {h : Host κ χ}

theorem Host.Reached.made {handler : κ → Program κ χ Unit} {n : Nat} (hr : Reached handler n h) :
    ∃ m, h.engine.heap.Made m := by
  induction hr with
  | created hc => exact (evolves_create hc).made .empty
  | ran hr hrun ih =>
    obtain ⟨m, hm⟩ := ih
    obtain ⟨k, hk⟩ := Program.run_evolves (Program.panics_evolve handler _) _ _ _ _ hrun hr.tidy.2
    exact hk.made hm
  | @raised error _ h _ _ ih =>
    obtain ⟨m, hm⟩ := ih
    obtain ⟨v, heap, hheap, hv⟩ := exceptionValue_spec error h.engine
    simp only [Host.update, hv]
    exact hheap.made hm

/-- In a strict instance, whatever its host has done to it and whatever has become of its heap since, so also in
the middle of a run: a text without calls and without assignments to fields and elements leaves each cell as it is
when it is loaded. When it runs, whether it ends with a value or with an error, each scope of before stays and each
object of before keeps its names. What the text declares is bound in a scope that was made for it, and a value of
before changes only by an assignment to a name that the text has not declared until then. -/
theorem strict_eval_binds_in_own_scope {handler : κ → Program κ χ Unit} {n k : Nat} {e : Engine} (name source : String)
    (hr : Reached handler n h) (he : h.engine.heap.Evolves k e.heap) (hstrict : e.strict = true)
    (hx : ∀ tree : SyntaxTree, parse source = .ok tree.items → ∀ x, tree.Contains x → x.meddles = false) :
    e.heap.Endures (stateOf (Engine.load name source .eval e)).heap ∧
    ∀ closure e', Engine.load name source .eval e = .ok closure e' →
      ∃ scope names, e.heap.slot? scope = none ∧ e.heap.slot? names = none ∧
        ∀ receiver args, Machine.BindsIn e.heap scope ⟨names, some e.env⟩ ⟨e', [], .calling receiver closure args⟩ ∧
          ∀ fuel r, e'.call fuel receiver closure args = some r → e.heap.KeepsNames (stateOf r).heap := by
  obtain ⟨m, hm⟩ := hr.made
  obtain ⟨m', hm'⟩ := he.made hm
  have ht := hm'.tidy
  have hs := hm'.stamped
  refine ⟨load_endures .eval ht hs, fun closure e' hl => ?_⟩
  obtain ⟨items, u, hp, hu, hcallee, hheap⟩ := load_opens ht hs hstrict hl
  obtain ⟨σ, hσ⟩ := Compiler.script_handled (fun x hmem y hy => hx ⟨name, items⟩ hp y ⟨x, hmem, hy⟩) hu
  obtain ⟨hscript, hstrict'⟩ := Compiler.script_frame hu
  have hopened : (Enclosure.opened ht hs e.env).Holds (Enclosure.opened ht hs e.env).base :=
    Enclosure.holds_base (ht.environment none (some e.env))
  have hquiet := hopened.quiet.allocObject (.of (.closure u (Enclosure.opened ht hs e.env).scope))
  have hown (x : String) : Environment.own? e'.heap x (Enclosure.opened ht hs e.env).scope = none := by
    rw [hheap]
    exact (hquiet.own?_eq hopened).trans (Enclosure.own?_opened x)
  have hcompiled : e'.heap.OnlyCompiled := by
    have hkeeps := ((Loading.text name source .eval).load_ensures e).ok hl
    exact (hr.tidy.2.evolves he).evolves hkeeps.1.heap
  obtain ⟨hscope, hnames⟩ := Enclosure.opened_fresh ht hs e.env
  refine ⟨_, _, hscope, hnames, fun receiver args => ?_⟩
  have hconfines : (Enclosure.opened ht hs e.env).Confines ⟨e', [], .calling receiver closure args⟩ :=
    .calling (hheap ▸ hquiet.toHolds) hcallee hscript hstrict' hσ
  have hbinds := hconfines.bindsIn (.calling hcompiled receiver closure args) hown
  refine ⟨hbinds, fun fuel r hcall => ?_⟩
  rw [Session.engine_of_call hcall]
  exact hbinds.keepsNames fuel

def trespassing : String :=
  "\x7b var a = 1; \x7d try \x7b var b = \x7b p: a \x7d; throw b; \x7d " ++
    "catch (e) \x7b function f() \x7b return a; \x7d print = e.p; a = 2; \x7d missing = 3; var c;"

theorem strict_eval_binds_in_own_scope_of_trespassing :
    ∃ e closure e' scope names error e'', create? .strictOnly {} = some e ∧
      Engine.load "(eval)" trespassing .eval e = .ok closure e' ∧
      Machine.BindsIn e.heap scope ⟨names, some e.env⟩ ⟨e', [], .calling (.object e.global) closure []⟩ ∧
      (Machine.step^[15] ⟨e', [], .calling (.object e.global) closure []⟩).assigns?.map (·.1) = some "print" ∧
      e'.call 24 (.object e.global) closure [] = some (.error error e'') ∧ e.heap.KeepsNames e''.heap ∧
      (Environment.own? e''.heap "b" scope).isSome = true := by
  have hharmless : (parse trespassing).toOption.all (fun items => items.all fun item =>
      (Node.stmt false item).allDown (!·.meddles) 12) = true := by decide +kernel
  have hok : (create? .strictOnly {}).any (fun e => e.strict &&
      (valueOf? (Engine.load "(eval)" trespassing .eval e)).any fun loaded =>
        decide ((Machine.step^[15] ⟨loaded.2, [], .calling (.object e.global) loaded.1 []⟩).assigns?.map (·.1) = some "print") &&
        decide ((Machine.step^[7] ⟨loaded.2, [], .calling (.object e.global) loaded.1 []⟩).declares? = some "b") &&
        (loaded.2.call 24 (.object e.global) loaded.1 []).any fun r => (valueOf? r).isNone) = true := by
    decide +kernel
  obtain ⟨e, hc, hrest⟩ := (Option.any_eq_true _ _).mp hok
  obtain ⟨hstrict, hrest⟩ := Bool.and_eq_true_iff.mp hrest
  obtain ⟨⟨closure, e'⟩, hl, hrest⟩ := (Option.any_eq_true _ _).mp hrest
  dsimp only at hrest
  obtain ⟨hprint, hrest⟩ := Bool.and_eq_true_iff.mp hrest
  obtain ⟨hprint, hb⟩ := Bool.and_eq_true_iff.mp hprint
  obtain ⟨r, hcall, herror⟩ := (Option.any_eq_true _ _).mp hrest
  have hload := eq_ok_of_valueOf? hl
  have hr : Reached (κ := Unit) (χ := Unit) .quiet 0 (ofEngine e) := .created hc
  have hx (tree : SyntaxTree) (hp : parse trespassing = .ok tree.items) (x : Node) (hmem : tree.Contains x) :
      x.meddles = false := by
    obtain ⟨item, hitem, hwithin⟩ := hmem
    rw [hp] at hharmless
    have hdown := List.all_eq_true.mp hharmless item hitem
    exact Bool.not_eq_true' _ ▸ Node.throughout_of_allDown hdown x hwithin
  obtain ⟨-, hloaded⟩ := strict_eval_binds_in_own_scope (k := 0) "(eval)" trespassing hr .refl hstrict hx
  obtain ⟨scope, names, -, -, hruns⟩ := hloaded closure e' hload
  obtain ⟨hbinds, hends⟩ := hruns (.object e.global) []
  cases r with
  | ok v e'' => cases herror
  | error error e'' =>
    refine ⟨e, closure, e', scope, names, error, e'', hc, hload, hbinds, of_decide_eq_true hprint, hcall,
      hends 24 _ hcall, ?_⟩
    have hbound := (hbinds.names 24 "b").mpr ⟨7, by omega, of_decide_eq_true hb⟩
    rw [← Session.engine_of_call hcall] at hbound
    exact hbound

end ScriptEngine
