import ScriptEngine.Proofs.Heap.Binding
import ScriptEngine.Proofs.Heap.Books

/-!
Code with a scope of its own. The cells that were there when the code was given its scope stay, with their
properties: what the code makes lies in new cells, what it declares in the object of its scope, and an
assignment sets a property that is there, by the nearest scope outwards that has one of that name.
-/

namespace ScriptEngine

def Cell.Revalued : Cell → Cell → Prop
  | .environment env, cell => cell = .environment env
  | .object o, cell => ∃ properties : PropertyMap Value,
      properties.names = o.properties.names ∧ cell = .object { o with properties }

theorem Cell.Revalued.refl (cell : Cell) : cell.Revalued cell := by
  cases cell with
  | environment env => rfl
  | object o => exact ⟨o.properties, rfl, rfl⟩

theorem Cell.Revalued.insert {cell : Cell} {o : Object} {name : String} (h : cell.Revalued (.object o))
    (hn : o.properties.has name = true) (value : Value) :
    cell.Revalued (.object { o with properties := o.properties.insert name value }) := by
  cases cell with
  | environment env => cases h
  | object old =>
    obtain ⟨properties, hnames, heq⟩ := h
    cases heq
    exact ⟨_, by rw [PropertyMap.names_insert, if_pos hn, hnames], rfl⟩

structure Enclosure where
  base : Heap
  scope : Handle
  names : Handle
  outer : Handle
  below : ∀ a s, base.slot? a = some s → s.born < base.born
  environment : base.environment? scope = some ⟨names, some outer⟩
  object : ∃ o, base.object? names = some o

namespace Enclosure

open Heap
open Environment (own? hasOwn_eq)

variable (K : Enclosure)

def opened {h : Heap} (ht : h.Tidy) (hs : h.Stamped) (outer : Handle) : Enclosure where
  base := (Environment.alloc h none (some outer)).2
  scope := (Environment.alloc h none (some outer)).1
  names := (h.allocObject (.of .plain)).1
  outer := outer
  below := ((hs.alloc _).alloc _).below
  environment := environment?_of_slot (slot?_alloc_new (ht.alloc _) _) rfl
  object := ⟨.of .plain, object?_of_slot? (slot?_alloc_of_live (ht.alloc _) _ (slot?_alloc_new ht _)) rfl⟩

def New (a : Handle) : Prop := K.base.slot? a = none

def Inside (a : Handle) : Prop := a = K.scope ∨ K.New a

/-- The old cells are there, all of them but the object of the names as they were except for the values of
properties, and each scope made later stands on the scope of the code. -/
structure Holds (h : Heap) : Prop where
  tidy : h.Tidy
  born : K.base.born ≤ h.born
  older : ∀ a s, K.base.slot? a = some s → a ≠ K.names → ∃ t, h.slot? a = some t ∧ t.born = s.born ∧ s.cell.Revalued t.cell
  names : ∃ mark born o, h.slot? K.names = some ⟨mark, born, .object o⟩ ∧ born < K.base.born
  inner : ∀ a env, K.New a → h.environment? a = some env → K.New env.names ∧ ∃ b, env.outer = some b ∧ K.Inside b

def Spares (h h' : Heap) : Prop :=
  ∀ a s, K.base.slot? a = some s → (h'.slot? a).map Slot.content = (h.slot? a).map Slot.content

structure Quiet (h₀ h : Heap) : Prop extends K.Holds h where
  spares : K.Spares h₀ h

variable {K} {h₀ h h' : Heap} {a b env : Handle} {name : String} {value : Value}

theorem not_new {s : Slot} (ha : K.base.slot? a = some s) : ¬ K.New a := by
  intro hnew
  rw [New, ha] at hnew
  cases hnew

theorem scope_ne_names (K : Enclosure) : K.scope ≠ K.names := by
  intro heq
  obtain ⟨o, ho⟩ := K.object
  have henv := environment?_eq_some.mp K.environment
  rw [heq, object?_eq_some.mp ho] at henv
  cases henv

theorem holds_base (ht : K.base.Tidy) : K.Holds K.base where
  tidy := ht
  born := Nat.le_refl _
  older a s ha _ := ⟨s, ha, rfl, .refl _⟩
  names := by
    obtain ⟨o, ho⟩ := K.object
    obtain ⟨⟨mark, born, _⟩, hs, rfl⟩ := slot?_of_cell? (object?_eq_some.mp ho)
    exact ⟨mark, born, o, hs, K.below _ _ hs⟩
  inner a env hnew he := by
    obtain ⟨s, hs, -⟩ := slot?_of_cell? (environment?_eq_some.mp he)
    exact absurd hnew (not_new hs)

namespace Holds

theorem slot {s : Slot} (hh : K.Holds h) (ha : K.base.slot? a = some s) :
    ∃ t, h.slot? a = some t ∧ t.born < K.base.born := by
  by_cases hn : a = K.names
  · obtain ⟨mark, born, o, hs, hlt⟩ := hh.names
    exact ⟨_, hn ▸ hs, hlt⟩
  · obtain ⟨t, ht, hborn, -⟩ := hh.older a s ha hn
    exact ⟨t, ht, hborn ▸ K.below a s ha⟩

theorem quiet (hh : K.Holds h) : K.Quiet h h := ⟨hh, fun _ _ _ => rfl⟩

theorem scope_eq (hh : K.Holds h) : h.environment? K.scope = some ⟨K.names, some K.outer⟩ := by
  obtain ⟨s, hs, hcell⟩ := slot?_of_cell? (environment?_eq_some.mp K.environment)
  obtain ⟨t, ht, -, hrev⟩ := hh.older _ s hs K.scope_ne_names
  rw [hcell] at hrev
  exact environment?_of_slot ht hrev

theorem own?_scope (hh : K.Holds h) {mark : UInt32} {born : Nat} {o : Object}
    (hs : h.slot? K.names = some ⟨mark, born, .object o⟩) : own? h name K.scope = o.properties.get? name := by
  have ho : h.object? K.names = some o := object?_of_slot? hs rfl
  simp only [own?, hh.scope_eq, Option.bind_some, ho]

end Holds

namespace Quiet

theorem of_spares (hq : K.Quiet h₀ h) (ht : h'.Tidy) (hb : h.born ≤ h'.born) (hs : K.Spares h h')
    (hi : ∀ a env, K.New a → h'.environment? a = some env → K.New env.names ∧ ∃ b, env.outer = some b ∧ K.Inside b) :
    K.Quiet h₀ h' := by
  have hkept {a : Handle} {s t : Slot} (ha : K.base.slot? a = some s) (hslot : h.slot? a = some t) :
      ∃ t', h'.slot? a = some t' ∧ t'.born = t.born ∧ t'.cell = t.cell := by
    have hcontent := hs a s ha
    rw [hslot] at hcontent
    obtain ⟨t', ht', heq⟩ := Option.map_eq_some_iff.mp hcontent
    exact ⟨t', ht', congrArg (·.1) heq, congrArg (·.2) heq⟩
  refine ⟨⟨ht, Nat.le_trans hq.born hb, fun a s ha hn => ?_, ?_, hi⟩, fun a s ha => (hs a s ha).trans (hq.spares a s ha)⟩
  · obtain ⟨t, hslot, hborn, hrev⟩ := hq.older a s ha hn
    obtain ⟨t', hslot', hborn', hcell⟩ := hkept ha hslot
    exact ⟨t', hslot', hborn'.trans hborn, hcell ▸ hrev⟩
  · obtain ⟨mark, born, o, hslot, hlt⟩ := hq.names
    obtain ⟨o', ho'⟩ := K.object
    obtain ⟨s, hs', -⟩ := slot?_of_cell? (object?_eq_some.mp ho')
    obtain ⟨⟨mark', born', cell⟩, hslot', hborn, hcell⟩ := hkept hs' hslot
    obtain rfl : cell = .object o := hcell
    obtain rfl : born' = born := hborn
    exact ⟨mark', born', o, hslot', hlt⟩

theorem trans (hq : K.Quiet h₀ h) (hq' : K.Quiet h h') : K.Quiet h₀ h' :=
  ⟨hq'.toHolds, fun a s ha => (hq'.spares a s ha).trans (hq.spares a s ha)⟩

theorem new_alloc (hq : K.Quiet h₀ h) (cell : Cell) : K.New (h.alloc cell).1 := by
  have hempty := cell?_alloc_before hq.tidy cell
  cases hs : K.base.slot? (h.alloc cell).1 with
  | none => exact hs
  | some s =>
    obtain ⟨t, ht, -⟩ := hq.slot hs
    rw [cell?, ht] at hempty
    cases hempty

theorem alloc (hq : K.Quiet h₀ h) {cell : Cell}
    (hc : ∀ env, cell = .environment env → K.New env.names ∧ ∃ b, env.outer = some b ∧ K.Inside b) :
    K.Quiet h₀ (h.alloc cell).2 := by
  have hborn : h.born ≤ (h.alloc cell).2.born := by
    rw [born_alloc]
    exact Nat.le_succ _
  refine hq.of_spares (hq.tidy.alloc cell) hborn (fun a s ha => ?_) fun a env hnew he => ?_
  · obtain ⟨t, ht, -⟩ := hq.slot ha
    rw [slot?_alloc_of_live hq.tidy cell ht, ht]
  · obtain ⟨s, hs, hcell⟩ := slot?_of_cell? (environment?_eq_some.mp he)
    rw [slot?_alloc] at hs
    split at hs
    · obtain rfl := Option.some.inj hs
      exact hc env hcell
    · exact hq.inner a env hnew (environment?_of_slot hs hcell)

theorem allocObject (hq : K.Quiet h₀ h) (o : Object) : K.Quiet h₀ (h.alloc (.object o)).2 := by
  refine hq.alloc fun env heq => ?_
  cases heq

theorem environment (hq : K.Quiet h₀ h) (hb : K.Inside b) :
    K.Quiet h₀ (Environment.alloc h none (some b)).2 ∧ K.New (Environment.alloc h none (some b)).1 := by
  have hobject := hq.allocObject (.of .plain)
  refine ⟨hobject.alloc fun env heq => ?_, hobject.new_alloc _⟩
  cases heq
  exact ⟨hq.new_alloc _, b, rfl, hb⟩

theorem insertProperty? (hq : K.Quiet h₀ h) (ha : K.New a) (hi : h.insertProperty? a name value = some h') :
    K.Quiet h₀ h' := by
  obtain ⟨mark, born, o, hs, rfl⟩ := insertProperty?_eq_some hi
  refine hq.of_spares (hq.tidy.write hs) (Nat.le_refl _) (fun b s hb => ?_) fun b env hnew he => ?_
  · rw [slot?_setSlot, if_neg]
    rintro ⟨rfl, -⟩
    exact not_new hb ha
  · exact hq.inner b env hnew ((environment?_withProperty hs b).symm.trans he)

theorem setProperty (hq : K.Quiet h₀ h) (ha : K.New a) (hs : h.setProperty (.object a) name value = .ok h') :
    K.Quiet h₀ h' := by
  simp only [Heap.setProperty] at hs
  split at hs
  · next h'' hi =>
    cases hs
    exact hq.insertProperty? ha hi
  · cases hs

theorem define (hq : K.Quiet h₀ h) (he : K.New env) (hd : Environment.define h env name value = .ok h') :
    K.Quiet h₀ h' := by
  simp only [Environment.define, Environment.bindings, bind_eq_ok] at hd
  obtain ⟨v, hv, hrest⟩ := hd
  split at hv
  · next e henv =>
    cases hv
    split at hrest
    · next h'' hi =>
      cases hrest
      exact hq.insertProperty? (hq.inner env e he henv).1 hi
    · exact absurd hrest throw_ne_ok
  · cases hv

theorem collectSince (hq : K.Quiet h₀ h) {since : Nat} (hs : K.base.born ≤ since) (roots : List Handle) :
    K.Quiet h₀ (h.collectSince since roots).2 := by
  refine hq.of_spares (hq.tidy.collectSince since roots) (Nat.le_refl _) (fun a s ha => ?_) fun a env hnew he => ?_
  · obtain ⟨t, ht, hlt⟩ := hq.slot ha
    rw [content_collected_of_old ht (Nat.lt_of_lt_of_le hlt hs), ht]
    rfl
  · obtain ⟨s, hs, hcell⟩ := slot?_of_cell? (environment?_eq_some.mp he)
    obtain ⟨t, ht, heq⟩ := Option.map_eq_some_iff.mp (content_of_collectSince hs)
    exact hq.inner a env hnew (environment?_of_slot ht ((congrArg (·.2) heq).trans hcell))

theorem own?_eq (hq : K.Quiet h₀ h) (hh : K.Holds h₀) : own? h name K.scope = own? h₀ name K.scope := by
  obtain ⟨o, ho⟩ := K.object
  obtain ⟨s, hs, -⟩ := slot?_of_cell? (object?_eq_some.mp ho)
  obtain ⟨mark, born, o, hnames, -⟩ := hh.names
  obtain ⟨mark', born', o', hnames', -⟩ := hq.names
  have hcontent := hq.spares _ s hs
  rw [hnames, hnames'] at hcontent
  cases hcontent
  rw [hq.own?_scope hnames', hh.own?_scope hnames]

end Quiet

variable (K) in
def Assigns (name : String) (value : Value) (h h' : Heap) (a : Handle) : Prop :=
  own? h name K.scope = none ∧ ∃ mark born o, h.slot? a = some ⟨mark, born, .object o⟩ ∧ o.properties.has name = true ∧
    h'.slot? a = some ⟨mark, born, .object { o with properties := o.properties.insert name value }⟩

variable (K) in
structure Turns (declared : Option String) (assigned : Option (String × Value)) (h h' : Heap) : Prop where
  holds : K.Holds h'
  cells : ∀ a s, K.base.slot? a = some s → a ≠ K.names →
    (h'.slot? a).map Slot.content = (h.slot? a).map Slot.content ∨
      ∃ name value, assigned = some (name, value) ∧ K.Assigns name value h h' a
  names : ∀ name, (own? h' name K.scope).isSome = true ↔ (own? h name K.scope).isSome = true ∨ declared = some name
  others : declared ≠ none → ∀ a, a ≠ K.names → h'.slot? a = h.slot? a

theorem Quiet.turns (hq : K.Quiet h h') (hh : K.Holds h) (assigned : Option (String × Value)) :
    K.Turns none assigned h h' where
  holds := hq.toHolds
  cells a s ha _ := .inl (hq.spares a s ha)
  names name := by simp [hq.own?_eq hh]
  others hd := absurd rfl hd

section Writing

variable {mark : UInt32} {born : Nat} {o : Object}

theorem Holds.withProperty (hh : K.Holds h) (hs : h.slot? a = some ⟨mark, born, .object o⟩)
    (hn : a = K.names ∨ o.properties.has name = true) : K.Holds (h.withProperty a mark born o name value) where
  tidy := hh.tidy.write hs
  born := hh.born
  older b s hb hne := by
    obtain ⟨t, ht, hborn, hrev⟩ := hh.older b s hb hne
    rw [Heap.withProperty, slot?_setSlot]
    split
    · next hab =>
      obtain rfl := hab.1
      obtain rfl := Option.some.inj (hs.symm.trans ht)
      exact ⟨_, rfl, hborn, hrev.insert (hn.resolve_left hne) value⟩
    · exact ⟨t, ht, hborn, hrev⟩
  names := by
    obtain ⟨mark', born', o', hs', hlt⟩ := hh.names
    rw [Heap.withProperty, slot?_setSlot]
    split
    · next hab =>
      obtain rfl := hab.1
      cases hs.symm.trans hs'
      exact ⟨_, _, _, rfl, hlt⟩
    · exact ⟨mark', born', o', hs', hlt⟩
  inner b env hnew he := hh.inner b env hnew ((environment?_withProperty hs b).symm.trans he)

theorem Holds.reset (hh : K.Holds h) (hs : h.slot? a = some ⟨mark, born, .object o⟩)
    (hn : o.properties.has name = true) (ha : a = K.names ∨ K.New a ∨ own? h name K.scope = none) (value : Value) :
    K.Turns none (some (name, value)) h (h.withProperty a mark born o name value) where
  holds := hh.withProperty hs (.inr hn)
  cells b s hb hne := by
    by_cases hab : a = b
    · subst hab
      refine .inr ⟨name, value, rfl, ?_, mark, born, o, hs, hn, ?_⟩
      · exact (ha.resolve_left hne).resolve_left (not_new hb)
      · rw [Heap.withProperty, slot?_setSlot, if_pos ⟨rfl, index_lt_of_slot? hs⟩]
    · rw [Heap.withProperty, slot?_setSlot, if_neg fun hc => hab hc.1]
      exact .inl rfl
  names other := by
    rw [own?_withProperty hs other hh.scope_eq]
    split
    · next hc =>
      obtain ⟨rfl, rfl⟩ := hc
      rw [hh.own?_scope hs]
      simpa [PropertyMap.has] using hn
    · simp
  others hd := absurd rfl hd

theorem Holds.define (hh : K.Holds h) (name : String) (value : Value) (assigned : Option (String × Value)) :
    ∃ h', Environment.define h K.scope name value = .ok h' ∧ K.Turns (some name) assigned h h' := by
  obtain ⟨mark, born, o, hs, hlt⟩ := hh.names
  have hother (b : Handle) (hne : b ≠ K.names) : (h.withProperty K.names mark born o name value).slot? b = h.slot? b := by
    rw [Heap.withProperty, slot?_setSlot, if_neg fun hc => hne hc.1.symm]
  refine ⟨h.withProperty K.names mark born o name value, ?_, hh.withProperty hs (.inl rfl), fun b s _ hne => .inl ?_,
    fun other => ?_, fun _ => hother⟩
  · rw [Environment.define, bind_eq_ok]
    refine ⟨K.names, by rw [Environment.bindings, hh.scope_eq], ?_⟩
    simp only [Heap.insertProperty?, hs]
    rfl
  · rw [hother b hne]
  · rw [own?_withProperty hs other hh.scope_eq]
    by_cases hname : name = other <;> simp [hname]

theorem Holds.declare (hh : K.Holds h) (name : String) (assigned : Option (String × Value)) :
    ∃ h', Environment.declare h K.scope name = .ok h' ∧ K.Turns (some name) assigned h h' := by
  rw [Environment.declare_eq hh.scope_eq]
  split
  · next hown =>
    refine ⟨h, rfl, hh, fun _ _ _ _ => .inl rfl, fun other => ⟨.inl, ?_⟩, fun _ _ _ => rfl⟩
    rintro (hother | heq)
    · exact hother
    · cases heq
      exact hown
  · exact hh.define name .undefined assigned

end Writing

theorem hasOwn_of_binder {n : Nat} {c : Handle} (hb : Environment.binderWithin h name n env = .ok (.bound c)) :
    Environment.hasOwn h c name = .ok true := by
  induction n generalizing env with
  | zero => cases hb
  | succ n ih =>
    simp only [Environment.binderWithin, bind_eq_ok] at hb
    obtain ⟨own, hown, hb⟩ := hb
    split at hb
    · cases hb
      simpa [‹own = true›] using hown
    · split at hb
      · exact ih hb
      · cases hb

theorem Holds.binder {n : Nat} {c : Handle} (hh : K.Holds h) (he : K.Inside env)
    (hb : Environment.binderWithin h name n env = .ok (.bound c)) : K.Inside c ∨ own? h name K.scope = none := by
  induction n generalizing env with
  | zero => cases hb
  | succ n ih =>
    simp only [Environment.binderWithin, bind_eq_ok] at hb
    obtain ⟨own, hown, hb⟩ := hb
    cases own with
    | true =>
      cases hb
      exact .inl he
    | false =>
      simp only [Bool.false_eq_true, if_false] at hb
      rcases he with rfl | hnew
      · rw [hasOwn_eq hh.scope_eq] at hown
        exact .inr (Option.not_isSome_iff_eq_none.mp (by simpa using hown))
      · cases henv : h.environment? env with
        | none =>
          simp only [henv, Option.bind_none] at hb
          cases hb
        | some scope =>
          obtain ⟨-, b, hb', hinside⟩ := hh.inner env scope hnew henv
          simp only [henv, Option.bind_some, hb'] at hb
          exact ih hinside hb

theorem Holds.assign (hh : K.Holds h) (he : K.Inside env)
    (ha : Environment.assign h env name value true = .ok h') : K.Turns none (some (name, value)) h h' := by
  simp only [Environment.assign, bind_eq_ok] at ha
  obtain ⟨binder, hb, hd⟩ := ha
  cases binder with
  | outermost c =>
    simp only [if_true] at hd
    exact absurd hd throw_ne_ok
  | bound c =>
    have hown := hasOwn_of_binder hb
    have hinside := hh.binder he hb
    simp only [Environment.hasOwn, Environment.define, Environment.bindings, bind_eq_ok, pure_eq_ok] at hown hd
    obtain ⟨v, hv, hrest⟩ := hd
    obtain ⟨w, hw, hhas⟩ := hown
    cases hc : h.environment? c with
    | none =>
      rw [hc] at hv
      cases hv
    | some scope =>
      rw [hc] at hv hw
      cases hv
      cases hw
      split at hrest
      · next h'' hi =>
        cases hrest
        obtain ⟨mark, born, o, hs, rfl⟩ := insertProperty?_eq_some hi
        have ho : h.object? scope.names = some o := object?_of_slot? hs rfl
        rw [ho] at hhas
        refine hh.reset hs hhas ?_ value
        rcases hinside with (rfl | hnew) | hunbound
        · rw [hh.scope_eq] at hc
          cases hc
          exact .inl rfl
        · exact .inr (.inl (hh.inner c scope hnew hc).1)
        · exact .inr (.inr hunbound)
      · exact absurd hrest throw_ne_ok

end Enclosure

end ScriptEngine
