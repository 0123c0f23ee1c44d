import Mathlib.Data.List.Perm.Subperm
import ScriptEngine.Proofs.Engine.Likeness
import ScriptEngine.Proofs.Heap.Exactness
import ScriptEngine.Proofs.Heap.Outwards

namespace ScriptEngine

open Environment

namespace Heap

/-- The way out from a scope is finite, and the scopes on it and the objects of their names are live. -/
structure Stands (h : Heap) (last a : Handle) (path : List (Handle × Nat)) : Prop where
  way : h.Outwards last a path
  names : ∀ p ∈ path, ∃ env o, h.environment? p.1 = some env ∧ h.object? env.names = some o

inductive Clear (h : Heap) (name : String) : Handle → Handle → Prop
  | here (a : Handle) : Clear h name a a
  | outer {a b c names : Handle} : h.environment? a = some ⟨names, some b⟩ → own? h name a = none →
      Clear h name b c → Clear h name a c

def Resolves (h : Heap) (name : String) (a c : Handle) : Prop :=
  h.Clear name a c ∧ (own? h name c).isSome = true

/-- One property of one object is set. The other cells and the other properties are as before, and of the
names that are looked up only this one can lead elsewhere than before, and then to this property. -/
structure Sets (h : Heap) (names : Handle) (name : String) (value : Value) (h' : Heap) : Prop where
  books : h' = { h with slots := h'.slots } ∧ h'.slots.size = h.slots.size
  cells : ∀ b, b ≠ names → h'.slot? b = h.slot? b
  object : ∃ o o', h.object? names = some o ∧ h'.object? names = some o' ∧ o'.kind = o.kind ∧ o'.parent = o.parent ∧
    (∀ other, o'.properties.get? other = if other = name then some value else o.properties.get? other) ∧
    o'.properties.names = if o.properties.has name then o.properties.names else o.properties.names ++ [name]
  others : ∀ b other, other ≠ name → lookup h' b other = lookup h b other
  named : ∀ b, lookup h' b name = lookup h b name ∨ lookup h' b name = some value ∧
    ∃ c env, h'.Resolves name b c ∧ h'.environment? c = some env ∧ env.names = names

section Ways

variable {h : Heap} {n : Nat} {last last' a b : Handle} {path path' : List (Handle × Nat)}

theorem Outwards.unique (hp : h.Outwards last a path) (hp' : h.Outwards last' a path') : path = path' := by
  induction hp generalizing path' with
  | last hs =>
    cases hp' with
    | last hs' => cases hs.symm.trans hs'; rfl
    | outer hs' => cases hs.symm.trans hs'
  | outer hs _ ih =>
    cases hp' with
    | last hs' => cases hs.symm.trans hs'
    | outer hs' hrest =>
      cases hs.symm.trans hs'
      rw [ih hrest]

theorem Outwards.rest {p : Handle × Nat} (hp : h.Outwards last a path) (hmem : p ∈ path) :
    ∃ post, post.length ≤ path.length ∧ h.Outwards last p.1 post := by
  induction hp with
  | last hs =>
    obtain rfl := List.mem_singleton.mp hmem
    exact ⟨_, Nat.le_refl _, .last hs⟩
  | @outer a b mark born names path hs hrest ih =>
    rcases List.mem_cons.mp hmem with rfl | hmem
    · exact ⟨_, Nat.le_refl _, .outer hs hrest⟩
    · obtain ⟨post, hle, hpost⟩ := ih hmem
      exact ⟨post, Nat.le_succ_of_le hle, hpost⟩

theorem Outwards.nodup (hp : h.Outwards last a path) : (path.map (·.1)).Nodup := by
  induction hp with
  | last _ => exact List.nodup_singleton _
  | @outer a b mark born names path hs hrest ih =>
    rw [List.map_cons, List.nodup_cons]
    -- A scope that came again would have a way out that is shorter than itself.
    refine ⟨fun hmem => ?_, ih⟩
    obtain ⟨p, hp, rfl⟩ := List.mem_map.mp hmem
    obtain ⟨post, hle, hpost⟩ := hrest.rest hp
    have hlength := congrArg List.length (hpost.unique (.outer hs hrest))
    rw [List.length_cons] at hlength
    omega

theorem Outwards.live {p : Handle × Nat} (hp : h.Outwards last a path) (hmem : p ∈ path) : p.1 ∈ h.handles := by
  obtain ⟨post, -, hpost⟩ := hp.rest hmem
  obtain ⟨s, hs⟩ : ∃ s, h.slot? p.1 = some s := by
    cases hpost with
    | last hs => exact ⟨_, hs⟩
    | outer hs _ => exact ⟨_, hs⟩
  refine List.mem_filter.mpr ⟨List.mem_map.mpr ⟨p.1.index, ?_, rfl⟩, contains_iff.mpr ⟨s, hs⟩⟩
  exact List.mem_range.mpr (index_lt_of_slot? hs)

theorem Made.live_le_born (hm : h.Made n) : h.live ≤ h.born := by
  induction hm with
  | empty => exact Nat.le_refl 0
  | alloc cell _ ih =>
    simp only [Heap.alloc]
    split <;> exact Nat.succ_le_succ ih
  | change o' _ _ ih => exact ih
  | collect since roots _ ih => exact Nat.le_trans (Nat.sub_le _ _) ih

theorem Outwards.within (hp : h.Outwards last a path) (hm : h.Made n) : path.length ≤ h.chainLimit := by
  have hsub : path.map (·.1) ⊆ h.handles := by
    intro b hb
    obtain ⟨p, hmem, rfl⟩ := List.mem_map.mp hb
    exact hp.live hmem
  have hle := (hp.nodup.subperm hsub).length_le
  rw [List.length_map, ← hm.live_eq] at hle
  have hborn := hm.live_le_born
  simp only [chainLimit]
  omega

end Ways

section Lookups

variable {h : Heap} {n : Nat} {last a c : Handle} {path : List (Handle × Nat)} {name : String}

theorem Outwards.resolve (hp : h.Outwards last a path) (name : String) :
    (∃ c old, h.Clear name a c ∧ own? h name c = some old ∧ path.findSome? (own? h name ·.1) = some old ∧
      (path.find? fun p => (own? h name p.1).isSome).map (·.1) = some c) ∨
    h.Clear name a last ∧ ∀ p ∈ path, own? h name p.1 = none := by
  induction hp with
  | @last mark born names hs =>
    cases hown : own? h name last with
    | none => exact .inr ⟨.here last, by simpa using hown⟩
    | some old => exact .inl ⟨last, old, .here last, hown, by simp [hown], by simp [hown]⟩
  | @outer a b mark born names path hs _ ih =>
    cases hown : own? h name a with
    | some old => exact .inl ⟨a, old, .here a, hown, by simp [hown], by simp [hown]⟩
    | none =>
      have henv := environment?_of_slot hs rfl
      rcases ih with ⟨c, old, hclear, hc, hsome, hfind⟩ | ⟨hclear, hnone⟩
      · refine .inl ⟨c, old, .outer henv hown hclear, hc, ?_, ?_⟩
        · rw [List.findSome?_cons_of_isNone (by simp [hown]), hsome]
        · rw [List.find?_cons_of_neg (by simp [hown]), hfind]
      · exact .inr ⟨.outer henv hown hclear, List.forall_mem_cons.mpr ⟨hown, hnone⟩⟩

theorem Clear.findSome?_eq (hclear : h.Clear name a c) {value : Value} (hown : own? h name c = some value)
    (hp : h.Outwards last a path) : path.findSome? (own? h name ·.1) = some value := by
  induction hclear generalizing path with
  | here => cases hp <;> simp [hown]
  | outer henv hnone _ ih =>
    cases hp with
    | last hs =>
      rw [environment?_of_slot hs rfl] at henv
      cases henv
    | outer hs hrest =>
      rw [environment?_of_slot hs rfl] at henv
      cases henv
      rw [List.findSome?_cons_of_isNone (by simp [hnone])]
      exact ih hown hrest

theorem Clear.lookup_eq (hclear : h.Clear name a c) {value : Value} (hown : own? h name c = some value)
    (hp : h.Outwards last a path) (hm : h.Made n) : lookup h a name = some value := by
  rw [lookup, lookupWithin_eq hp (hp.within hm)]
  exact hclear.findSome?_eq hown hp

theorem lookupWithin_succ (h : Heap) (name : String) (k : Nat) (a : Handle) :
    lookupWithin h name (k + 1) a =
      (own? h name a).or (((h.environment? a).bind (·.outer)).bind (lookupWithin h name k)) := by
  simp only [lookupWithin, own?]
  cases h.environment? a with
  | none => rfl
  | some env =>
    simp only [Option.bind_some]
    cases (h.object? env.names).bind (·.properties.get? name) <;> rfl

end Lookups

section Writing

variable {h : Heap} {n : Nat} {names last a c : Handle} {path : List (Handle × Nat)} {name : String} {value : Value}
  {mark : UInt32} {born : Nat} {o : Object}

def withProperty (h : Heap) (names : Handle) (mark : UInt32) (born : Nat) (o : Object) (name : String) (value : Value) :
    Heap :=
  h.setSlot names ⟨mark, born, .object { o with properties := o.properties.insert name value }⟩

theorem environment?_withProperty (ho : h.slot? names = some ⟨mark, born, .object o⟩) (b : Handle) :
    (h.withProperty names mark born o name value).environment? b = h.environment? b := by
  by_cases hb : names = b
  · subst hb
    rw [environment?, environment?, withProperty, cell?_setSlot ho, if_pos rfl, cell?, ho]
    rfl
  · rw [environment?, environment?, withProperty, cell?_setSlot ho, if_neg hb]

theorem object?_withProperty (ho : h.slot? names = some ⟨mark, born, .object o⟩) (b : Handle) :
    (h.withProperty names mark born o name value).object? b =
      if names = b then some { o with properties := o.properties.insert name value } else h.object? b := by
  by_cases hb : names = b
  · rw [object?, withProperty, cell?_setSlot ho, if_pos hb, if_pos hb]
  · rw [object?, withProperty, cell?_setSlot ho, if_neg hb, if_neg hb, object?]

theorem own?_withProperty (ho : h.slot? names = some ⟨mark, born, .object o⟩) (other : String) {env : Environment}
    (he : h.environment? a = some env) :
    own? (h.withProperty names mark born o name value) other a =
      if names = env.names ∧ name = other then some value else own? h other a := by
  have hobject : h.object? names = some o := object?_of_slot? ho rfl
  simp only [own?, environment?_withProperty ho, object?_withProperty ho, he, Option.bind_some]
  by_cases hn : names = env.names
  · rw [if_pos hn, ← hn, hobject, Option.bind_some, Option.bind_some, PropertyMap.get?_insert]
    simp only [true_and]
  · rw [if_neg hn, if_neg fun hc => hn hc.1]

theorem own?_withProperty_of_dead (ho : h.slot? names = some ⟨mark, born, .object o⟩) (other : String)
    (he : h.environment? a = none) : own? (h.withProperty names mark born o name value) other a = own? h other a := by
  simp only [own?, environment?_withProperty ho, he, Option.bind_none]

theorem Outwards.withProperty (ho : h.slot? names = some ⟨mark, born, .object o⟩) (hp : h.Outwards last a path) :
    (h.withProperty names mark born o name value).Outwards last a path := by
  have hslot {b : Handle} {s : Slot} {env : Environment} (hs : h.slot? b = some s) (hc : s.cell = .environment env) :
      (h.withProperty names mark born o name value).slot? b = some s := by
    rw [Heap.withProperty, slot?_setSlot, if_neg, hs]
    rintro ⟨rfl, -⟩
    rw [ho] at hs
    obtain rfl := Option.some.inj hs
    cases hc
  induction hp with
  | last hs => exact .last (hslot hs rfl)
  | outer hs _ ih => exact .outer (hslot hs rfl) ih

theorem lookupWithin_withProperty_of_ne (ho : h.slot? names = some ⟨mark, born, .object o⟩) {other : String}
    (hne : other ≠ name) (k : Nat) (b : Handle) :
    lookupWithin (h.withProperty names mark born o name value) other k b = lookupWithin h other k b := by
  induction k generalizing b with
  | zero => rfl
  | succ k ih =>
    have hown : own? (h.withProperty names mark born o name value) other b = own? h other b := by
      cases he : h.environment? b with
      | none => exact own?_withProperty_of_dead ho other he
      | some env => rw [own?_withProperty ho other he, if_neg fun hc => hne hc.2.symm]
    rw [lookupWithin_succ, lookupWithin_succ, hown, environment?_withProperty ho, funext ih]

theorem lookupWithin_withProperty (ho : h.slot? names = some ⟨mark, born, .object o⟩) {h' : Heap}
    (hh' : h' = h.withProperty names mark born o name value) (k : Nat) (b : Handle) :
    lookupWithin h' name k b = lookupWithin h name k b ∨ lookupWithin h' name k b = some value ∧
      ∃ c env, h'.Resolves name b c ∧ h'.environment? c = some env ∧ env.names = names := by
  have henv (a : Handle) : h'.environment? a = h.environment? a := by rw [hh', environment?_withProperty ho]
  -- Up to the first scope that shares the object both lookups see the same.
  induction k generalizing b with
  | zero => exact .inl rfl
  | succ k ih =>
    rw [lookupWithin_succ, lookupWithin_succ, henv]
    cases he : h.environment? b with
    | none => exact .inl (by rw [hh', own?_withProperty_of_dead ho name he]; rfl)
    | some env =>
      have hown : own? h' name b = _ := hh' ▸ own?_withProperty ho name he
      by_cases hn : names = env.names
      · rw [if_pos ⟨hn, rfl⟩] at hown
        exact .inr ⟨by rw [hown]; rfl, b, env, ⟨.here b, by rw [hown]; rfl⟩, (henv b).trans he, hn.symm⟩
      · rw [if_neg fun hc => hn hc.1] at hown
        rw [hown]
        obtain ⟨scope, outer⟩ := env
        cases hold : own? h name b with
        | some old => exact .inl rfl
        | none =>
          cases outer with
          | none => exact .inl rfl
          | some b' =>
            rcases ih b' with hsame | ⟨hvalue, c, env, ⟨hclear, hbound⟩, hc, hnames⟩
            · exact .inl hsame
            · have hstep := Clear.outer ((henv b).trans he) (hown.trans hold) hclear
              exact .inr ⟨hvalue, c, env, ⟨hstep, hbound⟩, hc, hnames⟩

theorem sets_withProperty (ho : h.slot? names = some ⟨mark, born, .object o⟩) :
    h.Sets names name value (h.withProperty names mark born o name value) where
  books := ⟨rfl, Array.size_setIfInBounds⟩
  cells b hb := by
    rw [withProperty, slot?_setSlot, if_neg]
    rintro ⟨rfl, -⟩
    exact hb rfl
  object := by
    refine ⟨o, _, object?_of_slot? ho rfl, (object?_withProperty ho names).trans (if_pos rfl), rfl,
      rfl, fun other => ?_, PropertyMap.names_insert name value o.properties⟩
    simp only [PropertyMap.get?_insert, eq_comm (a := other)]
  others b other hne := lookupWithin_withProperty_of_ne ho hne h.chainLimit b
  named b := lookupWithin_withProperty ho rfl h.chainLimit b

theorem Clear.withProperty (hclear : h.Clear name a c) (ho : h.slot? names = some ⟨mark, born, .object o⟩)
    {env : Environment} (hc : h.environment? c = some env) (hnames : env.names = names) (value : Value) :
    ∃ c', (h.withProperty names mark born o name value).Clear name a c' ∧
      own? (h.withProperty names mark born o name value) name c' = some value := by
  induction hclear with
  | here c => exact ⟨c, .here c, (own?_withProperty ho name hc).trans (if_pos ⟨hnames.symm, rfl⟩)⟩
  | @outer a b c scope he hnone _ ih =>
    have hown : own? (h.withProperty names mark born o name value) name a = _ := own?_withProperty ho name he
    by_cases hn : names = scope
    · exact ⟨a, .here a, hown.trans (if_pos ⟨hn, rfl⟩)⟩
    · rw [if_neg fun hboth => hn hboth.1, hnone] at hown
      obtain ⟨c', hclear', hc'⟩ := ih hc
      exact ⟨c', .outer ((environment?_withProperty ho a).trans he) hown hclear', hc'⟩

theorem Clear.define (hclear : h.Clear name a c) (hm : h.Made n) (hp : h.Outwards last a path) {env : Environment}
    (hc : h.environment? c = some env) (ho : h.object? env.names = some o) (value : Value) :
    ∃ h', define h c name value = .ok h' ∧ h.Sets env.names name value h' ∧ lookup h' a name = some value := by
  obtain ⟨⟨mark, born, _⟩, hs, rfl⟩ := slot?_of_cell? (object?_eq_some.mp ho)
  refine ⟨h.withProperty env.names mark born o name value, ?_, sets_withProperty hs, ?_⟩
  · rw [Environment.define, bind_eq_ok]
    refine ⟨env.names, by rw [bindings, hc], ?_⟩
    simp only [insertProperty?, hs]
    rfl
  · obtain ⟨c', hclear', hown⟩ := hclear.withProperty hs hc rfl value
    exact hclear'.lookup_eq hown (hp.withProperty hs) (hm.change _ hs)

theorem Sets.keeps {h' : Heap} (hw : h.Sets names name value h')
    (hnew : (h.object? names).bind (·.properties.get? name) = none) (ho : h.object? a = some o) :
    ∃ o', h'.object? a = some o' ∧ ∀ other v, o.properties.get? other = some v → o'.properties.get? other = some v := by
  by_cases ha : a = names
  · obtain ⟨before, after, hbefore, hafter, -, -, hvalues, -⟩ := hw.object
    rw [ha, hbefore] at ho
    obtain rfl := Option.some.inj ho
    refine ⟨after, ha ▸ hafter, fun other v hv => ?_⟩
    rw [hvalues, if_neg, hv]
    rintro rfl
    rw [hbefore, Option.bind_some, hv] at hnew
    cases hnew
  · refine ⟨o, ?_, fun _ _ hv => hv⟩
    rw [← ho, object?, object?, cell?, cell?, hw.cells a ha]

end Writing

end Heap

namespace Environment

open Heap

variable {h : Heap} {n : Nat} {last env : Handle} {path : List (Handle × Nat)} {name : String}

theorem own?_eq_none_of_lookup (hm : h.Made n) (hp : h.Outwards last env path) (hl : lookup h env name = none) :
    ∀ p ∈ path, own? h name p.1 = none := by
  rw [lookup, lookupWithin_eq hp (hp.within hm)] at hl
  exact List.findSome?_eq_none_iff.mp hl

theorem exists_names_of_own? {c : Handle} {old : Value} (hown : own? h name c = some old) :
    ∃ scope o, h.environment? c = some scope ∧ h.object? scope.names = some o := by
  obtain ⟨scope, hscope, hbound⟩ := Option.bind_eq_some_iff.mp hown
  obtain ⟨o, ho, -⟩ := Option.bind_eq_some_iff.mp hbound
  exact ⟨scope, o, hscope, ho⟩

theorem assign_bound (hm : h.Made n) (hp : h.Outwards last env path) {old : Value} (hl : lookup h env name = some old)
    (value : Value) (strict : Bool) :
    ∃ c scope h', h.Resolves name env c ∧ own? h name c = some old ∧ h.environment? c = some scope ∧
      assign h env name value strict = .ok h' ∧ h.Sets scope.names name value h' ∧ lookup h' env name = some value := by
  rw [lookup, lookupWithin_eq hp (hp.within hm)] at hl
  rcases hp.resolve name with ⟨c, old', hclear, hown, hsome, hfind⟩ | ⟨-, hnone⟩
  · obtain rfl := Option.some.inj (hl.symm.trans hsome)
    obtain ⟨scope, o, hscope, ho⟩ := exists_names_of_own? hown
    obtain ⟨h', hdefine, hsets, hlookup⟩ := hclear.define hm hp hscope ho value
    refine ⟨c, scope, h', ⟨hclear, by rw [hown]; rfl⟩, hown, hscope, ?_, hsets, hlookup⟩
    obtain ⟨p, hfound, rfl⟩ := Option.map_eq_some_iff.mp hfind
    simp only [assign, binderWithin_eq hp (hp.within hm), hfound]
    exact hdefine
  · rw [List.findSome?_eq_none_iff.mpr hnone] at hl
    cases hl

theorem assign_free (hm : h.Made n) (hs : h.Stands last env path) (hl : lookup h env name = none) (value : Value) :
    assign h env name value true = .error (.undeclared name) ∧
    ∃ scope h', h.environment? last = some scope ∧ scope.outer = none ∧ own? h name last = none ∧
      assign h env name value false = .ok h' ∧ h.Sets scope.names name value h' ∧ lookup h' env name = some value := by
  have hnone := own?_eq_none_of_lookup hm hs.way hl
  have hfind : path.find? (fun p => (own? h name p.1).isSome) = none := by
    rw [List.find?_eq_none]
    intro p hmem
    simp [hnone p hmem]
  have hclear : h.Clear name env last := by
    rcases hs.way.resolve name with ⟨c, old, -, -, hsome, -⟩ | ⟨hclear, -⟩
    · rw [List.findSome?_eq_none_iff.mpr hnone] at hsome
      cases hsome
    · exact hclear
  obtain ⟨mark, born, names, hlast⟩ := hs.way.ends
  have hscope : h.environment? last = some ⟨names, none⟩ := environment?_of_slot hlast rfl
  obtain ⟨_, hmem⟩ := mem_last hs.way
  obtain ⟨scope, o, hscope', ho⟩ := hs.names _ hmem
  obtain rfl := Option.some.inj (hscope.symm.trans hscope')
  obtain ⟨h', hdefine, hsets, hlookup⟩ := hclear.define hm hs.way hscope ho value
  constructor
  · simp only [assign, binderWithin_eq hs.way (hs.way.within hm), hfind]
    rfl
  · refine ⟨_, h', hscope, rfl, hnone _ hmem, ?_, hsets, hlookup⟩
    simp only [assign, binderWithin_eq hs.way (hs.way.within hm), hfind]
    exact hdefine

theorem exists_names_of_stands (hs : h.Stands last env path) :
    ∃ scope o, h.environment? env = some scope ∧ h.object? scope.names = some o := by
  cases hs.way with
  | last _ => exact hs.names _ (.head _)
  | outer _ _ => exact hs.names _ (.head _)

theorem declare_eq {scope : Environment} (he : h.environment? env = some scope) :
    declare h env name = if (own? h name env).isSome then .ok h else define h env name .undefined := by
  simp only [declare, hasOwn_eq he]
  cases (own? h name env).isSome <;> rfl

theorem declare_keeps (hm : h.Made n) (hs : h.Stands last env path) (name : String) :
    ∃ scope h', h.environment? env = some scope ∧ declare h env name = .ok h' ∧
      ((own? h name env).isSome = true → h' = h) ∧
      (own? h name env = none → h.Sets scope.names name .undefined h') ∧
      lookup h' env name = some ((own? h name env).getD .undefined) ∧
      ∀ a o, h.object? a = some o → ∃ o', h'.object? a = some o' ∧
        ∀ other v, o.properties.get? other = some v → o'.properties.get? other = some v := by
  obtain ⟨scope, o, hscope, ho⟩ := exists_names_of_stands hs
  rw [declare_eq hscope]
  cases hown : own? h name env with
  | some old =>
    refine ⟨scope, h, hscope, rfl, fun _ => rfl, ?_, (Clear.here env).lookup_eq hown hs.way hm,
      fun a o ho => ⟨o, ho, fun _ _ hv => hv⟩⟩
    intro hnone
    cases hnone
  | none =>
    obtain ⟨h', hdefine, hsets, hlookup⟩ := (Clear.here env).define hm hs.way hscope ho .undefined
    refine ⟨scope, h', hscope, hdefine, ?_, fun _ => hsets, hlookup, fun a o => hsets.keeps ?_⟩
    · intro hsome
      cases hsome
    · rw [own?, hscope] at hown
      exact hown

/-- In every heap that can be made, an assignment sets the property that a lookup finds. Where a lookup finds
none, strict code is refused and everything stays as it is, and sloppy code gets a new property of the object
of the last scope. To define or to declare a name sets a property of the object of the scope itself, but what
is bound is not declared anew. In each case no other cell, no other property and no lookup changes that does
not lead to this property. -/
theorem assignment_agrees (hm : h.Made n) (hs : h.Stands last env path) (name : String) (value : Value) :
    (∀ old, lookup h env name = some old → ∀ strict, ∃ c scope h', h.Resolves name env c ∧ own? h name c = some old ∧
      h.environment? c = some scope ∧ assign h env name value strict = .ok h' ∧
      h.Sets scope.names name value h' ∧ lookup h' env name = some value) ∧
    (lookup h env name = none →
      assign h env name value true = .error (.undeclared name) ∧
      (∀ e : Engine, e.heap = h →
        EngineM.change (assign · env name value true) e = .error (.fault (.undeclared name)) e) ∧
      ∃ scope h', h.environment? last = some scope ∧ scope.outer = none ∧ own? h name last = none ∧
        assign h env name value false = .ok h' ∧ h.Sets scope.names name value h' ∧
        lookup h' env name = some value) ∧
    (∃ scope h', h.environment? env = some scope ∧ define h env name value = .ok h' ∧
      h.Sets scope.names name value h' ∧ lookup h' env name = some value) ∧
    (∃ scope h', h.environment? env = some scope ∧ declare h env name = .ok h' ∧
      ((own? h name env).isSome = true → h' = h) ∧
      (own? h name env = none → h.Sets scope.names name .undefined h') ∧
      lookup h' env name = some ((own? h name env).getD .undefined) ∧
      ∀ a o, h.object? a = some o → ∃ o', h'.object? a = some o' ∧
        ∀ other v, o.properties.get? other = some v → o'.properties.get? other = some v) := by
  refine ⟨fun old hl => assign_bound hm hs.way hl value, fun hl => ?_, ?_, declare_keeps hm hs name⟩
  · obtain ⟨hstrict, hsloppy⟩ := assign_free hm hs hl value
    refine ⟨hstrict, ?_, hsloppy⟩
    rintro e rfl
    rw [Engine.change_eq, hstrict]
  · obtain ⟨scope, o, hscope, ho⟩ := exists_names_of_stands hs
    obtain ⟨h', hdefine, hsets, hlookup⟩ := (Clear.here env).define hm hs.way hscope ho value
    exact ⟨scope, h', hscope, hdefine, hsets, hlookup⟩

def shared : Heap :=
  let h := (Heap.empty.alloc (.object (.of .plain))).2
  let h := (h.alloc (.environment ⟨⟨0⟩, none⟩)).2
  let h := (h.alloc (.object ⟨.plain, none, [("x", .null)]⟩)).2
  let h := (h.alloc (.environment ⟨⟨2⟩, some ⟨1⟩⟩)).2
  (h.alloc (.environment ⟨⟨0⟩, some ⟨3⟩⟩)).2

theorem shared_stands : shared.Stands ⟨1⟩ ⟨4⟩ [(⟨4⟩, 4), (⟨3⟩, 3), (⟨1⟩, 1)] where
  way := .outer rfl (.outer rfl (.last rfl))
  names := by
    intro p hp
    simp only [List.mem_cons, List.not_mem_nil, or_false] at hp
    rcases hp with rfl | rfl | rfl
    · exact ⟨_, _, rfl, rfl⟩
    · exact ⟨_, _, rfl, rfl⟩
    · exact ⟨_, _, rfl, rfl⟩

theorem assignment_agrees_of_shared :
    shared.Made 0 ∧ (∀ strict, ∃ h', assign shared ⟨4⟩ "x" (.boolean true) strict = .ok h' ∧
      lookup h' ⟨4⟩ "x" = some (.boolean true) ∧ lookup h' ⟨3⟩ "y" = none) ∧
    assign shared ⟨4⟩ "y" (.boolean true) true = .error (.undeclared "y") ∧
    ∃ h', assign shared ⟨4⟩ "y" (.boolean true) false = .ok h' ∧ lookup h' ⟨4⟩ "y" = some (.boolean true) ∧
      lookup h' ⟨3⟩ "x" = some .null := by
  have hm : shared.Made 0 := .alloc _ (.alloc _ (.alloc _ (.alloc _ (.alloc _ .empty))))
  obtain ⟨hbound, -, -, -⟩ := assignment_agrees hm shared_stands "x" (.boolean true)
  obtain ⟨-, hfree, -, -⟩ := assignment_agrees hm shared_stands "y" (.boolean true)
  obtain ⟨hstrict, -, scope, h', -, -, -, hsloppy, hsets, hlookup⟩ := hfree rfl
  refine ⟨hm, fun strict => ?_, hstrict, h', hsloppy, hlookup, ?_⟩
  · obtain ⟨c, scope, h', -, -, -, hassign, hsets, hlookup⟩ := hbound .null rfl strict
    exact ⟨h', hassign, hlookup, (hsets.others ⟨3⟩ "y" (by decide)).trans rfl⟩
  · exact (hsets.others ⟨3⟩ "x" (by decide)).trans rfl

end Environment

end ScriptEngine
