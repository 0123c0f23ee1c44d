import Mathlib.Data.List.Forall2
import ScriptEngine.Heap.Operator
import ScriptEngine.Proofs.Heap.Upkeep

/-!
Two heaps that hold the same graph under different handles. A renaming pairs the handles of objects
and of environments one to one; cells that are not paired may hold anything. What can be read
through paired handles is the same on both sides, what is made or written on both sides stays alike,
and a collection on one side keeps the pairs that its roots reach.
-/

namespace ScriptEngine

structure Renaming where
  object : Handle → Handle → Prop
  scope : Handle → Handle → Prop

namespace Renaming

structure Extends (ρ ρ' : Renaming) : Prop where
  object : ∀ {a b : Handle}, ρ.object a b → ρ'.object a b
  scope : ∀ {a b : Handle}, ρ.scope a b → ρ'.scope a b

theorem Extends.refl (ρ : Renaming) : ρ.Extends ρ := ⟨id, id⟩

theorem Extends.trans {ρ ρ' ρ'' : Renaming} (h : ρ.Extends ρ') (h' : ρ'.Extends ρ'') : ρ.Extends ρ'' :=
  ⟨fun ha => h'.object (h.object ha), fun ha => h'.scope (h.scope ha)⟩

structure OneToOne (ρ : Renaming) : Prop where
  object : ∀ {a b a' b' : Handle}, ρ.object a a' → ρ.object b b' → (a = b ↔ a' = b')
  scope : ∀ {a b a' b' : Handle}, ρ.scope a a' → ρ.scope b b' → (a = b ↔ a' = b')

def flip (ρ : Renaming) : Renaming :=
  ⟨fun a b => ρ.object b a, fun a b => ρ.scope b a⟩

def withObject (ρ : Renaming) (a a' : Handle) : Renaming :=
  { ρ with object := fun b b' => ρ.object b b' ∨ b = a ∧ b' = a' }

def withScope (ρ : Renaming) (a a' : Handle) : Renaming :=
  { ρ with scope := fun b b' => ρ.scope b b' ∨ b = a ∧ b' = a' }

def restrict (ρ : Renaming) (p : Handle → Prop) : Renaming :=
  ⟨fun a b => ρ.object a b ∧ p b, fun a b => ρ.scope a b ∧ p b⟩

theorem OneToOne.flip {ρ : Renaming} (h : ρ.OneToOne) : ρ.flip.OneToOne :=
  ⟨fun ha hb => (h.object ha hb).symm, fun ha hb => (h.scope ha hb).symm⟩

theorem OneToOne.restrict {ρ : Renaming} (h : ρ.OneToOne) (p : Handle → Prop) : (ρ.restrict p).OneToOne :=
  ⟨fun ha hb => h.object ha.1 hb.1, fun ha hb => h.scope ha.1 hb.1⟩

theorem single_or {r : Handle → Handle → Prop} {a a' : Handle}
    (h : ∀ {b c b' c'}, r b b' → r c c' → (b = c ↔ b' = c')) (ha : ∀ b', ¬ r a b') (ha' : ∀ b, ¬ r b a')
    {b c b' c' : Handle} (hb : r b b' ∨ b = a ∧ b' = a') (hc : r c c' ∨ c = a ∧ c' = a') : b = c ↔ b' = c' := by
  rcases hb with hb | ⟨rfl, rfl⟩ <;> rcases hc with hc | ⟨rfl, rfl⟩
  · exact h hb hc
  · constructor
    · rintro rfl
      exact absurd hb (ha b')
    · rintro rfl
      exact absurd hb (ha' b)
  · constructor
    · rintro rfl
      exact absurd hc (ha c')
    · rintro rfl
      exact absurd hc (ha' c)
  · simp

end Renaming

inductive Value.Alike (ρ : Renaming) : Value → Value → Prop
  | plain {v : Value} : v.handle? = none → Alike ρ v v
  | object {a b : Handle} : ρ.object a b → Alike ρ (.object a) (.object b)

inductive ObjectClass.Alike (ρ : Renaming) : ObjectClass → ObjectClass → Prop
  | plain : Alike ρ .plain .plain
  | error : Alike ρ .error .error
  | native (f : Builtin) : Alike ρ (.native f) (.native f)
  | closure (u : CodeUnit) {env env' : Handle} : ρ.scope env env' → Alike ρ (.closure u env) (.closure u env')

def PropertyMap.Alike (ρ : Renaming) (m m' : PropertyMap Value) : Prop :=
  List.Forall₂ (fun p q => p.1 = q.1 ∧ p.2.Alike ρ q.2) m m'

structure Object.Alike (ρ : Renaming) (o o' : Object) : Prop where
  kind : o.kind.Alike ρ o'.kind
  parent : o.parent = none ∧ o'.parent = none
  properties : PropertyMap.Alike ρ o.properties o'.properties

structure Environment.Alike (ρ : Renaming) (e e' : Environment) : Prop where
  names : ρ.object e.names e'.names
  outer : Option.Rel ρ.scope e.outer e'.outer

structure Heap.Mirrors (ρ : Renaming) (h h' : Heap) : Prop where
  single : ρ.OneToOne
  object : ∀ {a a' : Handle}, ρ.object a a' → ∃ o o', h.object? a = some o ∧ h'.object? a' = some o' ∧ o.Alike ρ o'
  scope : ∀ {a a' : Handle}, ρ.scope a a' →
    ∃ e e', h.environment? a = some e ∧ h'.environment? a' = some e' ∧ e.Alike ρ e'

/-- Two heaps with the same history but for collections: the second has made as many as the first or
more, and can make `k` more before their numbers start over. -/
structure Heap.Alike (k : Nat) (ρ : Renaming) (h h' : Heap) : Prop where
  born : h.born = h'.born
  tidy : h.Tidy ∧ h'.Tidy
  numbers : ∃ n n', n ≤ n' ∧ h.Dated n ∧ h'.Dated n' ∧ n' + k + 1 < 2 ^ 32
  graph : h.Mirrors ρ h'

inductive Environment.Binder.Alike (ρ : Renaming) : Environment.Binder → Environment.Binder → Prop
  | bound {env env' : Handle} : ρ.scope env env' → Alike ρ (.bound env) (.bound env')
  | outermost {env env' : Handle} : ρ.scope env env' → Alike ρ (.outermost env) (.outermost env')

def Fault.isStale : Fault → Bool
  | .notLive _ => true
  | _ => false

inductive Agree {α β : Type} (V : α → β → Prop) : Except Fault α → Except Fault β → Prop
  | ok {a : α} {b : β} : V a b → Agree V (.ok a) (.ok b)
  | error {f : Fault} : f.isStale = false → Agree V (.error f) (.error f)

theorem Agree.bind {α β γ δ : Type} {V : α → β → Prop} {W : γ → δ → Prop} {x : Except Fault α} {y : Except Fault β}
    {f : α → Except Fault γ} {g : β → Except Fault δ} (h : Agree V x y) (hf : ∀ a b, V a b → Agree W (f a) (g b)) :
    Agree W (x >>= f) (y >>= g) := by
  cases h with
  | ok hv => exact hf _ _ hv
  | error hs => exact .error hs

section Values

variable {ρ ρ' : Renaming} {v w v' w' : Value}

theorem Value.Alike.mono (h : v.Alike ρ v') (hρ : ρ.Extends ρ') : v.Alike ρ' v' := by
  cases h with
  | plain hv => exact .plain hv
  | object ha => exact .object (hρ.object ha)

theorem Value.Alike.symm (h : v.Alike ρ v') : v'.Alike ρ.flip v := by
  cases h with
  | plain hv => exact .plain hv
  | object ha => exact .object ha

theorem ObjectClass.Alike.mono {k k' : ObjectClass} (h : k.Alike ρ k') (hρ : ρ.Extends ρ') : k.Alike ρ' k' := by
  cases h with
  | plain => exact .plain
  | error => exact .error
  | native f => exact .native f
  | closure u he => exact .closure u (hρ.scope he)

theorem ObjectClass.Alike.symm {k k' : ObjectClass} (h : k.Alike ρ k') : k'.Alike ρ.flip k := by
  cases h with
  | plain => exact .plain
  | error => exact .error
  | native f => exact .native f
  | closure u he => exact .closure u he

theorem Object.Alike.mono {o o' : Object} (h : o.Alike ρ o') (hρ : ρ.Extends ρ') : o.Alike ρ' o' :=
  ⟨h.kind.mono hρ, h.parent, h.properties.imp fun _ _ hp => ⟨hp.1, hp.2.mono hρ⟩⟩

theorem Object.Alike.symm {o o' : Object} (h : o.Alike ρ o') : o'.Alike ρ.flip o :=
  ⟨h.kind.symm, h.parent.symm, (h.properties.imp fun _ _ hp => ⟨hp.1.symm, hp.2.symm⟩).flip⟩

theorem rel_imp {α β : Type} {r r' : α → β → Prop} {x : Option α} {y : Option β} (h : Option.Rel r x y)
    (hr : ∀ a b, r a b → r' a b) : Option.Rel r' x y := by
  cases h with
  | some hab => exact .some (hr _ _ hab)
  | none => exact .none

theorem Environment.Alike.mono {e e' : Environment} (h : e.Alike ρ e') (hρ : ρ.Extends ρ') : e.Alike ρ' e' :=
  ⟨hρ.object h.names, rel_imp h.outer fun _ _ => hρ.scope⟩

theorem Environment.Alike.symm {e e' : Environment} (h : e.Alike ρ e') : e'.Alike ρ.flip e := by
  refine ⟨h.names, ?_⟩
  obtain ⟨_, outer⟩ := e
  obtain ⟨_, outer'⟩ := e'
  cases h.outer with
  | some ho => exact .some ho
  | none => exact .none

theorem Heap.Mirrors.symm {h h' : Heap} (hh : h.Mirrors ρ h') : h'.Mirrors ρ.flip h := by
  refine ⟨hh.single.flip, ?_, ?_⟩
  · intro a a' ha
    obtain ⟨o, o', ho, ho', hoo⟩ := hh.object ha
    exact ⟨o', o, ho', ho, hoo.symm⟩
  · intro a a' ha
    obtain ⟨e, e', he, he', hee⟩ := hh.scope ha
    exact ⟨e', e, he', he, hee.symm⟩

theorem Value.Alike.truthy (h : v.Alike ρ v') : v.truthy = v'.truthy := by
  cases h <;> rfl

theorem Value.Alike.toNumber (h : v.Alike ρ v') : v.toNumber = v'.toNumber := by
  cases h <;> rfl

theorem Value.Alike.isNullish (h : v.Alike ρ v') : v.isNullish = v'.isNullish := by
  cases h <;> rfl

theorem Value.Alike.isTextual (h : v.Alike ρ v') : v.isTextual = v'.isTextual := by
  cases h <;> rfl

theorem Value.Alike.compare? (h : v.Alike ρ v') (hw : w.Alike ρ w') : v.compare? w = v'.compare? w' := by
  cases h with
  | plain hv => cases hw with
    | plain => rfl
    | object => cases v <;> rfl
  | object => cases hw with
    | plain => rfl
    | object => rfl

theorem beq_handles (hρ : ρ.OneToOne) {a b a' b' : Handle} (ha : ρ.object a a') (hb : ρ.object b b') :
    (a == b) = (a' == b') := by
  rw [Bool.eq_iff_iff, beq_iff_eq, beq_iff_eq]
  exact hρ.object ha hb

theorem Value.Alike.strictEquals (hρ : ρ.OneToOne) (h : v.Alike ρ v') (hw : w.Alike ρ w') :
    v.strictEquals w = v'.strictEquals w' := by
  cases h with
  | plain hv => cases hw with
    | plain => rfl
    | object => cases v <;> first | rfl | cases hv
  | object ha => cases hw with
    | plain hv => cases w <;> first | rfl | cases hv
    | object hb => exact beq_handles hρ ha hb

theorem Value.Alike.looseEquals (hρ : ρ.OneToOne) (h : v.Alike ρ v') (hw : w.Alike ρ w') :
    v.looseEquals w = v'.looseEquals w' := by
  cases h with
  | plain hv => cases hw with
    | plain => rfl
    | object => cases v <;> first | rfl | cases hv
  | object ha => cases hw with
    | plain hv => cases w <;> first | rfl | cases hv
    | object hb => exact beq_handles hρ ha hb

end Values

namespace Heap

variable {h : Heap} {a : Handle}

theorem object?_eq_some {o : Object} : h.object? a = some o ↔ h.cell? a = some (.object o) := by
  simp only [object?]
  split <;> simp_all

theorem environment?_eq_some {e : Environment} : h.environment? a = some e ↔ h.cell? a = some (.environment e) := by
  simp only [environment?]
  split <;> simp_all

theorem slot?_of_cell? {cell : Cell} (hc : h.cell? a = some cell) : ∃ s, h.slot? a = some s ∧ s.cell = cell :=
  Option.map_eq_some_iff.mp hc

theorem cell?_setSlot {r s : Slot} (hr : h.slot? a = some r) (b : Handle) :
    (h.setSlot a s).cell? b = if a = b then some s.cell else h.cell? b := by
  simp only [cell?, slot?_setSlot]
  by_cases hab : a = b
  · subst hab
    simp [index_lt_of_slot? hr]
  · simp [hab]

theorem cell?_alloc_new (ht : h.Tidy) (cell : Cell) : (h.alloc cell).2.cell? (h.alloc cell).1 = some cell := by
  rw [cell?, slot?_alloc_new ht]
  rfl

theorem cell?_alloc_of_live (ht : h.Tidy) (cell : Cell) {c : Cell} (hc : h.cell? a = some c) :
    (h.alloc cell).2.cell? a = some c := by
  obtain ⟨s, hs, rfl⟩ := slot?_of_cell? hc
  rw [cell?, slot?_alloc_of_live ht cell hs]
  rfl

theorem cell?_alloc_before (ht : h.Tidy) (cell : Cell) : h.cell? (h.alloc cell).1 = none := by
  cases hf : h.free with
  | nil => simp [cell?, slot?, alloc, hf]
  | cons i free =>
    have hi : h.slots[i]? = some none := (ht.empty i).mp (by rw [hf]; exact .head _)
    simp [cell?, slot?, alloc, hf, hi]

def readText (h : Heap) (n : Nat) : Except Fault Value → Option String
  | .ok .undefined | .error _ => none
  | .ok value => some (h.displayWithin n value)

end Heap

namespace PropertyMap.Alike

variable {ρ : Renaming} {m m' : PropertyMap Value}

theorem get? (h : PropertyMap.Alike ρ m m') (name : String) :
    Option.Rel (Value.Alike ρ) (PropertyMap.get? name m) (PropertyMap.get? name m') := by
  induction h with
  | nil => exact .none
  | @cons p q m m' hp _ ih =>
    obtain ⟨n, v⟩ := p
    obtain ⟨n', v'⟩ := q
    obtain ⟨rfl, hv⟩ := hp
    simp only [PropertyMap.get?]
    split
    · exact .some hv
    · exact ih

theorem has (h : PropertyMap.Alike ρ m m') (name : String) : PropertyMap.has name m = PropertyMap.has name m' := by
  have hg := h.get? name
  simp only [PropertyMap.has]
  generalize PropertyMap.get? name m = found at hg ⊢
  generalize PropertyMap.get? name m' = found' at hg ⊢
  cases hg <;> rfl

theorem insert {v v' : Value} (h : PropertyMap.Alike ρ m m') (name : String) (hv : v.Alike ρ v') :
    PropertyMap.Alike ρ (PropertyMap.insert name v m) (PropertyMap.insert name v' m') := by
  induction h with
  | nil => exact .cons ⟨rfl, hv⟩ .nil
  | @cons p q m m' hp hm ih =>
    obtain ⟨n, w⟩ := p
    obtain ⟨n', w'⟩ := q
    obtain ⟨rfl, hw⟩ := hp
    simp only [PropertyMap.insert]
    split
    · exact .cons ⟨rfl, hv⟩ hm
    · exact .cons ⟨rfl, hw⟩ ih

end PropertyMap.Alike

namespace Heap.Alike

variable {k : Nat} {ρ : Renaming} {h h' : Heap} {a a' : Handle} {v v' w w' : Value}

section Reading

theorem findProperty (hh : h.Alike k ρ h') (ha : ρ.object a a') (name : String) (n : Nat) :
    Option.Rel (Value.Alike ρ) (h.findProperty name n a) (h'.findProperty name n a') := by
  cases n with
  | zero => exact .none
  | succ n =>
    obtain ⟨o, o', ho, ho', hoo⟩ := hh.graph.object ha
    simp only [Heap.findProperty, ho, ho', hoo.parent.1, hoo.parent.2]
    have hg := hoo.properties.get? name
    cases hv : o.properties.get? name <;> cases hv' : o'.properties.get? name <;> rw [hv, hv'] at hg
    · exact .none
    · cases hg
    · cases hg
    · exact hg

theorem getProperty (hh : h.Alike k ρ h') (hv : v.Alike ρ v') (name : String) :
    Agree (Value.Alike ρ) (h.getProperty v name) (h'.getProperty v' name) := by
  cases hv with
  | plain hv =>
    cases v with
    | object a => cases hv
    | string t =>
      refine .ok ?_
      split <;> exact .plain rfl
    | boolean | number => exact .ok (.plain rfl)
    | undefined | null => exact .error rfl
  | object ha =>
    have hf := hh.findProperty ha name h.chainLimit
    have hlimit : h'.chainLimit = h.chainLimit := by simp only [chainLimit, hh.born]
    refine .ok ?_
    rw [hlimit]
    generalize h.findProperty name h.chainLimit _ = found at hf
    generalize h'.findProperty name h.chainLimit _ = found' at hf
    cases hf with
    | some hvv => exact hvv
    | none => exact .plain rfl

theorem isCallable (hh : h.Alike k ρ h') (hv : v.Alike ρ v') : h.isCallable v = h'.isCallable v' := by
  cases hv with
  | plain hv => simp [Heap.isCallable, hv]
  | object ha =>
    obtain ⟨o, o', ho, ho', hoo⟩ := hh.graph.object ha
    simp only [Heap.isCallable, Value.handle?, Option.bind_some, ho, ho', Option.any_some, Object.isCallable]
    obtain ⟨kind, _, _⟩ := o
    obtain ⟨kind', _, _⟩ := o'
    cases hoo.kind <;> rfl

theorem typeOf (hh : h.Alike k ρ h') (hv : v.Alike ρ v') : h.typeOf v = h'.typeOf v' := by
  have hc := hh.isCallable hv
  cases hv with
  | plain hv => cases v <;> first | rfl | cases hv
  | object ha => simp only [Heap.typeOf, hc]

theorem displayWithin (hh : h.Alike k ρ h') (hv : v.Alike ρ v') (n : Nat) : h.displayWithin n v = h'.displayWithin n v' := by
  induction n generalizing v v' with
  | zero => cases hv <;> rfl
  | succ n ih =>
    cases hv with
    | plain hv => cases v <;> first | rfl | cases hv
    | @object a a' ha =>
      obtain ⟨o, o', ho, ho', hoo⟩ := hh.graph.object ha
      have hpart (name : String) :
          h.readText n (h.getProperty (.object a) name) = h'.readText n (h'.getProperty (.object a') name) := by
        have hg := hh.getProperty (.object ha) name
        generalize h.getProperty (.object a) name = read at hg
        generalize h'.getProperty (.object a') name = read' at hg
        cases hg with
        | error => rfl
        | @ok v v' hvv =>
          have ht := ih hvv
          cases hvv with
          | plain hv => cases v <;> first | rfl | simp only [readText, ht]
          | object => simp only [readText, ht]
      have hkind := hoo.kind
      obtain ⟨kind, _, _⟩ := o
      obtain ⟨kind', _, _⟩ := o'
      simp only [Heap.displayWithin, ho, ho']
      cases hkind with
      | plain => rfl
      | error =>
        exact congrArg₂ (fun name message : Option String =>
          if (message.getD "").isEmpty then name.getD "Error" else name.getD "Error" ++ ": " ++ message.getD "")
          (hpart "name") (hpart "message")
      | native f => rfl
      | closure u he => rfl

theorem display (hh : h.Alike k ρ h') (hv : v.Alike ρ v') : h.display v = h'.display v' := by
  have hlimit : h'.chainLimit = h.chainLimit := by simp only [chainLimit, hh.born]
  rw [Heap.display, Heap.display, hlimit]
  exact hh.displayWithin hv _

theorem binary (hh : h.Alike k ρ h') (op : BinaryOp) (hv : v.Alike ρ v') (hw : w.Alike ρ w') :
    (h.binary op v w).Alike ρ (h'.binary op v' w') := by
  have hadd : (h.add v w).Alike ρ (h'.add v' w') := by
    simp only [Heap.add, hv.isTextual, hw.isTextual, hh.display hv, hh.display hw, hv.toNumber, hw.toNumber]
    split <;> exact .plain rfl
  cases op <;> simp only [Heap.binary, hv.toNumber, hw.toNumber, hv.looseEquals hh.graph.single hw,
    hv.strictEquals hh.graph.single hw, hv.compare? hw]
  case add => exact hadd
  all_goals exact .plain rfl

end Reading

section Scopes

variable {env env' : Handle}

theorem bindings (hh : h.Alike k ρ h') (he : ρ.scope env env') :
    Agree ρ.object (Environment.bindings h env) (Environment.bindings h' env') := by
  obtain ⟨e, e', hs, hs', hee⟩ := hh.graph.scope he
  simp only [Environment.bindings, hs, hs']
  exact .ok hee.names

theorem hasOwn (hh : h.Alike k ρ h') (he : ρ.scope env env') (name : String) :
    Agree Eq (Environment.hasOwn h env name) (Environment.hasOwn h' env' name) := by
  refine (hh.bindings he).bind fun a a' ha => .ok ?_
  obtain ⟨o, o', ho, ho', hoo⟩ := hh.graph.object ha
  simp only [ho, ho', Option.any_some, hoo.properties.has name]

theorem lookupWithin (hh : h.Alike k ρ h') (he : ρ.scope env env') (name : String) (n : Nat) :
    Option.Rel (Value.Alike ρ) (Environment.lookupWithin h name n env) (Environment.lookupWithin h' name n env') := by
  induction n generalizing env env' with
  | zero => exact .none
  | succ n ih =>
    obtain ⟨⟨names, outer⟩, ⟨names', outer'⟩, hs, hs', hnames, houter⟩ := hh.graph.scope he
    obtain ⟨o, o', ho, ho', hoo⟩ := hh.graph.object hnames
    have hg := hoo.properties.get? name
    simp only [Environment.lookupWithin, hs, hs', ho, ho', Option.bind_some]
    generalize PropertyMap.get? name o.properties = found at hg ⊢
    generalize PropertyMap.get? name o'.properties = found' at hg ⊢
    cases hg with
    | some hv => exact .some hv
    | none => cases houter with
      | none => exact .none
      | some hout => exact ih hout

theorem get (hh : h.Alike k ρ h') (he : ρ.scope env env') (name : String) :
    Agree (Value.Alike ρ) (Environment.get h env name) (Environment.get h' env' name) := by
  have hlimit : h'.chainLimit = h.chainLimit := by simp only [chainLimit, hh.born]
  have hl := hh.lookupWithin he name h.chainLimit
  simp only [Environment.get, Environment.lookup, hlimit]
  generalize Environment.lookupWithin h name h.chainLimit env = found at hl ⊢
  generalize Environment.lookupWithin h' name h.chainLimit env' = found' at hl ⊢
  cases hl with
  | some hv => exact .ok hv
  | none => exact .error rfl

theorem binderWithin (hh : h.Alike k ρ h') (he : ρ.scope env env') (name : String) (n : Nat) :
    Agree (Environment.Binder.Alike ρ) (Environment.binderWithin h name n env)
      (Environment.binderWithin h' name n env') := by
  induction n generalizing env env' with
  | zero => exact .ok (.outermost he)
  | succ n ih =>
    refine (hh.hasOwn he name).bind fun own _ heq => ?_
    subst heq
    split
    · exact .ok (.bound he)
    · obtain ⟨⟨names, outer⟩, ⟨names', outer'⟩, hs, hs', -, houter⟩ := hh.graph.scope he
      simp only [hs, hs', Option.bind_some]
      cases houter with
      | none => exact .ok (.outermost he)
      | some hout => exact ih hout

end Scopes

section Writing

theorem insertProperty? (hh : h.Alike k ρ h') (ha : ρ.object a a') (name : String) (hv : v.Alike ρ v') :
    ∃ h₁ h₁', h.insertProperty? a name v = some h₁ ∧ h'.insertProperty? a' name v' = some h₁' ∧ h₁.Alike k ρ h₁' := by
  obtain ⟨o, o', ho, ho', hoo⟩ := hh.graph.object ha
  obtain ⟨s, hs, hcell⟩ := slot?_of_cell? (object?_eq_some.mp ho)
  obtain ⟨s', hs', hcell'⟩ := slot?_of_cell? (object?_eq_some.mp ho')
  obtain ⟨mark, born, cell⟩ := s
  obtain ⟨mark', born', cell'⟩ := s'
  obtain rfl : cell = .object o := hcell
  obtain rfl : cell' = .object o' := hcell'
  obtain ⟨n, n', hle, hd, hd', hn⟩ := hh.numbers
  simp only [Heap.insertProperty?, hs, hs']
  refine ⟨_, _, rfl, rfl, hh.born, ⟨hh.tidy.1.write hs, hh.tidy.2.write hs'⟩,
    ⟨n, n', hle, hd.write hs rfl, hd'.write hs' rfl, hn⟩, hh.graph.single, ?_, ?_⟩
  · intro b b' hb
    have hone := hh.graph.single.object ha hb
    simp only [object?, cell?_setSlot hs, cell?_setSlot hs']
    by_cases hab : a = b
    · rw [if_pos hab, if_pos (hone.mp hab)]
      exact ⟨_, _, rfl, rfl, hoo.kind, hoo.parent, hoo.properties.insert name hv⟩
    · rw [if_neg hab, if_neg fun heq => hab (hone.mpr heq)]
      exact hh.graph.object hb
  · intro b b' hb
    obtain ⟨e, e', he, he', hee⟩ := hh.graph.scope hb
    have hab : a ≠ b := by
      rintro rfl
      rw [environment?_eq_some, object?_eq_some.mp ho] at he
      cases he
    have hab' : a' ≠ b' := by
      rintro rfl
      rw [environment?_eq_some, object?_eq_some.mp ho'] at he'
      cases he'
    refine ⟨e, e', ?_, ?_, hee⟩
    · rwa [environment?_eq_some, cell?_setSlot hs, if_neg hab, ← environment?_eq_some]
    · rwa [environment?_eq_some, cell?_setSlot hs', if_neg hab', ← environment?_eq_some]

theorem setProperty (hh : h.Alike k ρ h') (hv : v.Alike ρ v') (name : String) (hw : w.Alike ρ w') :
    Agree (Heap.Alike k ρ) (h.setProperty v name w) (h'.setProperty v' name w') := by
  cases hv with
  | plain hv =>
    cases v with
    | object a => cases hv
    | string | boolean | number => exact .ok hh
    | undefined | null => exact .error rfl
  | object ha =>
    obtain ⟨h₁, h₁', hi, hi', hh₁⟩ := hh.insertProperty? ha name hw
    simp only [Heap.setProperty, hi, hi']
    exact .ok hh₁

variable {env env' : Handle}

theorem define (hh : h.Alike k ρ h') (he : ρ.scope env env') (name : String) (hv : v.Alike ρ v') :
    Agree (Heap.Alike k ρ) (Environment.define h env name v) (Environment.define h' env' name v') := by
  refine (hh.bindings he).bind fun a a' ha => ?_
  obtain ⟨h₁, h₁', hi, hi', hh₁⟩ := hh.insertProperty? ha name hv
  simp only [hi, hi']
  exact .ok hh₁

theorem declare (hh : h.Alike k ρ h') (he : ρ.scope env env') (name : String) :
    Agree (Heap.Alike k ρ) (Environment.declare h env name) (Environment.declare h' env' name) := by
  refine (hh.hasOwn he name).bind fun own _ heq => ?_
  subst heq
  split
  · exact .ok hh
  · exact hh.define he name (.plain rfl)

theorem assign (hh : h.Alike k ρ h') (he : ρ.scope env env') (name : String) (hv : v.Alike ρ v') (strict : Bool) :
    Agree (Heap.Alike k ρ) (Environment.assign h env name v strict) (Environment.assign h' env' name v' strict) := by
  have hlimit : h'.chainLimit = h.chainLimit := by simp only [chainLimit, hh.born]
  simp only [Environment.assign, hlimit]
  refine (hh.binderWithin he name _).bind fun binder binder' hb => ?_
  cases hb with
  | bound hs => exact hh.define hs name hv
  | outermost hs =>
    cases strict with
    | true => exact .error rfl
    | false => exact hh.define hs name hv

end Writing

section Making

theorem alloc {cell cell' : Cell} {ρ' : Renaming} (hh : h.Alike k ρ h') (hρ : ρ.Extends ρ') (hone : ρ'.OneToOne)
    (hobject : ∀ {b b'}, ρ'.object b b' → ρ.object b b' ∨
      ∃ o o', (h.alloc cell).2.object? b = some o ∧ (h'.alloc cell').2.object? b' = some o' ∧ o.Alike ρ' o')
    (hscope : ∀ {b b'}, ρ'.scope b b' → ρ.scope b b' ∨
      ∃ e e', (h.alloc cell).2.environment? b = some e ∧ (h'.alloc cell').2.environment? b' = some e' ∧ e.Alike ρ' e') :
    (h.alloc cell).2.Alike k ρ' (h'.alloc cell').2 := by
  obtain ⟨n, n', hle, hd, hd', hn⟩ := hh.numbers
  refine ⟨?_, ⟨hh.tidy.1.alloc cell, hh.tidy.2.alloc cell'⟩, ⟨n, n', hle, hd.alloc cell, hd'.alloc cell', hn⟩,
    hone, ?_, ?_⟩
  · rw [born_alloc, born_alloc, hh.born]
  · intro b b' hb
    rcases hobject hb with hb | hb
    · obtain ⟨o, o', ho, ho', hoo⟩ := hh.graph.object hb
      rw [object?_eq_some] at ho ho'
      exact ⟨o, o', object?_eq_some.mpr (cell?_alloc_of_live hh.tidy.1 _ ho),
        object?_eq_some.mpr (cell?_alloc_of_live hh.tidy.2 _ ho'), hoo.mono hρ⟩
    · exact hb
  · intro b b' hb
    rcases hscope hb with hb | hb
    · obtain ⟨e, e', he, he', hee⟩ := hh.graph.scope hb
      rw [environment?_eq_some] at he he'
      exact ⟨e, e', environment?_eq_some.mpr (cell?_alloc_of_live hh.tidy.1 _ he),
        environment?_eq_some.mpr (cell?_alloc_of_live hh.tidy.2 _ he'), hee.mono hρ⟩
    · exact hb

theorem allocObject {o o' : Object} (hh : h.Alike k ρ h') (ho : o.Alike ρ o') :
    ∃ ρ', ρ.Extends ρ' ∧ (h.alloc (.object o)).2.Alike k ρ' (h'.alloc (.object o')).2 ∧
      ρ'.object (h.alloc (.object o)).1 (h'.alloc (.object o')).1 := by
  have hρ : ρ.Extends (ρ.withObject (h.alloc (.object o)).1 (h'.alloc (.object o')).1) := ⟨.inl, id⟩
  refine ⟨_, hρ, hh.alloc hρ ⟨?_, hh.graph.single.scope⟩ ?_ .inl, .inr ⟨rfl, rfl⟩⟩
  · refine Renaming.single_or hh.graph.single.object ?_ ?_
    · intro b' hb
      obtain ⟨o₁, _, ho₁, -⟩ := hh.graph.object hb
      rw [object?_eq_some, cell?_alloc_before hh.tidy.1] at ho₁
      cases ho₁
    · intro b hb
      obtain ⟨_, o₁, -, ho₁, -⟩ := hh.graph.object hb
      rw [object?_eq_some, cell?_alloc_before hh.tidy.2] at ho₁
      cases ho₁
  · rintro b b' (hb | ⟨rfl, rfl⟩)
    · exact .inl hb
    · exact .inr ⟨o, o', object?_eq_some.mpr (cell?_alloc_new hh.tidy.1 _),
        object?_eq_some.mpr (cell?_alloc_new hh.tidy.2 _), ho.mono hρ⟩

theorem allocEnvironment {e e' : Environment} (hh : h.Alike k ρ h') (he : e.Alike ρ e') :
    ∃ ρ', ρ.Extends ρ' ∧ (h.alloc (.environment e)).2.Alike k ρ' (h'.alloc (.environment e')).2 ∧
      ρ'.scope (h.alloc (.environment e)).1 (h'.alloc (.environment e')).1 := by
  have hρ : ρ.Extends (ρ.withScope (h.alloc (.environment e)).1 (h'.alloc (.environment e')).1) := ⟨id, .inl⟩
  refine ⟨_, hρ, hh.alloc hρ ⟨hh.graph.single.object, ?_⟩ .inl ?_, .inr ⟨rfl, rfl⟩⟩
  · refine Renaming.single_or hh.graph.single.scope ?_ ?_
    · intro b' hb
      obtain ⟨e₁, _, he₁, -⟩ := hh.graph.scope hb
      rw [environment?_eq_some, cell?_alloc_before hh.tidy.1] at he₁
      cases he₁
    · intro b hb
      obtain ⟨_, e₁, -, he₁, -⟩ := hh.graph.scope hb
      rw [environment?_eq_some, cell?_alloc_before hh.tidy.2] at he₁
      cases he₁
  · rintro b b' (hb | ⟨rfl, rfl⟩)
    · exact .inl hb
    · exact .inr ⟨e, e', environment?_eq_some.mpr (cell?_alloc_new hh.tidy.1 _),
        environment?_eq_some.mpr (cell?_alloc_new hh.tidy.2 _), he.mono hρ⟩

theorem openScope {env env' : Handle} (hh : h.Alike k ρ h') (he : ρ.scope env env') :
    ∃ ρ', ρ.Extends ρ' ∧ (Environment.alloc h none (some env)).2.Alike k ρ' (Environment.alloc h' none (some env')).2 ∧
      ρ'.scope (Environment.alloc h none (some env)).1 (Environment.alloc h' none (some env')).1 := by
  have hplain : (Object.of .plain).Alike ρ (.of .plain) := ⟨.plain, ⟨rfl, rfl⟩, .nil⟩
  obtain ⟨ρ₁, hρ₁, hh₁, hnames⟩ := hh.allocObject hplain
  have hscope : Environment.Alike ρ₁ ⟨_, some env⟩ ⟨_, some env'⟩ := ⟨hnames, .some (hρ₁.scope he)⟩
  obtain ⟨ρ₂, hρ₂, hh₂, hs⟩ := hh₁.allocEnvironment hscope
  exact ⟨ρ₂, hρ₁.trans hρ₂, hh₂, hs⟩

end Making

end Heap.Alike

namespace Heap.Mirrors

variable {ρ : Renaming} {h h' : Heap}

theorem forall₂_of_mem {α β : Type} {R S : α → β → Prop} {l : List α} {l' : List β} (h : List.Forall₂ R l l')
    (hs : ∀ a b, b ∈ l' → R a b → S a b) : List.Forall₂ S l l' := by
  induction h with
  | nil => exact .nil
  | cons hab _ ih => exact .cons (hs _ _ (.head _) hab) (ih fun a b hb => hs a b (.tail _ hb))

variable {since : Nat} {roots : List Handle}

theorem collectSince (hg : h.Mirrors ρ h') (hu : h'.Unnumbered) :
    h.Mirrors (ρ.restrict (h'.Reaches roots)) (h'.collectSince since roots).2 := by
  have hkept {b : Handle} (hb : h'.Reaches roots b) : (h'.collectSince since roots).2.cell? b = h'.cell? b := by
    rw [cell?, slot?_collected_of_reaches hu hb, cell?, Option.map_map]
    rfl
  refine ⟨hg.single.restrict _, ?_, ?_⟩
  · rintro a a' ⟨ha, hr⟩
    obtain ⟨o, o', ho, ho', hoo⟩ := hg.object ha
    rw [object?_eq_some] at ho'
    obtain ⟨s, hs, hcell⟩ := slot?_of_cell? ho'
    have hlink {b : Handle} (hb : b ∈ (Cell.object o').links) : h'.Reaches roots b :=
      hr.link hs (by rw [hcell]; exact hb)
    refine ⟨o, o', ho, object?_eq_some.mpr ((hkept hr).trans ho'), ?_, hoo.parent, ?_⟩
    · have hkind := hoo.kind
      obtain ⟨kind, _, _⟩ := o
      obtain ⟨kind', _, _⟩ := o'
      cases hkind with
      | plain => exact .plain
      | error => exact .error
      | native f => exact .native f
      | closure u he => exact .closure u ⟨he, hlink (by simp [Cell.links, ObjectClass.links])⟩
    · refine forall₂_of_mem hoo.properties ?_
      rintro ⟨n, v⟩ ⟨n', v'⟩ hmem ⟨hn, hv⟩
      refine ⟨hn, ?_⟩
      cases hv with
      | plain hv => exact .plain hv
      | @object b b' hb =>
        refine .object ⟨hb, hlink ?_⟩
        have hmap : b' ∈ o'.properties.filterMap (·.2.handle?) := List.mem_filterMap.mpr ⟨_, hmem, rfl⟩
        simp [Cell.links, hmap]
  · rintro a a' ⟨ha, hr⟩
    obtain ⟨⟨names, outer⟩, ⟨names', outer'⟩, he, he', hnames, houter⟩ := hg.scope ha
    rw [environment?_eq_some] at he'
    obtain ⟨s, hs, hcell⟩ := slot?_of_cell? he'
    have hlink {b : Handle} (hb : b ∈ (Cell.environment ⟨names', outer'⟩).links) : h'.Reaches roots b :=
      hr.link hs (by rw [hcell]; exact hb)
    refine ⟨_, _, he, environment?_eq_some.mpr ((hkept hr).trans he'), ⟨hnames, hlink (.head _)⟩, ?_⟩
    cases houter with
    | none => exact .none
    | some hout => exact .some ⟨hout, hlink (by simp [Cell.links])⟩

end Heap.Mirrors

namespace Heap.Alike

variable {k : Nat} {ρ ρ' : Renaming} {h h' : Heap} {since since' : Nat} {roots roots' : List Handle}

theorem unnumbered (hh : h.Alike (k + 1) ρ h') : h.Unnumbered ∧ h'.Unnumbered := by
  obtain ⟨n, n', hle, hd, hd', hn⟩ := hh.numbers
  exact ⟨hd.unnumbered (by omega), hd'.unnumbered (by omega)⟩

theorem collected (hh : h.Alike (k + 1) ρ h')
    (hg : (h.collectSince since roots).2.Mirrors ρ' (h'.collectSince since' roots').2) :
    (h.collectSince since roots).2.Alike k ρ' (h'.collectSince since' roots').2 := by
  obtain ⟨n, n', hle, hd, hd', hn⟩ := hh.numbers
  refine ⟨hh.born, ⟨hh.tidy.1.collectSince since roots, hh.tidy.2.collectSince since' roots'⟩, ?_, hg⟩
  exact ⟨n + 1, n' + 1, by omega, hd.collectSince (by omega) since roots, hd'.collectSince (by omega) since' roots',
    by omega⟩

theorem collectedMore (hh : h.Alike (k + 1) ρ h') (hg : h.Mirrors ρ' (h'.collectSince since' roots').2) :
    h.Alike k ρ' (h'.collectSince since' roots').2 := by
  obtain ⟨n, n', hle, hd, hd', hn⟩ := hh.numbers
  refine ⟨hh.born, ⟨hh.tidy.1, hh.tidy.2.collectSince since' roots'⟩, ?_, hg⟩
  exact ⟨n, n' + 1, by omega, hd, hd'.collectSince (by omega) since' roots', by omega⟩

theorem within {j n : Nat} (hh : h.Alike k ρ h') (hd : h'.Dated n) (hn : n + j + 1 < 2 ^ 32) : h.Alike j ρ h' := by
  obtain ⟨m, n', hle, hm, hd', -⟩ := hh.numbers
  have heq : n' = n := Nat.succ.inj (hd'.epoch.symm.trans hd.epoch)
  exact ⟨hh.born, hh.tidy, ⟨m, n, heq ▸ hle, hm, hd, hn⟩, hh.graph⟩

end Heap.Alike

end ScriptEngine
