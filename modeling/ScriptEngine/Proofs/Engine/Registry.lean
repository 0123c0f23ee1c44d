import ScriptEngine.Engine.Create
import ScriptEngine.Proofs.Engine.Seclusion

namespace ScriptEngine

namespace PropertyMap

variable {α : Type} {name other : String} {value : α} {m : PropertyMap α}

theorem mem_names_of_get? (h : get? name m = some value) : name ∈ names m :=
  List.mem_map_of_mem (mem_of_get? h)

theorem has_of_mem_names (h : name ∈ names m) : has name m = true := by
  induction m with
  | nil => cases h
  | cons p m ih =>
    obtain ⟨n, a⟩ := p
    simp only [has, get?]
    split
    · rfl
    · rename_i hne
      exact ih ((List.mem_cons.mp h).resolve_left fun he => hne he.symm)

theorem nodup_insert (hm : (names m).Nodup) (name : String) (value : α) : (names (insert name value m)).Nodup := by
  rw [names_insert]
  split
  · exact hm
  · rename_i hnew
    refine List.nodup_append.mpr ⟨hm, List.nodup_singleton _, fun a ha b hb => ?_⟩
    obtain rfl := List.mem_singleton.mp hb
    rintro rfl
    exact hnew (has_of_mem_names ha)

theorem get?_erase_of_ne (hne : name ≠ other) (m : PropertyMap α) : get? other (erase name m) = get? other m := by
  induction m with
  | nil => rfl
  | cons p m ih =>
    obtain ⟨n, a⟩ := p
    simp only [erase]
    split
    · rename_i hn
      rw [get?, if_neg (hn ▸ hne)]
    · simp only [get?, ih]

theorem names_erase (name : String) (m : PropertyMap α) : (names (erase name m)).Sublist (names m) := by
  induction m with
  | nil => exact .slnil
  | cons p m ih =>
    obtain ⟨n, a⟩ := p
    simp only [erase]
    split
    · exact List.sublist_cons_self _ _
    · exact ih.cons_cons _

theorem get?_erase_self (hm : (names m).Nodup) : get? name (erase name m) = none := by
  induction m with
  | nil => rfl
  | cons p m ih =>
    obtain ⟨n, a⟩ := p
    obtain ⟨hn, hm⟩ := List.nodup_cons.mp hm
    simp only [erase]
    split
    · rename_i hname
      subst hname
      exact Option.eq_none_iff_forall_ne_some.mpr fun v hv => hn (mem_names_of_get? hv)
    · rename_i hne
      rw [get?, if_neg hne]
      exact ih hm

end PropertyMap

inductive Event where
  | anchored (key : String) (value : Value)
  | released (key : String)
  | other

namespace Event

def apply : Event → PropertyMap Value → PropertyMap Value
  | .anchored key value, m => m.insert key value
  | .released key, m => m.erase key
  | .other, m => m

def issues : Event → Nat
  | .anchored _ _ => 1
  | .released _ | .other => 0

end Event

namespace Engine

variable {e e' : Engine} {event : Event} {s : Slot} {o : Object} {v : Value} {key : String}

def refKey (n : Nat) : String := "_" ++ toString n

theorem refKey_inj {m n : Nat} (h : refKey m = refKey n) : m = n := by
  have hrepr : m.repr = n.repr := (String.append_right_inj "_").mp h
  have hdigits := congrArg String.toList hrepr
  rw [Nat.toList_repr, Nat.toList_repr] at hdigits
  rw [← Nat.ofDigitChars_ten_toDigits (n := m), hdigits, Nat.ofDigitChars_ten_toDigits]

def references (e : Engine) : PropertyMap Value :=
  ((e.heap.object? e.registry).map (·.properties)).getD []

theorem getRef_eq (key : String) (e : Engine) : e.getRef key = (e.references.get? key).getD .undefined := by
  simp only [getRef, references]
  cases e.heap.object? e.registry <;> rfl

def Anchored (e : Engine) (a : Handle) : Prop :=
  ∃ name value, (name, value) ∈ e.references ∧ value.handle? = some a

def HasRegistry (e : Engine) : Prop :=
  ∃ s o, e.heap.Rooted e.registry s ∧ s.cell = .object o

/-- The registry holds values under different keys, all of which were given out. -/
structure Booked (e : Engine) : Prop where
  registry : e.HasRegistry
  nodup : e.references.names.Nodup
  issued : ∀ name ∈ e.references.names, ∃ i < e.nextRef, name = refKey i

structure Records (e : Engine) (event : Event) (e' : Engine) : Prop where
  references : e'.references = event.apply e.references
  nextRef : e'.nextRef = e.nextRef + event.issues
  key : ∀ key value, event = .anchored key value → key = refKey e.nextRef
  kept : e.heap.Spares e'.Anchored e'.heap
  registry : e'.HasRegistry

theorem references_eq (hr : e.heap.Rooted e.registry s) (hc : s.cell = .object o) : e.references = o.properties := by
  have ho : e.heap.object? e.registry = some o := by
    simp only [Heap.object?, Heap.cell?, hr.slot, Option.map_some, hc]
  simp only [references, ho, Option.map_some, Option.getD_some]

theorem Records.booked (h : e.Records event e') (hb : e.Booked) : e'.Booked := by
  have hmore {name : String} (hn : name ∈ e.references.names) : ∃ i < e'.nextRef, name = refKey i := by
    obtain ⟨i, hi, rfl⟩ := hb.issued name hn
    rw [h.nextRef]
    exact ⟨i, by omega, rfl⟩
  refine ⟨h.registry, ?_, ?_⟩ <;> rw [h.references]
  · cases event with
    | anchored key value => exact PropertyMap.nodup_insert hb.nodup key value
    | released key => exact (PropertyMap.names_erase key _).nodup hb.nodup
    | other => exact hb.nodup
  · intro name hn
    cases event with
    | anchored key value =>
      simp only [Event.apply, PropertyMap.names_insert] at hn
      split at hn
      · exact hmore hn
      · rcases List.mem_append.mp hn with hn | hn
        · exact hmore hn
        · obtain rfl := List.mem_singleton.mp hn
          refine ⟨e.nextRef, ?_, h.key _ _ rfl⟩
          rw [h.nextRef]
          exact Nat.lt_succ_self _
    | released key => exact hmore ((PropertyMap.names_erase key _).subset hn)
    | other => exact hmore hn

section Lookup

theorem Records.get?_anchored {value : Value} (h : e.Records (.anchored key value) e') :
    e'.references.get? key = some value := by
  rw [h.references, Event.apply, PropertyMap.get?_insert, if_pos rfl]

theorem Records.get?_released (h : e.Records (.released key) e') (hb : e.Booked) : e'.references.get? key = none := by
  rw [h.references]
  exact PropertyMap.get?_erase_self hb.nodup

theorem Records.get?_of_ne (h : e.Records event e') (ha : ∀ value, event ≠ .anchored key value)
    (hr : event ≠ .released key) : e'.references.get? key = e.references.get? key := by
  rw [h.references]
  cases event with
  | anchored other value =>
    have hne : other ≠ key := fun heq => ha value (by rw [heq])
    rw [Event.apply, PropertyMap.get?_insert, if_neg hne]
  | released other =>
    have hne : other ≠ key := fun heq => hr (by rw [heq])
    exact PropertyMap.get?_erase_of_ne hne _
  | other => rfl

end Lookup

structure Anchors (e e' : Engine) : Prop where
  registry : e'.registry = e.registry
  nextRef : e'.nextRef = e.nextRef
  heap : e.heap.Anchors e.registry e'.heap

theorem Anchors.of_guards (hs : e'.Secluded e.registry e.nextRef) (hh : e.heap.Guards e.registry e'.heap) :
    e.Anchors e' :=
  ⟨hs.registry, hs.nextRef, hh.anchors⟩

theorem Anchors.records (h : e.Anchors e') (hb : e.HasRegistry) : e.Records .other e' := by
  obtain ⟨s, o, hr, hc⟩ := hb
  obtain ⟨s', hr', hcontent, hspares⟩ := h.heap s hr
  rw [← h.registry] at hr'
  have hc' : s'.cell = .object o := (congrArg Prod.snd hcontent).trans hc
  have hsame : e'.references = e.references := by rw [references_eq hr' hc', references_eq hr hc]
  refine ⟨hsame, h.nextRef, fun _ _ heq => (by cases heq), fun a t ha => hspares a t ?_, s', o, hr', hc'⟩
  obtain ⟨name, value, hmem, hhandle⟩ := ha
  rw [references_eq hr' hc'] at hmem
  rw [hc]
  exact List.mem_append_left _ (List.mem_append_right _ (List.mem_filterMap.mpr ⟨_, hmem, hhandle⟩))

theorem rewritten (o : Object) (properties : PropertyMap Value) (next : Nat) (hs : e.Secluded e.registry e.nextRef)
    (hr : e.heap.Rooted e.registry s)
    (he : e' = { e with
      nextRef := next, heap := e.heap.setSlot e.registry { s with cell := .object { o with properties } } }) :
    e'.Secluded e'.registry e'.nextRef ∧ e'.references = properties ∧ e.heap.Spares e'.Anchored e'.heap ∧
      e'.HasRegistry := by
  subst he
  obtain ⟨hapart, hspares⟩ := Heap.rewrite_apart hr.slot (t := { s with cell := .object { o with properties } }) rfl
  have hnew := hr.rewrite (.object { o with properties })
  exact ⟨⟨rfl, rfl, ⟨_, hnew⟩, { hs.among.mono hapart with }⟩, references_eq (o := { o with properties }) hnew rfl,
    hspares _, _, _, hnew, rfl⟩

theorem makeRef_records (hs : e.Secluded e.registry e.nextRef) (hb : e.HasRegistry) (value : Value) :
    ∃ e', makeRef value e = .ok (refKey e.nextRef) e' ∧ e'.Secluded e'.registry e'.nextRef ∧
      e.Records (.anchored (refKey e.nextRef) value) e' := by
  obtain ⟨⟨mark, born, cell⟩, o, hr, rfl⟩ := hb
  obtain ⟨hs', hrefs, hspares, hregistry⟩ :=
    rewritten o (o.properties.insert (refKey e.nextRef) value) (e.nextRef + 1) hs hr rfl
  refine ⟨_, ?_, hs', ?_, rfl, fun _ _ heq => (Event.anchored.inj heq).1.symm, hspares, hregistry⟩
  · have hset : Heap.setProperty e.heap (.object e.registry) (refKey e.nextRef) value = .ok (e.heap.setSlot e.registry
        ⟨mark, born, .object { o with properties := o.properties.insert (refKey e.nextRef) value }⟩) := by
      simp only [Heap.setProperty, Heap.insertProperty?, hr.slot]
    refine Ensures.eq_ok (.get (.bind ?_))
    refine .bind (Ensures.of_ok (?_ : setProperty _ _ _ _ = .ok ⟨⟩ _) (.pure ⟨rfl, rfl⟩))
    simp only [setProperty, change_eq]
    rw [show Heap.setProperty e.heap (.object e.registry) ("_" ++ toString e.nextRef) value = _ from hset]
  · rw [hrefs, references_eq hr rfl]
    rfl

theorem unref_records (hs : e.Secluded e.registry e.nextRef) (hb : e.HasRegistry) (key : String) :
    (e.unref key).Secluded e.registry e.nextRef ∧ e.Records (.released key) (e.unref key) := by
  obtain ⟨⟨mark, born, cell⟩, o, hr, rfl⟩ := hb
  obtain ⟨hs', hrefs, hspares, hregistry⟩ := rewritten o (o.properties.erase key) e.nextRef hs hr rfl
  have hunref : e.unref key = { e with
      heap := e.heap.setSlot e.registry ⟨mark, born, .object { o with properties := o.properties.erase key }⟩ } := by
    simp only [unref, Heap.eraseProperty, hr.slot]
  rw [← hunref] at hs' hrefs hspares hregistry
  refine ⟨hs', ?_, rfl, fun _ _ heq => (by cases heq), hspares, hregistry⟩
  rw [hrefs, references_eq hr rfl]
  rfl

section Creation

variable {r owner : Handle} {h : Heap}

theorem guards_setGlobal (name : String) (ho : h.Apart r owner) (hv : v.Apart r h) :
    h.Guards r (setGlobal owner h (name, v)) := by
  simp only [setGlobal]
  cases hi : h.insertProperty? owner name v with
  | none => exact .refl _ _
  | some h' => exact .insertProperty? ho hv hi

theorem guards_install (hr : ∃ s, h.Rooted r s) (ho : h.Apart r owner) (f : Builtin) :
    h.Guards r (install owner h f) := by
  obtain ⟨s, hs⟩ := hr
  obtain ⟨hmade, hnew⟩ := Heap.apart_object (o := .of (.native f)) hs rfl
  refine hmade.trans (guards_setGlobal f.name (hmade.apart _ ho) fun a ha => ?_)
  obtain rfl := Option.some.inj ha
  exact hnew

theorem guards_installs (hr : ∃ s, h.Rooted r s) (ho : h.Apart r owner) (fs : List Builtin) :
    h.Guards r (fs.foldl (install owner) h) := by
  induction fs generalizing h with
  | nil => exact .refl _ _
  | cons f fs ih =>
    have hh := guards_install hr ho f
    exact hh.trans (ih (hh.anchors.rooted hr) (hh.apart _ ho))

theorem guards_setGlobals {entries : List (String × Value)} (ho : h.Apart r owner)
    (hv : ∀ entry ∈ entries, entry.2.Apart r h) : h.Guards r (entries.foldl (setGlobal owner) h) := by
  induction entries generalizing h with
  | nil => exact .refl _ _
  | cons entry entries ih =>
    have hh := guards_setGlobal entry.1 ho (hv entry (.head _))
    exact hh.trans (ih (hh.apart _ ho) fun entry' hmem => hh.among (hv entry' (.tail _ hmem)))

theorem guards_populate (hr : ∃ s, h.Rooted r s) (ho : h.Apart r owner) : h.Guards r (populate owner h) := by
  delta populate
  dsimp only
  have hglobals := guards_installs hr ho Builtin.globals
  generalize Builtin.globals.foldl (install owner) h = h₁ at hglobals ⊢
  obtain ⟨s₁, hr₁⟩ := hglobals.anchors.rooted hr
  obtain ⟨hmath, hnew⟩ := Heap.apart_object (o := .of .plain) hr₁ rfl
  generalize h₁.allocObject (.of .plain) = made at hmath hnew ⊢
  have hmembers := guards_installs (hmath.anchors.rooted ⟨s₁, hr₁⟩) hnew Builtin.mathMembers
  generalize Builtin.mathMembers.foldl (install made.1) made.2 = h₂ at hmembers ⊢
  have hpi : h₂.Guards r (setGlobal made.1 h₂ ("PI", .number pi)) :=
    guards_setGlobal "PI" (hmembers.apart _ hnew) (Value.among_of_plain rfl)
  have hbefore := ((hglobals.trans hmath).trans hmembers).trans hpi
  refine hbefore.trans (guards_setGlobals (hbefore.apart _ ho) ?_)
  simp only [List.forall_mem_cons, List.not_mem_nil, false_implies, implies_true, and_true]
  refine ⟨fun a ha => ?_, Value.among_of_plain rfl, Value.among_of_plain rfl, Value.among_of_plain rfl⟩
  obtain rfl := Option.some.inj ha
  exact (hmembers.trans hpi).apart _ hnew

theorem create_booked {flags : Flags} {limits : Limits} (hc : create? flags limits = some e) :
    e.Secluded e.registry e.nextRef ∧ e.Booked := by
  simp only [create?] at hc
  split at hc
  · have hr : (Heap.empty.allocObject (.of .plain)).2.Rooted (Heap.empty.allocObject (.of .plain)).1
        ⟨Heap.empty.epoch, Heap.empty.born, .object (.of .plain)⟩ :=
      ⟨Heap.tidy_empty.alloc _, Heap.slot?_alloc_new Heap.tidy_empty _, (Heap.epoch_alloc _ _).symm⟩
    generalize Heap.empty.allocObject (.of .plain) = made at hc hr
    obtain ⟨r, h₁⟩ := made
    obtain ⟨hglobal, hnew⟩ := Heap.apart_object (o := .of .plain) hr rfl
    generalize h₁.allocObject (.of .plain) = made at hc hglobal hnew
    obtain ⟨global, h₂⟩ := made
    obtain ⟨s₂, hr₂, -⟩ := hglobal.anchors _ hr
    have hnames : ∀ b ∈ (Cell.environment ⟨global, none⟩).links, h₂.Apart r b := fun b hb => by
      obtain rfl := List.mem_singleton.mp hb
      exact hnew
    have hscope : h₂.Guards r (Environment.alloc h₂ (some global) none).2 := .alloc hnames
    have hnewScope : (Environment.alloc h₂ (some global) none).2.Apart r (Environment.alloc h₂ (some global) none).1 :=
      Heap.apart_alloc hr₂ hnames
    generalize Environment.alloc h₂ (some global) none = made at hc hscope hnewScope
    obtain ⟨globalEnv, h₃⟩ := made
    have hpopulated := guards_populate (hscope.anchors.rooted ⟨s₂, hr₂⟩) (hscope.apart _ hnew)
    generalize populate global h₃ = h₄ at hc hpopulated
    obtain rfl := Option.some.inj hc
    obtain ⟨s₄, hr₄, hcontent, -⟩ := ((hglobal.trans hscope).trans hpopulated).anchors _ hr
    have hcell : s₄.cell = .object (.of .plain) := congrArg Prod.snd hcontent
    have hscope₄ := hpopulated.apart _ hnewScope
    refine ⟨⟨rfl, rfl, ⟨s₄, hr₄⟩, ?_⟩, ⟨s₄, _, hr₄, hcell⟩, ?_, ?_⟩
    · exact ⟨(hscope.trans hpopulated).apart _ hnew, hscope₄, hscope₄, List.forall_mem_nil _, List.forall_mem_nil _,
        List.forall_mem_nil _⟩
    · rw [references_eq hr₄ hcell]
      exact List.nodup_nil
    · intro name hn
      rw [references_eq hr₄ hcell] at hn
      cases hn
  · cases hc

end Creation

end Engine

end ScriptEngine
