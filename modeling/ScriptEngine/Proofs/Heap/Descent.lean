import ScriptEngine.Proofs.Heap.Upkeep

/-!
Scopes stand on older ones. The scope of a closure and the scope around a scope are named when the
cell is made and never after, so they were made before it; and a collection that keeps a cell keeps
the scope that it stands on, be it reached or too old to be freed. So the links from scope to scope
lead back in time and come to an end, whatever slots are used again.
-/

namespace ScriptEngine

def Cell.base? : Cell → Option Handle
  | .object ⟨.closure _ env, _, _⟩ => some env
  | .object _ => none
  | .environment env => env.outer

theorem Cell.base?_mem_links {cell : Cell} {b : Handle} (h : cell.base? = some b) : b ∈ cell.links := by
  cases cell with
  | environment env =>
    have houter : env.outer = some b := h
    simp [Cell.links, houter]
  | object o =>
    obtain ⟨kind, parent, properties⟩ := o
    cases kind with
    | closure unit env =>
      obtain rfl : env = b := Option.some.inj h
      simp [Cell.links, ObjectClass.links]
    | plain | error | native => cases h

namespace Heap

variable {h h' h'' : Heap} {last names a b : Handle} {n k : Nat}

def ScopeBefore (h : Heap) (born : Nat) (b : Handle) : Prop :=
  ∃ t env, h.slot? b = some t ∧ t.cell = .environment env ∧ t.born < born

/-- Every cell stands on a scope that is older. Only the last scope stands on none. -/
structure Descends (last names : Handle) (h : Heap) : Prop where
  born : ∀ a s, h.slot? a = some s → s.born < h.born
  older : ∀ a s b, h.slot? a = some s → s.cell.base? = some b → h.ScopeBefore s.born b
  last : ∀ a s v, h.slot? a = some s → s.cell = .environment ⟨v, none⟩ → a = last ∧ v = names

structure Founded (h : Heap) (cell : Cell) : Prop where
  base : ∀ b, cell.base? = some b → ∃ env, h.environment? b = some env
  inside : ∀ v, cell ≠ .environment ⟨v, none⟩

theorem founded_of_base {h : Heap} {cell : Cell} {b : Handle} {env : Environment} (hb : cell.base? = some b)
    (he : h.environment? b = some env) : h.Founded cell := by
  refine ⟨fun c hc => ?_, ?_⟩
  · obtain rfl := Option.some.inj (hb.symm.trans hc)
    exact ⟨env, he⟩
  · rintro v rfl
    cases hb

theorem founded_object {h : Heap} {o : Object} (ho : (Cell.object o).base? = none) : h.Founded (.object o) := by
  refine ⟨fun c hc => ?_, fun v hv => by cases hv⟩
  rw [ho] at hc
  cases hc

theorem slot_of_environment? {env : Environment} (he : h.environment? a = some env) :
    ∃ s, h.slot? a = some s ∧ s.cell = .environment env := by
  simp only [environment?, cell?] at he
  cases hs : h.slot? a with
  | none => rw [hs] at he; cases he
  | some s =>
    rw [hs] at he
    cases hc : s.cell with
    | object o => simp [hc] at he
    | environment env' =>
      refine ⟨s, rfl, ?_⟩
      rw [hc]
      simpa [hc] using he

theorem environment?_of_slot {s : Slot} {env : Environment} (hs : h.slot? a = some s) (hc : s.cell = .environment env) :
    h.environment? a = some env := by
  simp only [environment?, cell?, hs, Option.map_some, hc]

namespace Descends

theorem alloc (hd : h.Descends last names) (ht : h.Tidy) {cell : Cell} (hc : h.Founded cell) :
    (h.alloc cell).2.Descends last names := by
  have hcases (a : Handle) (s : Slot) (hs : (h.alloc cell).2.slot? a = some s) :
      s = ⟨h.epoch, h.born, cell⟩ ∨ h.slot? a = some s := by
    rw [slot?_alloc] at hs
    split at hs
    · exact .inl (Option.some.inj hs).symm
    · exact .inr hs
  refine ⟨fun a s hs => ?_, fun a s b hs hb => ?_, fun a s v hs hv => ?_⟩
  · rw [born_alloc]
    obtain rfl | hs := hcases a s hs
    · exact Nat.lt_succ_self _
    · exact Nat.lt_succ_of_lt (hd.born a s hs)
  · obtain rfl | hs := hcases a s hs
    · obtain ⟨env, he⟩ := hc.base b hb
      obtain ⟨t, ht', hcell⟩ := slot_of_environment? he
      exact ⟨t, env, slot?_alloc_of_live ht cell ht', hcell, hd.born b t ht'⟩
    · obtain ⟨t, env, ht', hrest⟩ := hd.older a s b hs hb
      exact ⟨t, env, slot?_alloc_of_live ht cell ht', hrest⟩
  · obtain rfl | hs := hcases a s hs
    · exact (hc.inside v hv).elim
    · exact hd.last a s v hs hv

theorem write (hd : h.Descends last names) {c : Handle} {mark : UInt32} {born : Nat} {o : Object}
    (properties : PropertyMap Value) (hc : h.slot? c = some ⟨mark, born, .object o⟩) :
    (h.setSlot c ⟨mark, born, .object { o with properties }⟩).Descends last names := by
  have hbase : (Cell.object { o with properties }).base? = (Cell.object o).base? := by
    obtain ⟨kind, parent, _⟩ := o
    cases kind <;> rfl
  have hcases (a : Handle) (s : Slot) (hs : (h.setSlot c ⟨mark, born, .object { o with properties }⟩).slot? a = some s) :
      (∃ t, h.slot? a = some t ∧ s.born = t.born ∧ s.cell.base? = t.cell.base?) ∧
        ∀ env, s.cell = .environment env → h.slot? a = some s := by
    rw [slot?_setSlot] at hs
    split at hs
    · rename_i hca
      obtain rfl := hca.1
      obtain rfl := Option.some.inj hs
      exact ⟨⟨_, hc, rfl, hbase⟩, fun env he => by cases he⟩
    · exact ⟨⟨s, hs, rfl, rfl⟩, fun _ _ => hs⟩
  refine ⟨fun a s hs => ?_, fun a s b hs hb => ?_, fun a s v hs hv => ?_⟩
  · obtain ⟨⟨t, ht, hborn, -⟩, -⟩ := hcases a s hs
    rw [hborn]
    exact hd.born a t ht
  · obtain ⟨⟨t, ht, hborn, hsame⟩, -⟩ := hcases a s hs
    rw [hborn]
    obtain ⟨r, env, hr, hcell, hlt⟩ := hd.older a t b ht (hsame ▸ hb)
    refine ⟨r, env, ?_, hcell, hlt⟩
    rw [slot?_setSlot, if_neg, hr]
    rintro ⟨rfl, -⟩
    obtain rfl := Option.some.inj (hr.symm.trans hc)
    cases hcell
  · exact hd.last a s v ((hcases a s hs).2 _ hv) hv

theorem collectSince (hd : h.Descends last names) (hu : h.Unnumbered) (since : Nat) (roots : List Handle) :
    (h.collectSince since roots).2.Descends last names := by
  have hkept (a : Handle) (s : Slot) (hs : (h.collectSince since roots).2.slot? a = some s) :
      ∃ t, h.slot? a = some t ∧ t.born = s.born ∧ t.cell = s.cell := by
    obtain ⟨t, ht, hcontent⟩ := Option.map_eq_some_iff.mp (content_of_collectSince hs)
    exact ⟨t, ht, congrArg Prod.fst hcontent, congrArg Prod.snd hcontent⟩
  refine ⟨fun a s hs => ?_, fun a s b hs hb => ?_, fun a s v hs hv => ?_⟩
  · obtain ⟨t, ht, hborn, -⟩ := hkept a s hs
    rw [← hborn]
    exact hd.born a t ht
  · obtain ⟨t, ht, hborn, hcell⟩ := hkept a s hs
    rw [← hborn]
    rw [← hcell] at hb
    obtain ⟨r, env, hr, hrcell, hlt⟩ := hd.older a t b ht hb
    have hfound : ((h.collectSince since roots).2.slot? b).map Slot.content = some r.content := by
      by_cases ha : h.Reaches roots a
      · rw [slot?_collected_of_reaches hu (ha.link ht (Cell.base?_mem_links hb)), hr]
        rfl
      · rw [slot?_collected_of_not_reaches hu ha, ht, Option.filter_eq_some_iff] at hs
        have hold : t.born < since := by simpa [hborn] using hs.2
        exact content_collected_of_old hr (Nat.lt_trans hlt hold)
    obtain ⟨r', hr', hcontent⟩ := Option.map_eq_some_iff.mp hfound
    obtain ⟨hrborn, hrc⟩ := Prod.mk.inj hcontent
    exact ⟨r', env, hr', hrc.trans hrcell, hrborn ▸ hlt⟩
  · obtain ⟨t, ht, -, hcell⟩ := hkept a s hs
    exact hd.last a t v ht (hcell.trans hv)

end Descends

inductive Grows (h : Heap) : Nat → Heap → Prop
  | refl {n : Nat} : Grows h n h
  | alloc {n : Nat} {h' : Heap} {cell : Cell} : Grows h n h' → h'.Founded cell → Grows h n (h'.alloc cell).2
  | write {n : Nat} {h' : Heap} {a : Handle} {mark : UInt32} {born : Nat} {o : Object}
      (properties : PropertyMap Value) : Grows h n h' → h'.slot? a = some ⟨mark, born, .object o⟩ →
        Grows h n (h'.setSlot a ⟨mark, born, .object { o with properties }⟩)
  | collect {n : Nat} {h' : Heap} (since : Nat) (roots : List Handle) :
      Grows h n h' → Grows h (n + 1) (h'.collectSince since roots).2

namespace Grows

theorem mono (hg : h.Grows n h') (hnk : n ≤ k) : h.Grows k h' := by
  induction hg generalizing k with
  | refl => exact .refl
  | alloc _ hc ih => exact (ih hnk).alloc hc
  | write properties _ hs ih => exact (ih hnk).write properties hs
  | collect since roots _ ih =>
    obtain ⟨k, rfl⟩ : ∃ j, k = j + 1 := ⟨k - 1, by omega⟩
    exact (ih (Nat.le_of_succ_le_succ hnk)).collect since roots

theorem trans (hg : h.Grows n h') (hg' : h'.Grows k h'') : h.Grows (n + k) h'' := by
  induction hg' with
  | refl => exact hg.mono (Nat.le_add_right _ _)
  | alloc _ hc ih => exact ih.alloc hc
  | write properties _ hs ih => exact ih.write properties hs
  | collect since roots _ ih => exact ih.collect since roots

theorem allocObject {o : Object} (hg : h.Grows n h') (ho : (Cell.object o).base? = none) :
    h.Grows n (h'.allocObject o).2 :=
  hg.alloc (founded_object ho)

theorem insertProperty? {name : String} {value : Value} (hg : h.Grows n h')
    (hi : h'.insertProperty? a name value = some h'') : h.Grows n h'' := by
  obtain ⟨mark, born, o, hs, rfl⟩ := insertProperty?_eq_some hi
  exact hg.write _ hs

theorem setProperty {target value : Value} {name : String} (hg : h.Grows n h')
    (hs : h'.setProperty target name value = .ok h'') : h.Grows n h'' := by
  cases target with
  | object a =>
    simp only [Heap.setProperty] at hs
    split at hs
    · rename_i hi
      cases hs
      exact hg.insertProperty? hi
    · cases hs
  | string | boolean | number => cases hs; exact hg
  | undefined | null => cases hs

variable {env : Handle} {name : String} {value : Value}

theorem environment {outer : Handle} {around : Environment} (hg : h.Grows n h') (ht : h'.Tidy)
    (ho : h'.environment? outer = some around) : h.Grows n (Environment.alloc h' none (some outer)).2 := by
  obtain ⟨s, hs, hcell⟩ := slot_of_environment? ho
  have hscope : (h'.allocObject (.of .plain)).2.environment? outer = some around :=
    environment?_of_slot (slot?_alloc_of_live ht _ hs) hcell
  exact Grows.alloc (hg.allocObject rfl) (founded_of_base rfl hscope)

theorem define (hg : h.Grows n h') (hd : Environment.define h' env name value = .ok h'') : h.Grows n h'' := by
  simp only [Environment.define, bind_eq_ok] at hd
  obtain ⟨v, _, hv⟩ := hd
  split at hv
  · rename_i hi
    cases hv
    exact hg.insertProperty? hi
  · exact absurd hv throw_ne_ok

theorem declare (hg : h.Grows n h') (hd : Environment.declare h' env name = .ok h'') : h.Grows n h'' := by
  simp only [Environment.declare, bind_eq_ok] at hd
  obtain ⟨own, _, ho⟩ := hd
  split at ho
  · cases ho
    exact hg
  · exact hg.define ho

theorem assign {strict : Bool} (hg : h.Grows n h') (ha : Environment.assign h' env name value strict = .ok h'') :
    h.Grows n h'' := by
  simp only [Environment.assign, bind_eq_ok] at ha
  obtain ⟨binder, _, hb⟩ := ha
  cases binder with
  | bound scope => exact hg.define hb
  | outermost scope =>
    simp only at hb
    split at hb
    · exact absurd hb throw_ne_ok
    · exact hg.define hb

theorem numbers (last names : Handle) (hg : h.Grows k h') : ∃ j ≤ k, h'.epoch = epochAfter h.epoch j ∧
    (h.Tidy → h'.Tidy) ∧ ∀ n, h.Dated n → n + j + 1 < 2 ^ 32 → h'.Dated (n + j) ∧
      (h.Tidy → h.Descends last names → h'.Descends last names) := by
  induction hg with
  | refl => exact ⟨0, Nat.zero_le _, rfl, id, fun n hn _ => ⟨hn, fun _ => id⟩⟩
  | @alloc k h' cell _ hc ih =>
    obtain ⟨j, hj, he, ht, hd⟩ := ih
    refine ⟨j, hj, ?_, fun h₀ => (ht h₀).alloc cell, fun n h₀ hn => ?_⟩
    · rw [← he]
      simp only [Heap.alloc]
      split <;> rfl
    · obtain ⟨hdated, hdescends⟩ := hd n h₀ hn
      exact ⟨hdated.alloc cell, fun htidy h₁ => (hdescends htidy h₁).alloc (ht htidy) hc⟩
  | write properties _ hs ih =>
    obtain ⟨j, hj, he, ht, hd⟩ := ih
    refine ⟨j, hj, he, fun h₀ => (ht h₀).write hs, fun n h₀ hn => ?_⟩
    obtain ⟨hdated, hdescends⟩ := hd n h₀ hn
    exact ⟨hdated.write hs rfl, fun htidy h₁ => (hdescends htidy h₁).write properties hs⟩
  | collect since roots _ ih =>
    obtain ⟨j, hj, he, ht, hd⟩ := ih
    refine ⟨j + 1, by omega, ?_, fun h₀ => (ht h₀).collectSince since roots, fun n h₀ hn => ?_⟩
    · rw [epochAfter, ← he]
      rfl
    · obtain ⟨hdated, hdescends⟩ := hd n h₀ (by omega)
      have hunnumbered := hdated.unnumbered (by omega)
      exact ⟨hdated.collectSince (by omega) since roots, fun htidy h₁ =>
        (hdescends htidy h₁).collectSince hunnumbered since roots⟩

end Grows

theorem Descends.grows (hd : h.Descends last names) (hs : h.Sound n) (hg : h.Grows 2 h')
    (hn : n + h.collectionsTo h' + 1 < 2 ^ 32) : h'.Descends last names := by
  obtain ⟨j, hj, hepoch, -, hrest⟩ := hg.numbers last names
  have hle : j ≤ h.collectionsTo h' := by
    rw [collectionsTo, hepoch]
    exact le_epochAfter_sub (by rw [hs.dated.epoch]; omega) hj
  exact (hrest n hs.dated (by omega)).2 hs.tidy hd

end Heap

end ScriptEngine
