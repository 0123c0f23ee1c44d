import ScriptEngine.Proofs.Heap.Descent

namespace ScriptEngine

theorem PropertyMap.insert_new {α : Type} {name : String} {m : PropertyMap α} (h : m.get? name = none) (value : α) :
    m.insert name value = m ++ [(name, value)] := by
  induction m with
  | nil => rfl
  | cons p m ih =>
    obtain ⟨n, a⟩ := p
    simp only [get?] at h
    split at h
    · cases h
    · next hn => rw [insert, if_neg hn, ih h, List.cons_append]

inductive Heap.Outwards (h : Heap) (last : Handle) : Handle → List (Handle × Nat) → Prop
  | last {mark : UInt32} {born : Nat} {names : Handle} :
      h.slot? last = some ⟨mark, born, .environment ⟨names, none⟩⟩ → Outwards h last last [(last, born)]
  | outer {a b : Handle} {mark : UInt32} {born : Nat} {names : Handle} {path : List (Handle × Nat)} :
      h.slot? a = some ⟨mark, born, .environment ⟨names, some b⟩⟩ → Outwards h last b path →
      Outwards h last a ((a, born) :: path)

namespace Heap

variable {h : Heap} {last names a : Handle} {name : String}

theorem Descends.outwards (hd : h.Descends last names) {s : Slot} {env : Environment} (hs : h.slot? a = some s)
    (hc : s.cell = .environment env) :
    ∃ path, h.Outwards last a ((a, s.born) :: path) ∧ (((a, s.born) :: path).map (·.2)).Pairwise (· > ·) ∧
      path.length ≤ s.born := by
  induction hborn : s.born using Nat.strongRecOn generalizing a s env with
  | ind born ih =>
    obtain ⟨mark, _, _⟩ := s
    obtain rfl := hborn
    obtain rfl := hc
    obtain ⟨v, outer⟩ := env
    cases outer with
    | none =>
      obtain ⟨rfl, -⟩ := hd.last a _ v hs rfl
      exact ⟨[], .last hs, List.pairwise_singleton _ _, Nat.zero_le _⟩
    | some b =>
      obtain ⟨t, around, ht, hcell, hlt⟩ := hd.older a _ b hs rfl
      obtain ⟨path, hpath, hsorted, hlength⟩ := ih t.born hlt ht hcell rfl
      refine ⟨(b, t.born) :: path, .outer hs hpath, ?_, ?_⟩
      · rw [List.map_cons, List.pairwise_cons]
        refine ⟨fun k hk => ?_, hsorted⟩
        rw [List.map_cons, List.pairwise_cons] at hsorted
        rcases List.mem_cons.mp hk with rfl | hk
        · exact hlt
        · exact Nat.lt_trans (hsorted.1 k hk) hlt
      · exact Nat.lt_of_le_of_lt hlength hlt

theorem Outwards.ends {path : List (Handle × Nat)} (hp : h.Outwards last a path) :
    ∃ mark born v, h.slot? last = some ⟨mark, born, .environment ⟨v, none⟩⟩ := by
  induction hp with
  | last hs => exact ⟨_, _, _, hs⟩
  | outer _ _ ih => exact ih

end Heap

namespace Environment

open Heap

variable {h : Heap} {last names a : Handle} {name : String} {path : List (Handle × Nat)}

def own? (h : Heap) (name : String) (a : Handle) : Option Value :=
  (h.environment? a).bind fun env => (h.object? env.names).bind (·.properties.get? name)

theorem hasOwn_eq {env : Environment} (he : h.environment? a = some env) :
    hasOwn h a name = .ok (own? h name a).isSome := by
  have hown : hasOwn h a name = .ok ((h.object? env.names).any (·.properties.has name)) := by
    simp only [hasOwn, bindings, he]
    rfl
  simp only [hown, own?, he, Option.bind_some]
  cases h.object? env.names <;> rfl

theorem lookupWithin_eq (hp : h.Outwards last a path) {fuel : Nat} (hf : path.length ≤ fuel) :
    lookupWithin h name fuel a = path.findSome? (own? h name ·.1) := by
  induction hp generalizing fuel with
  | @last mark born v hs =>
    obtain ⟨fuel, rfl⟩ : ∃ k, fuel = k + 1 := ⟨fuel - 1, by simp at hf; omega⟩
    have he := environment?_of_slot hs rfl
    simp only [lookupWithin, he, List.findSome?_cons, List.findSome?_nil, own?, Option.bind_some]
    cases (h.object? v).bind (·.properties.get? name) <;> rfl
  | @outer a b mark born v path hs _ ih =>
    obtain ⟨fuel, rfl⟩ : ∃ k, fuel = k + 1 := ⟨fuel - 1, by simp at hf; omega⟩
    have he := environment?_of_slot hs rfl
    simp only [lookupWithin, he, List.findSome?_cons, own?, Option.bind_some]
    rw [ih (Nat.le_of_succ_le_succ hf)]
    cases (h.object? v).bind (·.properties.get? name) <;> rfl

theorem binderWithin_eq (hp : h.Outwards last a path) {fuel : Nat} (hf : path.length ≤ fuel) :
    binderWithin h name fuel a =
      .ok ((path.find? fun p => (own? h name p.1).isSome).elim (.outermost last) (.bound ·.1)) := by
  induction hp generalizing fuel with
  | @last mark born v hs =>
    obtain ⟨fuel, rfl⟩ : ∃ k, fuel = k + 1 := ⟨fuel - 1, by simp at hf; omega⟩
    have he := environment?_of_slot hs rfl
    simp only [binderWithin, hasOwn_eq he, he, List.find?_cons, List.find?_nil]
    cases (own? h name last).isSome <;> rfl
  | @outer a b mark born v path hs _ ih =>
    obtain ⟨fuel, rfl⟩ : ∃ k, fuel = k + 1 := ⟨fuel - 1, by simp at hf; omega⟩
    have he := environment?_of_slot hs rfl
    have hrest := ih (Nat.le_of_succ_le_succ hf)
    simp only [binderWithin, hasOwn_eq he, he, List.find?_cons]
    cases (own? h name a).isSome
    · exact hrest
    · rfl

theorem mem_last (hp : h.Outwards last a path) : ∃ born, (last, born) ∈ path := by
  induction hp with
  | last hs => exact ⟨_, List.mem_singleton_self _⟩
  | outer _ _ ih =>
    obtain ⟨born, hmem⟩ := ih
    exact ⟨born, List.mem_cons_of_mem _ hmem⟩

theorem assign_unbound (hd : h.Descends last names) (hp : h.Outwards last a path) (hlength : path.length ≤ h.chainLimit)
    {mark : UInt32} {born : Nat} {o : Object} (ho : h.slot? names = some ⟨mark, born, .object o⟩)
    (hl : lookup h a name = none) (value : Value) :
    o.properties.get? name = none ∧ assign h a name value false =
      .ok (h.setSlot names ⟨mark, born, .object { o with properties := o.properties ++ [(name, value)] }⟩) := by
  have hunbound : ∀ p ∈ path, own? h name p.1 = none := by
    rw [lookup, lookupWithin_eq hp hlength] at hl
    exact List.findSome?_eq_none_iff.mp hl
  obtain ⟨mark', born', v, hlast⟩ := hp.ends
  obtain ⟨-, rfl⟩ := hd.last last _ v hlast rfl
  have henv : h.environment? last = some ⟨v, none⟩ := environment?_of_slot hlast rfl
  have hobject : h.object? v = some o := by simp only [object?, cell?, ho, Option.map_some]
  have hnew : o.properties.get? name = none := by
    obtain ⟨_, hmem⟩ := mem_last hp
    have hown := hunbound _ hmem
    simpa only [own?, henv, hobject, Option.bind_some] using hown
  have hbinder : binderWithin h name h.chainLimit a = .ok (.outermost last) := by
    have hnone : path.find? (fun p => (own? h name p.1).isSome) = none := by
      rw [List.find?_eq_none]
      intro p hmem
      simp [hunbound p hmem]
    rw [binderWithin_eq hp hlength, hnone]
    rfl
  have hdefine : define h last name value =
      .ok (h.setSlot v ⟨mark, born, .object { o with properties := o.properties ++ [(name, value)] }⟩) := by
    have hinsert : h.insertProperty? v name value = some (h.setSlot v ⟨mark, born, .object { o with
        properties := o.properties ++ [(name, value)] }⟩) := by
      simp only [insertProperty?, ho, PropertyMap.insert_new hnew]
    rw [define, bind_eq_ok]
    exact ⟨v, by simp only [bindings, henv], by rw [hinsert]; rfl⟩
  refine ⟨hnew, ?_⟩
  simp only [assign, hbinder]
  exact hdefine

end Environment

end ScriptEngine
