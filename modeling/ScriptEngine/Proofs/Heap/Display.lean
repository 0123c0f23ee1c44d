import Mathlib.Data.List.Nodup
import Mathlib.Data.List.Perm.Subperm
import Mathlib.Logic.Relation
import ScriptEngine.Proofs.Heap.Likeness

namespace ScriptEngine.Heap

variable {h h' : Heap} {a b : Handle} {v : Value} {n : Nat}

def errorText (name message : Option String) : String :=
  if (message.getD "").isEmpty then name.getD "Error" else name.getD "Error" ++ ": " ++ message.getD ""

theorem displayWithin_error {parent : Option Handle} {properties : PropertyMap Value}
    (ho : h.object? a = some ⟨.error, parent, properties⟩) (n : Nat) :
    h.displayWithin (n + 1) (.object a) = errorText (h.readText n (h.getProperty (.object a) "name"))
      (h.readText n (h.getProperty (.object a) "message")) := by
  simp only [displayWithin, ho]
  rfl

theorem display_error {parent : Option Handle} {properties : PropertyMap Value} {name message : String}
    (ho : h.object? a = some ⟨.error, parent, properties⟩)
    (hn : properties.get? "name" = some (.string name)) (hm : properties.get? "message" = some (.string message))
    (hne : message ≠ "") : h.display (.object a) = name ++ ": " ++ message := by
  have hread (key text : String) (hk : properties.get? key = some (.string text)) :
      h.readText h.born (h.getProperty (.object a) key) = some text := by
    have hf : h.findProperty key h.chainLimit a = some (.string text) := by
      simp only [findProperty, chainLimit, ho, hk]
    simp only [getProperty, hf, Option.getD_some, readText]
    cases h.born <;> rfl
  rw [display, chainLimit, displayWithin_error ho, hread "name" name hn, hread "message" message hm]
  simp [errorText, hne]

def Mentions (h : Heap) (a b : Handle) : Prop :=
  ∃ parent properties key, h.object? a = some ⟨.error, parent, properties⟩ ∧ (key = "name" ∨ key = "message") ∧
    h.getProperty (.object a) key = .ok (.object b)

def Unknotted (h : Heap) : Prop :=
  ∀ a, ¬ Relation.TransGen h.Mentions a a

def mentionsBefore (h : Heap) : Bool :=
  (List.range h.slots.size).all fun i => ["name", "message"].all fun key =>
    match h.getProperty (.object ⟨i⟩) key with
    | .ok (.object b) => b.index < i
    | _ => true

theorem index_lt_of_object? {o : Object} (ho : h.object? a = some o) : a.index < h.slots.size := by
  obtain ⟨s, hs, -⟩ := slot?_of_cell? (object?_eq_some.mp ho)
  exact index_lt_of_slot? hs

theorem unknotted_of_mentionsBefore (hb : h.mentionsBefore = true) : h.Unknotted := by
  have hstep {a b : Handle} (hm : h.Mentions a b) : b.index < a.index := by
    obtain ⟨parent, properties, key, ho, hk, hg⟩ := hm
    have hslot := List.all_eq_true.mp hb a.index (List.mem_range.mpr (index_lt_of_object? ho))
    have hkey := List.all_eq_true.mp hslot key (by simpa using hk)
    rw [hg] at hkey
    exact of_decide_eq_true hkey
  have hlt {a b : Handle} (hm : Relation.TransGen h.Mentions a b) : b.index < a.index := by
    induction hm with
    | single hm => exact hstep hm
    | tail _ hm ih => exact Nat.lt_trans (hstep hm) ih
  exact fun a ha => Nat.lt_irrefl _ (hlt ha)

theorem length_le_of_nodup {visited : List Handle} (hn : visited.Nodup) (hv : ∀ b ∈ visited, b.index < h.slots.size) :
    visited.length ≤ h.slots.size := by
  have hinjective : Function.Injective Handle.index := by
    rintro ⟨i⟩ ⟨j⟩ rfl
    rfl
  have hindices : (visited.map Handle.index).Nodup := List.Nodup.map hinjective hn
  have hsub : visited.map Handle.index ⊆ List.range h.slots.size := by
    intro i hi
    obtain ⟨b, hb, rfl⟩ := List.mem_map.mp hi
    exact List.mem_range.mpr (hv b hb)
  simpa using (List.subperm_of_subset hindices hsub).length_le

theorem displayWithin_add (hu : h.Unknotted) {visited : List Handle} (hn : visited.Nodup)
    (hv : ∀ b ∈ visited, b.index < h.slots.size)
    (hd : ∀ b ∈ visited, ∀ a, v.handle? = some a → Relation.TransGen h.Mentions b a)
    (hs : h.slots.size < visited.length + n) (more : Nat) : h.displayWithin (n + more) v = h.displayWithin n v := by
  -- The error objects that were passed on the way down are kept in a list; the next one is not among
  -- them, so that with the depth used up there would be too many.
  induction n generalizing v visited with
  | zero => exact absurd (length_le_of_nodup hn hv) (Nat.not_le.mpr hs)
  | succ n ih =>
    rw [Nat.add_right_comm]
    cases v with
    | undefined | null | boolean | number | string => rfl
    | object a =>
      cases ho : h.object? a with
      | none => simp only [displayWithin, ho]
      | some o =>
        obtain ⟨kind, parent, properties⟩ := o
        cases kind with
        | plain | closure | native => simp only [displayWithin, ho]
        | error =>
          have hnew : a ∉ visited := fun ha => hu a (hd a ha a rfl)
          have hpart (key : String) (hk : key = "name" ∨ key = "message") :
              h.readText (n + more) (h.getProperty (.object a) key) = h.readText n (h.getProperty (.object a) key) := by
            cases hg : h.getProperty (.object a) key with
            | error f => rfl
            | ok w =>
              have hw : h.displayWithin (n + more) w = h.displayWithin n w := by
                have hpassed : (a :: visited).Nodup := List.nodup_cons.mpr ⟨hnew, hn⟩
                refine ih hpassed ?_ ?_ ?_
                · simp only [List.mem_cons, forall_eq_or_imp]
                  exact ⟨index_lt_of_object? ho, hv⟩
                · intro b hb c hc
                  obtain rfl : w = .object c := by cases w <;> cases hc; rfl
                  have hstep : h.Mentions a c := ⟨parent, properties, key, ho, hk, hg⟩
                  rcases List.mem_cons.mp hb with rfl | hb
                  · exact .single hstep
                  · exact (hd b hb a rfl).tail hstep
                · rw [List.length_cons]
                  omega
              cases w <;> simp only [readText, hw]
          rw [displayWithin_error ho, displayWithin_error ho, hpart "name" (.inl rfl), hpart "message" (.inr rfl)]

theorem display_eq_of_unknotted (hu : h.Unknotted) (hs : h.slots.size ≤ h.born) (hn : h.chainLimit ≤ n) (v : Value) :
    h.displayWithin n v = h.display v := by
  obtain ⟨more, rfl⟩ := Nat.exists_eq_add_of_le hn
  refine displayWithin_add hu List.nodup_nil nofun nofun ?_ more
  simp only [List.length_nil, chainLimit]
  omega

theorem size_mark (epoch : UInt32) (slots : Array (Option Slot)) (pending : List Handle) :
    (mark epoch slots pending).size = slots.size := by
  fun_induction mark epoch slots pending with
  | case1 => rfl
  | case2 slots a rest hi hs ih => exact ih
  | case3 slots a rest hi s hs hm ih => exact ih
  | case4 slots a rest hi s hs hm ih => rw [ih, Array.size_set]
  | case5 slots a rest hi ih => exact ih

theorem Evolves.size_le (he : h.Evolves n h') (hs : h.slots.size ≤ h.born) : h'.slots.size ≤ h'.born := by
  induction he with
  | refl => exact hs
  | @alloc _ h' cell _ _ ih =>
    rw [born_alloc]
    cases hf : h'.free with
    | nil => simpa [Heap.alloc, hf] using ih
    | cons i free => simpa [Heap.alloc, hf] using Nat.le_succ_of_le ih
  | write properties _ _ ih => simpa [setSlot] using ih
  | collect since roots _ ih => simpa [collectSince, size_mark] using ih

end ScriptEngine.Heap
