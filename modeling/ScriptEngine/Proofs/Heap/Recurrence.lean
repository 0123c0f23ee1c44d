import ScriptEngine.Proofs.Heap.Books
import ScriptEngine.Proofs.Heap.Currency

/-!
Collections when their numbers start over. A round has 2 ^ 32 - 1 numbers, so a cell that no root has led to
for a whole round but one bears the number of the next collection. If the roots of that collection lead
to it again, it passes for marked, and the cells that only it refers to are freed. This is the only way for
a collection to go wrong, however many there are: in each history all collections keep what their roots
reach, or the roots of one have led back to a cell that was left alone for that long. A full collection
leaves no such cell, so one among any 2 ^ 32 - 2 is enough.
-/

namespace ScriptEngine.Heap

section Histories

inductive Event where
  | alloc (cell : Cell)
  | change (a : Handle) (o : Object)
  | collect (since : Nat) (roots : List Handle)

def change (h : Heap) (a : Handle) (o : Object) : Heap :=
  match h.slot? a with
  | some ⟨mark, born, .object _⟩ => h.setSlot a ⟨mark, born, .object o⟩
  | _ => h

def after : List Event → Heap
  | [] => .empty
  | .alloc cell :: past => ((after past).alloc cell).2
  | .change a o :: past => (after past).change a o
  | .collect since roots :: past => ((after past).collectSince since roots).2

/-- So many collections have found the cell out of reach since it was made or since roots led to it. -/
inductive Idle (a : Handle) : Nat → List Event → Prop
  | made {past : List Event} {cell : Cell} : ((after past).alloc cell).1 = a → Idle a 0 (.alloc cell :: past)
  | reached {past : List Event} {since : Nat} {roots : List Handle} :
      (after past).Reaches roots a → Idle a 0 (.collect since roots :: past)
  | alloc {past : List Event} {k : Nat} {cell : Cell} :
      Idle a k past → ((after past).alloc cell).1 ≠ a → Idle a k (.alloc cell :: past)
  | change {past : List Event} {k : Nat} {b : Handle} {o : Object} : Idle a k past → Idle a k (.change b o :: past)
  | missed {past : List Event} {k since : Nat} {roots : List Handle} :
      Idle a k past → ¬ (after past).Reaches roots a → Idle a (k + 1) (.collect since roots :: past)

def sinceFull : List Event → Nat
  | [] => 0
  | .collect 0 _ :: _ => 0
  | .collect (_ + 1) _ :: past => sinceFull past + 1
  | .alloc _ :: past | .change _ _ :: past => sinceFull past

def Keeps (h : Heap) (since : Nat) (roots : List Handle) : Prop :=
  ∀ a, h.Reaches roots a → ((h.collectSince since roots).2.slot? a).map Slot.content = (h.slot? a).map Slot.content

/-- The roots lead to a cell that has been out of reach for whole rounds of numbers but one. -/
def Revives (past : List Event) (roots : List Handle) : Prop :=
  ∃ a k, (after past).Reaches roots a ∧ (after past).contains a = true ∧ Idle a k past ∧ 2 ^ 32 - 1 ∣ k + 1

def Throughout (P : List Event → Nat → List Handle → Prop) (events : List Event) : Prop :=
  ∀ past since roots, .collect since roots :: past <:+ events → P past since roots

variable {events past : List Event} {event : Event} {a : Handle} {since : Nat} {roots : List Handle}

namespace Throughout

variable {P Q : List Event → Nat → List Handle → Prop}

theorem suffix (h : Throughout P events) (hs : past <:+ events) : Throughout P past :=
  fun past since roots hc => h past since roots (hc.trans hs)

theorem tail (h : Throughout P (event :: past)) : Throughout P past :=
  h.suffix (List.suffix_cons event past)

theorem head (h : Throughout P (.collect since roots :: past)) : P past since roots :=
  h past since roots (List.suffix_refl _)

theorem derive (h : Throughout P events)
    (hstep : ∀ past since roots, Throughout P past → P past since roots → Q past since roots) : Throughout Q events := by
  intro past since roots hc
  apply hstep
  · exact h.suffix ((List.suffix_cons _ past).trans hc)
  · exact h past since roots hc

end Throughout

theorem mark_change (h : Heap) (a b : Handle) (o : Object) :
    ((h.change a o).slot? b).map Slot.mark = (h.slot? b).map Slot.mark := by
  unfold change
  split
  · rename_i mark born o' hs
    rw [slot?_setSlot]
    split
    · rename_i hb
      rw [← hb.1, hs]
      rfl
    · rfl
  · rfl

theorem epoch_change (h : Heap) (a : Handle) (o : Object) : (h.change a o).epoch = h.epoch := by
  unfold change
  split <;> rfl

theorem contains_change (h : Heap) (a b : Handle) (o : Object) : (h.change a o).contains b = h.contains b := by
  simpa [contains] using congrArg Option.isSome (mark_change h a b o)

theorem made_after (events : List Event) : ∃ n, (after events).Made n := by
  induction events with
  | nil => exact ⟨0, .empty⟩
  | cons event past ih =>
    obtain ⟨n, hm⟩ := ih
    cases event with
    | alloc cell => exact ⟨n, hm.alloc cell⟩
    | change a o =>
      refine ⟨n, ?_⟩
      show ((after past).change a o).Made n
      unfold Heap.change
      split
      · rename_i hs
        exact hm.change o hs
      · exact hm
    | collect since roots => exact ⟨n + 1, hm.collect since roots⟩

theorem tidy_after (events : List Event) : (after events).Tidy := by
  obtain ⟨n, hm⟩ := made_after events
  exact hm.tidy

theorem exists_idle (ha : (after events).contains a = true) : ∃ k, Idle a k events := by
  induction events with
  | nil => simp [after, contains, slot?, Heap.empty] at ha
  | cons event past ih =>
    cases event with
    | alloc cell =>
      by_cases hnew : ((after past).alloc cell).1 = a
      · exact ⟨0, .made hnew⟩
      · rw [contains, after, slot?_alloc_other _ _ (Ne.symm hnew)] at ha
        obtain ⟨k, hk⟩ := ih ha
        exact ⟨k, hk.alloc hnew⟩
    | change b o =>
      rw [after, contains_change] at ha
      obtain ⟨k, hk⟩ := ih ha
      exact ⟨k, hk.change⟩
    | collect since roots =>
      by_cases hr : (after past).Reaches roots a
      · exact ⟨0, .reached hr⟩
      · obtain ⟨k, hk⟩ := ih (contains_of_collectSince ha)
        exact ⟨k + 1, hk.missed hr⟩

end Histories

section Rounds

theorem toNat_epochAfter {epoch : UInt32} (he : 1 ≤ epoch.toNat) (k : Nat) :
    (epochAfter epoch k).toNat = (epoch.toNat - 1 + k) % (2 ^ 32 - 1) + 1 := by
  induction k with
  | zero =>
    have hlt := epoch.toNat_lt
    rw [epochAfter]
    omega
  | succ k ih =>
    rw [epochAfter, toNat_nextEpoch, ih]
    split <;> omega

theorem dvd_of_epochAfter_eq {epoch : UInt32} {k : Nat} (h : epochAfter epoch (k + 1) = epoch) :
    2 ^ 32 - 1 ∣ k + 1 := by
  have he : 1 ≤ epoch.toNat := by
    rw [← h, epochAfter, toNat_nextEpoch]
    split <;> omega
  have hlt := epoch.toNat_lt
  have hagain := toNat_epochAfter he (k + 1)
  rw [h] at hagain
  omega

end Rounds

section Numbers

variable {events past : List Event} {a : Handle} {k since : Nat} {roots : List Handle}

def Numbered (events : List Event) : Prop :=
  ∀ a k s, Idle a k events → (after events).slot? a = some s → (after events).epoch = epochAfter s.mark k

namespace Numbered

theorem dvd (hn : Numbered past) {s : Slot} (hk : Idle a k past) (hs : (after past).slot? a = some s)
    (hm : s.mark = nextEpoch (after past).epoch) : 2 ^ 32 - 1 ∣ k + 1 := by
  apply dvd_of_epochAfter_eq
  rw [epochAfter, ← hn a k s hk hs]
  exact hm.symm

theorem unmarked (hn : Numbered past) (hr : ¬ Revives past roots) (b : Handle) (t : Slot)
    (hb : (after past).Reaches roots b) (ht : (after past).slot? b = some t) :
    t.mark ≠ nextEpoch (after past).epoch := by
  intro hm
  have hlive := contains_iff.mpr ⟨t, ht⟩
  obtain ⟨k, hk⟩ := exists_idle hlive
  exact hr ⟨b, k, hb, hlive, hk, hn.dvd hk ht hm⟩

theorem keeps (hn : Numbered past) (hr : ¬ Revives past roots) : (after past).Keeps since roots := by
  intro a ha
  rw [slot?_collected_of_unmarked (hn.unmarked hr) ha, Option.map_map]
  rfl

theorem alloc (hn : Numbered past) (cell : Cell) : Numbered (.alloc cell :: past) := by
  intro a k s hk hs
  rw [after] at hs ⊢
  rw [epoch_alloc]
  cases hk with
  | made hnew =>
    rw [← hnew, slot?_alloc_new (tidy_after past)] at hs
    obtain rfl := Option.some.inj hs
    rfl
  | alloc hk hne =>
    rw [slot?_alloc_other _ _ (Ne.symm hne)] at hs
    exact hn a k s hk hs

theorem change (hn : Numbered past) (b : Handle) (o : Object) : Numbered (.change b o :: past) := by
  intro a k s hk hs
  cases hk with
  | change hk =>
    have hmark := mark_change (after past) b a o
    rw [after] at hs ⊢
    rw [hs] at hmark
    obtain ⟨t, ht, hm⟩ := Option.map_eq_some_iff.mp hmark.symm
    rw [epoch_change, ← hm]
    exact hn a k t hk ht

theorem collect (hn : Numbered past) (hr : ¬ Revives past roots) : Numbered (.collect since roots :: past) := by
  intro a k s hk hs
  rw [after] at hs
  cases hk with
  | reached ha =>
    rw [slot?_collected_of_unmarked (hn.unmarked hr) ha] at hs
    obtain ⟨t, -, rfl⟩ := Option.map_eq_some_iff.mp hs
    rfl
  | @missed _ k _ _ hk ha =>
    rw [slot?_collected_of_missed ha, Option.filter_eq_some_iff] at hs
    show nextEpoch (after past).epoch = nextEpoch (epochAfter s.mark k)
    rw [hn a k s hk hs.1]

end Numbered

theorem numbered_of_unrevived (h : Throughout (fun past _ roots => ¬ Revives past roots) events) :
    Numbered events := by
  induction events with
  | nil =>
    intro a k s hk
    cases hk
  | cons event past ih =>
    have hn := ih h.tail
    cases event with
    | alloc cell => exact hn.alloc cell
    | change a o => exact hn.change a o
    | collect since roots => exact hn.collect h.head

theorem keeps_of_unrevived (h : Throughout (fun past _ roots => ¬ Revives past roots) events) :
    Throughout (fun past since roots => (after past).Keeps since roots) events := by
  refine h.derive ?_
  intro past since roots hpast hr
  exact (numbered_of_unrevived hpast).keeps hr

end Numbers

section Sweeps

variable {events past : List Event} {a : Handle} {k since : Nat} {roots : List Handle}

/-- No cell has been out of reach for longer than since the last full collection, which would have freed it. -/
structure Swept (events : List Event) : Prop where
  numbered : Numbered events
  le : ∀ a k, Idle a k events → (after events).contains a = true → k ≤ sinceFull events

namespace Swept

theorem not_dvd (hs : Swept past) (hlt : sinceFull past < 2 ^ 32 - 2) (hk : Idle a k past)
    (ha : (after past).contains a = true) : ¬ 2 ^ 32 - 1 ∣ k + 1 := by
  intro hdvd
  have hround := Nat.le_of_dvd (Nat.succ_pos k) hdvd
  have hle := hs.le a k hk ha
  omega

theorem not_revives (hs : Swept past) (hlt : sinceFull past < 2 ^ 32 - 2) : ¬ Revives past roots := by
  rintro ⟨a, k, -, ha, hk, hdvd⟩
  exact hs.not_dvd hlt hk ha hdvd

theorem unnumbered (hs : Swept past) (hlt : sinceFull past < 2 ^ 32 - 2) : (after past).Unnumbered := by
  intro a s ha hm
  have hlive := contains_iff.mpr ⟨s, ha⟩
  obtain ⟨k, hk⟩ := exists_idle hlive
  exact hs.not_dvd hlt hk hlive (hs.numbered.dvd hk ha hm)

theorem alloc (hs : Swept past) (cell : Cell) : Swept (.alloc cell :: past) := by
  constructor
  · exact hs.numbered.alloc cell
  · intro a k hk ha
    cases hk with
    | made => exact Nat.zero_le _
    | alloc hk hne =>
      rw [contains, after, slot?_alloc_other _ _ (Ne.symm hne)] at ha
      exact hs.le a k hk ha

theorem change (hs : Swept past) (b : Handle) (o : Object) : Swept (.change b o :: past) := by
  constructor
  · exact hs.numbered.change b o
  · intro a k hk ha
    cases hk with
    | change hk =>
      rw [after, contains_change] at ha
      exact hs.le a k hk ha

theorem collect (hs : Swept past) (hlt : sinceFull past < 2 ^ 32 - 2) : Swept (.collect since roots :: past) := by
  constructor
  · exact hs.numbered.collect (hs.not_revives hlt)
  · intro a k hk ha
    cases hk with
    | reached => exact Nat.zero_le _
    | @missed _ k _ _ hk hr =>
      cases since with
      | zero =>
        -- A full collection spares no cell for its age, so one that it missed would be gone.
        obtain ⟨s, hkept⟩ := contains_iff.mp ha
        rw [after, slot?_collected_of_not_reaches (hs.unnumbered hlt) hr, Option.filter_eq_some_iff] at hkept
        simp at hkept
      | succ since =>
        apply Nat.succ_le_succ
        exact hs.le a k hk (contains_of_collectSince ha)

end Swept

theorem swept_of_full (h : Throughout (fun past _ _ => sinceFull past < 2 ^ 32 - 2) events) : Swept events := by
  induction events with
  | nil =>
    constructor
    · intro a k s hk
      cases hk
    · intro a k hk
      cases hk
  | cons event past ih =>
    have hs := ih h.tail
    cases event with
    | alloc cell => exact hs.alloc cell
    | change a o => exact hs.change a o
    | collect since roots => exact hs.collect h.head

theorem unrevived_of_full (h : Throughout (fun past _ _ => sinceFull past < 2 ^ 32 - 2) events) :
    Throughout (fun past _ roots => ¬ Revives past roots) events := by
  refine h.derive ?_
  intro past since roots hpast hlt
  exact (swept_of_full hpast).not_revives hlt

end Sweeps

/-- In a history of any length each collection leaves all that its roots reach as it is, unless the roots of
one lead back to a cell that was out of reach for whole rounds of numbers but one. That cannot be if there are
always less than 2 ^ 32 - 2 collections since the last full one, or since the start. -/
theorem kept_unless_revived (events : List Event) :
    (Throughout (fun past since roots => (after past).Keeps since roots) events ∨
      ∃ past since roots, .collect since roots :: past <:+ events ∧ Revives past roots) ∧
    (Throughout (fun past _ _ => sinceFull past < 2 ^ 32 - 2) events →
      Throughout (fun past since roots => (after past).Keeps since roots) events) := by
  constructor
  · by_cases hr : ∃ past since roots, .collect since roots :: past <:+ events ∧ Revives past roots
    · exact .inr hr
    · left
      apply keeps_of_unrevived
      intro past since roots hc hrevives
      exact hr ⟨past, since, roots, hc, hrevives⟩
  · intro hfull
    exact keeps_of_unrevived (unrevived_of_full hfull)

def leadingTo (a : Handle) : Object :=
  ⟨.plain, none, [("next", .object a)]⟩

theorem reaches_of_leadingTo {h : Heap} {a b : Handle} {s : Slot} (hs : h.slot? a = some s)
    (hc : s.cell = .object (leadingTo b)) : h.Reaches [a] b := by
  apply Reaches.link (.root (.head _)) hs
  rw [hc]
  exact .head _

def tended (k : Nat) : List Event :=
  List.replicate k (.collect 0 [⟨0⟩]) ++
    [.change ⟨0⟩ (leadingTo ⟨1⟩), .alloc (.object (.of .plain)), .alloc (.object (.of .plain))]

theorem tended_succ (k : Nat) : tended (k + 1) = .collect 0 [⟨0⟩] :: tended k :=
  rfl

theorem sinceFull_tended (k : Nat) : sinceFull (tended k) = 0 := by
  cases k with
  | zero => rfl
  | succ k => rw [tended_succ, sinceFull]

theorem full_tended (k : Nat) : Throughout (fun past _ _ => sinceFull past < 2 ^ 32 - 2) (tended k) := by
  induction k with
  | zero =>
    intro past since roots hc
    have hmem := hc.subset (.head _)
    simp [tended] at hmem
  | succ k ih =>
    intro past since roots hc
    rw [tended_succ] at hc
    rcases List.suffix_cons_iff.mp hc with he | hc
    · obtain ⟨-, rfl⟩ := List.cons.inj he
      rw [sinceFull_tended]
      decide
    · exact ih past since roots hc

theorem content_tended {k : Nat} (h : Throughout (fun past since roots => (after past).Keeps since roots) (tended k)) :
    ((after (tended k)).slot? ⟨0⟩).map Slot.content = some (0, .object (leadingTo ⟨1⟩)) ∧
      ((after (tended k)).slot? ⟨1⟩).map Slot.content = some (1, .object (.of .plain)) := by
  induction k with
  | zero => exact ⟨rfl, rfl⟩
  | succ k ih =>
    rw [tended_succ] at h ⊢
    obtain ⟨hfirst, hsecond⟩ := ih h.tail
    obtain ⟨s, hs, hcontent⟩ := Option.map_eq_some_iff.mp hfirst
    have hreach : (after (tended k)).Reaches [⟨0⟩] ⟨1⟩ := reaches_of_leadingTo hs (congrArg Prod.snd hcontent)
    have hkeeps := h.head
    constructor
    · exact (hkeeps ⟨0⟩ (.root (.head _))).trans hfirst
    · exact (hkeeps ⟨1⟩ hreach).trans hsecond

theorem kept_unless_revived_of_tended :
    Throughout (fun past _ _ => sinceFull past < 2 ^ 32 - 2) (tended (2 ^ 32)) ∧
      Throughout (fun past since roots => (after past).Keeps since roots) (tended (2 ^ 32)) ∧
      (after (tended (2 ^ 32))).contains ⟨1⟩ = true := by
  have hfull := full_tended (2 ^ 32)
  have hkept := (kept_unless_revived (tended (2 ^ 32))).2 hfull
  obtain ⟨-, hsecond⟩ := content_tended hkept
  obtain ⟨s, hs, -⟩ := Option.map_eq_some_iff.mp hsecond
  exact ⟨hfull, hkept, contains_iff.mpr ⟨s, hs⟩⟩

/-- An old cell that no root leads to in so many collections, and that is then made to lead to a new one. -/
def revived (k : Nat) : List Event :=
  .change ⟨0⟩ (leadingTo ⟨1⟩) :: .alloc (.object (.of .plain)) ::
    (List.replicate k (.collect 1 []) ++ [.alloc (.object (.of .plain))])

theorem after_spared (k : Nat) :
    after (List.replicate k (.collect 1 []) ++ [.alloc (.object (.of .plain))]) =
      ⟨#[some ⟨1, 0, .object (.of .plain)⟩], [], epochAfter 1 k, 1, 1⟩ := by
  induction k with
  | zero => rfl
  | succ k ih =>
    rw [List.replicate_succ, List.cons_append, after, ih]
    simp [collectSince, mark, garbage, isGarbage, epochAfter]

theorem after_revived (k : Nat) :
    after (revived k) =
      ⟨#[some ⟨1, 0, .object (leadingTo ⟨1⟩)⟩, some ⟨epochAfter 1 k, 1, .object (.of .plain)⟩], [],
        epochAfter 1 k, 2, 2⟩ := by
  rw [revived, after, after, after_spared]
  rfl

theorem revived_link_freed :
    (after (revived (2 ^ 32 - 2))).Reaches [⟨0⟩] ⟨1⟩ ∧ (after (revived (2 ^ 32 - 2))).contains ⟨1⟩ = true ∧
      ((after (revived (2 ^ 32 - 2))).collectSince 0 [⟨0⟩]).2.contains ⟨1⟩ = false := by
  have hfirst : 1 ≤ (1 : UInt32).toNat := by decide
  have hlast : epochAfter 1 (2 ^ 32 - 2) = 4294967295 :=
    UInt32.toNat_inj.mp (toNat_epochAfter hfirst (2 ^ 32 - 2))
  rw [after_revived, hlast]
  exact ⟨reaches_of_leadingTo rfl rfl, by decide +kernel, by decide +kernel⟩

end ScriptEngine.Heap
