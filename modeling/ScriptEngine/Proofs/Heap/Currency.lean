import ScriptEngine.Proofs.Heap.Display
import ScriptEngine.Proofs.Heap.Endurance

/-!
Cells that are current: the last collection reached them, or they were made since. The next collection
has another number, even when the numbers start over, so if its roots lead to current cells only, it
keeps all that they lead to and leaves it current. What is held therefore shows the same text before
and after, however many collections there were.
-/

namespace ScriptEngine

def Value.Among (held : Handle → Prop) (v : Value) : Prop :=
  ∀ a, v.handle? = some a → held a

theorem Value.Among.mono {held held' : Handle → Prop} {v : Value} (hv : v.Among held) (h : ∀ a, held a → held' a) :
    v.Among held' :=
  fun a ha => h a (hv a ha)

theorem Value.among_of_plain {held : Handle → Prop} {v : Value} (hv : v.handle? = none) : v.Among held := by
  intro a ha
  rw [hv] at ha
  cases ha

namespace PropertyMap

variable {α : Type} {name : String} {value : α} {m : PropertyMap α}

theorem mem_of_get? (h : get? name m = some value) : (name, value) ∈ m := by
  induction m with
  | nil => cases h
  | cons p m ih =>
    obtain ⟨n, w⟩ := p
    simp only [get?] at h
    split at h
    · rename_i hn
      obtain rfl := Option.some.inj h
      exact hn ▸ .head _
    · exact .tail _ (ih h)

theorem mem_insert {p : String × α} (h : p ∈ insert name value m) : p ∈ m ∨ p.2 = value := by
  induction m with
  | nil =>
    obtain rfl := List.mem_singleton.mp h
    exact .inr rfl
  | cons q m ih =>
    obtain ⟨n, w⟩ := q
    simp only [insert] at h
    split at h
    · rcases List.mem_cons.mp h with rfl | h
      · exact .inr rfl
      · exact .inl (.tail _ h)
    · rcases List.mem_cons.mp h with rfl | h
      · exact .inl (.head _)
      · exact (ih h).imp (.tail _) id

end PropertyMap

namespace Heap

variable {h h' h'' : Heap} {held : Handle → Prop} {roots : List Handle} {a b : Handle} {v value : Value} {name : String}

def Closed (held : Handle → Prop) (h : Heap) : Prop :=
  ∀ a s, held a → h.slot? a = some s → ∀ b ∈ s.cell.links, held b

namespace Closed

theorem cell {cell : Cell} (hc : h.Closed held) (ha : held a) (hcell : h.cell? a = some cell) : ∀ b ∈ cell.links, held b := by
  obtain ⟨s, hs, rfl⟩ := slot?_of_cell? hcell
  exact hc a s ha hs

theorem property {o : Object} (hc : h.Closed held) (ha : held a) (ho : h.object? a = some o)
    (hv : o.properties.get? name = some value) : value.Among held := by
  intro b hb
  refine hc.cell ha (object?_eq_some.mp ho) b (List.mem_append_left _ (List.mem_append_right _ ?_))
  exact List.mem_filterMap.mpr ⟨(name, value), PropertyMap.mem_of_get? hv, hb⟩

theorem parent {o : Object} (hc : h.Closed held) (ha : held a) (ho : h.object? a = some o) (hp : o.parent = some b) :
    held b := by
  refine hc.cell ha (object?_eq_some.mp ho) b (List.mem_append_left _ (List.mem_append_left _ ?_))
  rw [hp]
  exact .head _

theorem scope {unit : CodeUnit} {parent : Option Handle} {properties : PropertyMap Value} (hc : h.Closed held)
    (ha : held a) (ho : h.object? a = some ⟨.closure unit b, parent, properties⟩) : held b :=
  hc.cell ha (object?_eq_some.mp ho) b (List.mem_append_right _ (.head _))

theorem names {env : Environment} (hc : h.Closed held) (ha : held a) (he : h.environment? a = some env) : held env.names :=
  hc.cell ha (environment?_eq_some.mp he) _ (.head _)

theorem outer {env : Environment} (hc : h.Closed held) (ha : held a) (he : h.environment? a = some env)
    (ho : env.outer = some b) : held b := by
  refine hc.cell ha (environment?_eq_some.mp he) b (.tail _ ?_)
  rw [ho]
  exact .head _

theorem findProperty {n : Nat} (hc : h.Closed held) (ha : held a) (hf : h.findProperty name n a = some value) :
    value.Among held := by
  induction n generalizing a with
  | zero => cases hf
  | succ n ih =>
    simp only [Heap.findProperty] at hf
    split at hf
    · cases hf
    · rename_i o ho
      split at hf
      · rename_i w hw
        obtain rfl := Option.some.inj hf
        exact hc.property ha ho hw
      · obtain ⟨b, hb, hrest⟩ := Option.bind_eq_some_iff.mp hf
        exact ih (hc.parent ha ho hb) hrest

theorem getProperty {target : Value} (hc : h.Closed held) (ht : target.Among held)
    (hg : h.getProperty target name = .ok value) : value.Among held := by
  cases target with
  | object a =>
    obtain rfl := Except.ok.inj hg
    cases hf : h.findProperty name h.chainLimit a with
    | none => exact Value.among_of_plain rfl
    | some w => exact hc.findProperty (ht a rfl) hf
  | string s =>
    obtain rfl := Except.ok.inj hg
    split <;> exact Value.among_of_plain rfl
  | boolean | number =>
    obtain rfl := Except.ok.inj hg
    exact Value.among_of_plain rfl
  | undefined | null => cases hg

theorem lookupWithin {n : Nat} (hc : h.Closed held) (ha : held a)
    (hl : Environment.lookupWithin h name n a = some value) : value.Among held := by
  induction n generalizing a with
  | zero => cases hl
  | succ n ih =>
    simp only [Environment.lookupWithin] at hl
    split at hl
    · cases hl
    · rename_i env he
      split at hl
      · rename_i w hw
        obtain rfl := Option.some.inj hl
        obtain ⟨o, ho, hp⟩ := Option.bind_eq_some_iff.mp hw
        exact hc.property (hc.names ha he) ho hp
      · obtain ⟨b, hb, hrest⟩ := Option.bind_eq_some_iff.mp hl
        exact ih (hc.outer ha he hb) hrest

theorem insertProperty? (hc : h.Closed held) (hv : value.Among held) (hi : h.insertProperty? a name value = some h') :
    h'.Closed held := by
  obtain ⟨mark, born, o, hs, rfl⟩ := insertProperty?_eq_some hi
  intro b t hb ht d hd
  rw [slot?_setSlot] at ht
  split at ht
  · rename_i hab
    obtain ⟨rfl, -⟩ := hab
    obtain rfl := Option.some.inj ht
    have hold : ∀ d ∈ (Cell.object o).links, held d := hc a _ hb hs
    simp only [Cell.links, List.mem_append, List.mem_filterMap] at hd hold
    rcases hd with (hd | ⟨p, hp, hd⟩) | hd
    · exact hold d (.inl (.inl hd))
    · rcases PropertyMap.mem_insert hp with hp | hp
      · exact hold d (.inl (.inr ⟨p, hp, hd⟩))
      · exact hv d (hp ▸ hd)
    · exact hold d (.inr hd)
  · exact hc b t hb ht d hd

end Closed

theorem closed_true (h : Heap) : h.Closed fun _ => True := fun _ _ _ _ _ _ => trivial

structure Agrees (held : Handle → Prop) (h h' : Heap) : Prop where
  closed : h.Closed held
  cell : ∀ a, held a → h'.cell? a = h.cell? a
  born : h'.born = h.born

namespace Agrees

theorem object? (hh : h.Agrees held h') (ha : held a) : h'.object? a = h.object? a := by
  simp only [Heap.object?, hh.cell a ha]

theorem findProperty (hh : h.Agrees held h') (ha : held a) (name : String) (n : Nat) :
    h'.findProperty name n a = h.findProperty name n a := by
  induction n generalizing a with
  | zero => rfl
  | succ n ih =>
    simp only [Heap.findProperty, hh.object? ha]
    cases ho : h.object? a with
    | none => rfl
    | some o =>
      cases hg : o.properties.get? name with
      | some w => simp only [hg]
      | none =>
        cases hp : o.parent with
        | none => simp only [hg, hp, Option.bind_none]
        | some b => simpa only [hg, hp, Option.bind_some] using ih (hh.closed.parent ha ho hp)

theorem getProperty (hh : h.Agrees held h') (ha : held a) (name : String) :
    h'.getProperty (.object a) name = h.getProperty (.object a) name := by
  simp only [Heap.getProperty, chainLimit, hh.born, hh.findProperty ha]

theorem displayWithin (hh : h.Agrees held h') (hv : v.Among held) (n : Nat) :
    h'.displayWithin n v = h.displayWithin n v := by
  induction n generalizing v with
  | zero => rfl
  | succ n ih =>
    cases v with
    | undefined | null | boolean | number | string => rfl
    | object a =>
      have ha := hv a rfl
      have hpart (name : String) : h'.readText n (h'.getProperty (.object a) name) =
          h.readText n (h.getProperty (.object a) name) := by
        rw [hh.getProperty ha]
        cases hg : h.getProperty (.object a) name with
        | error f => rfl
        | ok w =>
          have hw := ih (hh.closed.getProperty hv hg)
          cases w <;> simp only [readText, hw]
      have ho' := hh.object? ha
      cases ho : h.object? a with
      | none => simp only [Heap.displayWithin, ho', ho]
      | some o =>
        obtain ⟨kind, _, _⟩ := o
        cases kind with
        | plain | closure | native => simp only [Heap.displayWithin, ho', ho]
        | error => rw [displayWithin_error (ho'.trans ho), displayWithin_error ho, hpart "name", hpart "message"]

theorem display (hh : h.Agrees held h') (hv : v.Among held) : h'.display v = h.display v := by
  rw [Heap.display, Heap.display, hh.displayWithin hv, chainLimit, chainLimit, hh.born]

end Agrees

/-- Every cell that the handle leads to is there, and the last collection reached it or it was made
since. -/
def Current (h : Heap) (a : Handle) : Prop :=
  ∀ b, h.Reaches [a] b → ∃ s, h.slot? b = some s ∧ s.mark = h.epoch

theorem Current.slot (ha : h.Current a) : ∃ s, h.slot? a = some s ∧ s.mark = h.epoch :=
  ha a (.root (.head _))

theorem closed_current (h : Heap) : h.Closed h.Current := by
  intro a s ha hs b hb c hc
  refine ha c ?_
  induction hc with
  | root hc =>
    obtain rfl := List.mem_singleton.mp hc
    exact .link (.root (.head _)) hs hb
  | link _ ht hd ih => exact ih.link ht hd

theorem closed_reaches (h : Heap) (roots : List Handle) : h.Closed (h.Reaches roots) :=
  fun _ _ ha hs _ hb => ha.link hs hb

theorem current_of_closed (held : Handle → Prop) (hc : h.Closed held)
    (hm : ∀ b, held b → ∃ s, h.slot? b = some s ∧ s.mark = h.epoch) (ha : held a) : h.Current a := by
  intro b hb
  refine hm b ?_
  induction hb with
  | root hb =>
    obtain rfl := List.mem_singleton.mp hb
    exact ha
  | link _ hs hb ih => exact hc _ _ ih hs _ hb

theorem current_of_reaches (hr : ∀ b ∈ roots, h.Current b) (ha : h.Reaches roots a) : h.Current a := by
  induction ha with
  | root ha => exact hr _ ha
  | link _ hs hb ih => exact h.closed_current _ _ ih hs _ hb

structure Upholds (h h' : Heap) : Prop where
  tidy : h'.Tidy
  current : ∀ a, h.Current a → h'.Current a

theorem epoch_alloc (h : Heap) (cell : Cell) : (h.alloc cell).2.epoch = h.epoch := by
  simp only [alloc]
  split <;> rfl

namespace Upholds

theorem refl (ht : h.Tidy) : h.Upholds h := ⟨ht, fun _ ha => ha⟩

theorem trans (hh : h.Upholds h') (hh' : h'.Upholds h'') : h.Upholds h'' :=
  ⟨hh'.tidy, fun a ha => hh'.current a (hh.current a ha)⟩

theorem among (hh : h.Upholds h') (hv : v.Among h.Current) : v.Among h'.Current :=
  hv.mono hh.current

theorem alloc (ht : h.Tidy) (cell : Cell) : h.Upholds (h.alloc cell).2 := by
  have hlive {b : Handle} (hb : h.Current b) : ∃ s, h.slot? b = some s ∧ (h.alloc cell).2.slot? b = some s ∧ s.mark = h.epoch := by
    obtain ⟨s, hs, hm⟩ := hb.slot
    exact ⟨s, hs, slot?_alloc_of_live ht cell hs, hm⟩
  refine ⟨ht.alloc cell, fun a ha => current_of_closed h.Current ?_ (fun b hb => ?_) ha⟩
  · intro b t hb ht' c hc
    obtain ⟨s, hs, hs', -⟩ := hlive hb
    obtain rfl := Option.some.inj (hs'.symm.trans ht')
    exact h.closed_current b s hb hs c hc
  · obtain ⟨s, -, hs', hm⟩ := hlive hb
    exact ⟨s, hs', hm.trans (epoch_alloc h cell).symm⟩

theorem insertProperty? (ht : h.Tidy) (hv : value.Among h.Current) (hi : h.insertProperty? a name value = some h') :
    h.Upholds h' := by
  have hclosed : h'.Closed h.Current := h.closed_current.insertProperty? hv hi
  obtain ⟨mark, born, o, hs, rfl⟩ := insertProperty?_eq_some hi
  refine ⟨ht.write hs, fun b hb => current_of_closed h.Current hclosed (fun c hc => ?_) hb⟩
  obtain ⟨s, hsc, hm⟩ := hc.slot
  rw [slot?_setSlot]
  split
  · rename_i hac
    obtain ⟨rfl, -⟩ := hac
    obtain rfl := Option.some.inj (hs.symm.trans hsc)
    exact ⟨_, rfl, hm⟩
  · exact ⟨s, hsc, hm⟩

end Upholds

theorem current_alloc (ht : h.Tidy) {cell : Cell} (hc : ∀ b ∈ cell.links, h.Current b) :
    (h.alloc cell).2.Current (h.alloc cell).1 := by
  have hup := Upholds.alloc ht cell
  have hnew := slot?_alloc_new ht cell
  refine current_of_closed (fun b => b = (h.alloc cell).1 ∨ (h.alloc cell).2.Current b) ?_ ?_ (.inl rfl)
  · rintro b s (rfl | hb) hs d hd
    · obtain rfl := Option.some.inj (hnew.symm.trans hs)
      exact .inr (hup.current d (hc d hd))
    · exact .inr (closed_current _ b s hb hs d hd)
  · rintro b (rfl | hb)
    · exact ⟨_, hnew, (epoch_alloc h cell).symm⟩
    · exact hb.slot

section Collection

variable {since : Nat}

theorem nextEpoch_ne (epoch : UInt32) : epoch ≠ nextEpoch epoch := by
  intro he
  have hlt := epoch.toNat_lt
  have hn := toNat_nextEpoch epoch
  rw [← he] at hn
  split at hn <;> omega

theorem slot?_collected_of_current (hr : ∀ b ∈ roots, h.Current b) (ha : h.Reaches roots a) :
    (h.collectSince since roots).2.slot? a = (h.slot? a).map fun s => { s with mark := nextEpoch h.epoch } := by
  refine slot?_collected_of_unmarked (fun b t hb ht hm => ?_) ha
  obtain ⟨s, hs, hs'⟩ := (current_of_reaches hr hb).slot
  obtain rfl := Option.some.inj (hs.symm.trans ht)
  exact nextEpoch_ne h.epoch (hs'.symm.trans hm)

theorem current_collected (hr : ∀ b ∈ roots, h.Current b) (ha : h.Reaches roots a) :
    (h.collectSince since roots).2.Current a := by
  refine current_of_closed (h.Reaches roots) ?_ (fun b hb => ?_) ha
  · intro b t hb ht c hc
    rw [slot?_collected_of_current hr hb] at ht
    obtain ⟨s, hs, rfl⟩ := Option.map_eq_some_iff.mp ht
    exact hb.link hs hc
  · obtain ⟨s, hs, -⟩ := (current_of_reaches hr hb).slot
    exact ⟨_, by rw [slot?_collected_of_current hr hb, hs, Option.map_some], rfl⟩

theorem agrees_collected (hr : ∀ b ∈ roots, h.Current b) :
    h.Agrees (h.Reaches roots) (h.collectSince since roots).2 := by
  refine ⟨h.closed_reaches roots, fun a ha => ?_, rfl⟩
  rw [cell?, slot?_collected_of_current hr ha, Option.map_map]
  rfl

end Collection

end Heap

def Value.Current (v : Value) (h : Heap) : Prop :=
  v.Among h.Current

theorem append_ne_of_left {s t : String} (hs : s ≠ "") : s ++ t ≠ "" :=
  fun h => hs (String.append_eq_empty_iff.mp h).1

theorem append_ne_of_right {s t : String} (ht : t ≠ "") : s ++ t ≠ "" :=
  fun h => ht (String.append_eq_empty_iff.mp h).2

def Fault.isRaised : Fault → Bool
  | .raised _ _ => true
  | _ => false

theorem Fault.message_ne {f : Fault} (hf : f.isRaised = false) : f.message ≠ "" := by
  cases f with
  | stackOverflow | stackUnderflow | callStackOverflow | exceptionStackOverflow | badFunctionIndex => decide
  | notAFunction | notDefined | undeclared | notLive => exact append_ne_of_right (by decide)
  | unreadable | unsettable => exact append_ne_of_left (append_ne_of_right (by decide))
  | unwritten => exact append_ne_of_left (by decide)
  | raised name message => cases hf

def Speaks {α : Type} (Q : α → Prop) : Except Fault α → Prop
  | .ok a => Q a
  | .error f => f.message ≠ ""

namespace Speaks

variable {α β : Type} {P Q : α → Prop} {x : Except Fault α}

theorem mono (hx : Speaks P x) (h : ∀ a, P a → Q a) : Speaks Q x := by
  cases x with
  | ok a => exact h a hx
  | error f => exact hx

theorem bind {R : β → Prop} {f : α → Except Fault β} (hx : Speaks P x) (hf : ∀ a, P a → Speaks R (f a)) :
    Speaks R (x >>= f) := by
  cases x with
  | ok a => exact hf a hx
  | error f => exact hx

end Speaks

section Operations

variable {h h' : Heap} {held : Handle → Prop} {env : Handle} {value target : Value}

def Heap.Writes (value : Value) (h h' : Heap) : Prop :=
  h' = h ∨ ∃ a name, h.insertProperty? a name value = some h'

theorem Heap.Writes.upholds (hw : h.Writes value h') (ht : h.Tidy) (hv : value.Current h) : h.Upholds h' := by
  rcases hw with rfl | ⟨a, name, hi⟩
  · exact .refl ht
  · exact .insertProperty? ht hv hi

def Heap.Puts (held : Handle → Prop) (value : Value) (h h' : Heap) : Prop :=
  h' = h ∨ ∃ a name, held a ∧ h.insertProperty? a name value = some h'

theorem Heap.Puts.writes (hs : h.Puts held value h') : h.Writes value h' :=
  hs.imp id fun ⟨a, name, _, hi⟩ => ⟨a, name, hi⟩

theorem Heap.setProperty_puts (ht : target.Among held) (name : String) (value : Value) :
    Speaks (h.Puts held value) (h.setProperty target name value) := by
  cases target with
  | object a =>
    simp only [Heap.setProperty]
    split
    · rename_i hi
      exact .inr ⟨a, name, ht a rfl, hi⟩
    · exact Fault.message_ne rfl
  | string | boolean | number => exact .inl rfl
  | undefined | null => exact Fault.message_ne rfl

theorem Heap.setProperty_speaks (h : Heap) (target : Value) (name : String) (value : Value) :
    Speaks (h.Writes value) (h.setProperty target name value) := by
  have hputs : Speaks (h.Puts (fun _ => True) value) (h.setProperty target name value) :=
    setProperty_puts (fun _ _ => trivial) name value
  exact hputs.mono fun _ hp => hp.writes

theorem Heap.getProperty_speaks (hc : h.Closed held) (ht : target.Among held) (name : String) :
    Speaks (Value.Among held) (h.getProperty target name) := by
  cases hg : h.getProperty target name with
  | ok v => exact hc.getProperty ht hg
  | error f => cases target <;> cases hg <;> exact Fault.message_ne rfl

namespace Environment

theorem bindings_speaks (hc : h.Closed held) (he : held env) : Speaks held (bindings h env) := by
  simp only [bindings]
  split
  · rename_i henv
    exact hc.names he henv
  · exact Fault.message_ne rfl

theorem define_puts (hc : h.Closed held) (he : held env) (name : String) (value : Value) :
    Speaks (h.Puts held value) (define h env name value) := by
  refine (bindings_speaks hc he).bind fun v hv => ?_
  split
  · rename_i hi
    exact .inr ⟨v, name, hv, hi⟩
  · exact Fault.message_ne rfl

theorem hasOwn_speaks (h : Heap) (env : Handle) (name : String) : Speaks (fun _ => True) (hasOwn h env name) :=
  (bindings_speaks h.closed_true trivial).bind fun _ _ => trivial

theorem declare_puts (hc : h.Closed held) (he : held env) (name : String) :
    Speaks (h.Puts held .undefined) (declare h env name) := by
  refine (hasOwn_speaks h env name).bind fun own _ => ?_
  split
  · exact .inl rfl
  · exact define_puts hc he name .undefined

def Binder.scope : Binder → Handle
  | .bound scope | .outermost scope => scope

theorem binderWithin_speaks (hc : h.Closed held) (he : held env) (name : String) (n : Nat) :
    Speaks (fun binder => held binder.scope) (binderWithin h name n env) := by
  induction n generalizing env with
  | zero => exact he
  | succ n ih =>
    refine (hasOwn_speaks h env name).bind fun own _ => ?_
    split
    · exact he
    · split
      · rename_i outer ho
        obtain ⟨scope, hs, hout⟩ := Option.bind_eq_some_iff.mp ho
        exact ih (hc.outer he hs hout)
      · exact he

theorem assign_puts (hc : h.Closed held) (he : held env) (name : String) (value : Value) (strict : Bool) :
    Speaks (h.Puts held value) (assign h env name value strict) := by
  refine (binderWithin_speaks hc he name h.chainLimit).bind fun binder hscope => ?_
  cases binder with
  | bound scope => exact define_puts hc hscope name value
  | outermost scope =>
    dsimp only
    split
    · exact Fault.message_ne rfl
    · exact define_puts hc hscope name value

theorem get_speaks (hc : h.Closed held) (he : held env) (name : String) : Speaks (Value.Among held) (get h env name) := by
  simp only [get, lookup]
  split
  · rename_i v hl
    exact hc.lookupWithin he hl
  · exact Fault.message_ne rfl

theorem define_speaks (h : Heap) (env : Handle) (name : String) (value : Value) :
    Speaks (h.Writes value) (define h env name value) :=
  (define_puts h.closed_true trivial name value).mono fun _ hs => hs.writes

theorem declare_speaks (h : Heap) (env : Handle) (name : String) : Speaks (h.Writes .undefined) (declare h env name) :=
  (declare_puts h.closed_true trivial name).mono fun _ hs => hs.writes

theorem assign_speaks (h : Heap) (env : Handle) (name : String) (value : Value) (strict : Bool) :
    Speaks (h.Writes value) (assign h env name value strict) :=
  (assign_puts h.closed_true trivial name value strict).mono fun _ hs => hs.writes

end Environment

end Operations

end ScriptEngine
