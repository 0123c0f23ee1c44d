import ScriptEngine.Proofs.Engine.Registry
import ScriptEngine.Proofs.Host.Program
import ScriptEngine.Proofs.Machine.Seclusion

namespace ScriptEngine

open Engine

namespace Engine

variable {e e' e'' : Engine}

/-- No root other than the registry leads to the registry. What a script comes upon is reached from
these roots. -/
def Withheld (e : Engine) : Prop :=
  ¬ e.heap.Reaches e.roots.tail e.registry

def Withholds (e e' : Engine) : Prop :=
  e.Withheld → e'.Withheld

theorem withheld_iff : e.Withheld ↔ e.Among (e.heap.Apart e.registry) := by
  rw [Withheld, Heap.reaches_iff_exists, Among.iff_roots, not_exists]
  exact forall_congr' fun a => not_and

section Anchoring

theorem Secluded.self {r : Handle} {k : Nat} (h : e.Secluded r k) : e.Secluded e.registry e.nextRef := by
  rw [h.registry, h.nextRef]
  exact h

theorem Anchors.of_heap (hr : e'.registry = e.registry) (hn : e'.nextRef = e.nextRef) (hh : e'.heap = e.heap) :
    e.Anchors e' :=
  ⟨hr, hn, hh ▸ .refl _ _⟩

theorem Anchors.trans (h : e.Anchors e') (h' : e'.Anchors e'') : e.Anchors e'' := by
  refine ⟨h'.registry.trans h.registry, h'.nextRef.trans h.nextRef, h.heap.trans ?_⟩
  rw [← h.registry]
  exact h'.heap

theorem anchors_alloc (cell : Cell) (e : Engine) : e.Anchors (e.alloc cell).2 :=
  ⟨rfl, rfl, .alloc _ _ cell⟩

theorem anchors_collectSince (mark : Nat) (e : Engine) : e.Anchors (e.collectSince mark) :=
  ⟨rfl, rfl, .collectSince (.head _)⟩

theorem anchors_exceptionValue (error : Error) (e : Engine) : e.Anchors (e.exceptionValue error).2 := by
  simp only [exceptionValue]
  split
  · exact .of_heap rfl rfl rfl
  · split
    · exact anchors_alloc _ e
    · exact .of_heap rfl rfl rfl

theorem anchors_unwind (id : ScopeId) (error : Error) (e : Engine) : e.Anchors (e.unwind id error).2 := by
  simp only [unwind]
  split
  · exact (anchors_exceptionValue .unbalancedScope e).trans (.of_heap rfl rfl rfl)
  · rename_i frame frames _
    have hclosed : e.Anchors { e with frames } := .of_heap rfl rfl rfl
    have hmade := hclosed.trans (anchors_exceptionValue error _)
    generalize exceptionValue error { e with frames } = made at hmade ⊢
    have hrestored : made.2.Anchors (made.2.restore frame made.1) := .of_heap rfl rfl rfl
    exact (hmade.trans hrestored).trans (anchors_collectSince frame.heapMark _)

theorem anchors_endProtected (id : ScopeId) (result : Except Error Value) (e : Engine) :
    e.Anchors (stateOf (endProtected id (Machine.resultIn e result))) := by
  cases result with
  | error error => exact anchors_unwind id error e
  | ok v =>
    have hleft := leaveProtected_ensures id e
    simp only [Machine.resultIn, endProtected]
    cases hx : leaveProtected id e with
    | ok _ e₁ =>
      obtain ⟨frame, frames, -, -, rfl⟩ := hleft.ok hx
      exact .of_heap rfl rfl rfl
    | error error e₁ =>
      obtain ⟨-, rfl, -⟩ := hleft.error hx
      exact anchors_unwind id error e₁

theorem anchors_setProperty {target : Value} (ht : target ≠ .object e.registry) (name : String) (value : Value) :
    e.Anchors (stateOf (setProperty target name value e)) := by
  rw [setProperty, change_eq]
  split
  · rename_i h hs
    cases target with
    | object a =>
      simp only [Heap.setProperty] at hs
      split at hs
      · rename_i hi
        obtain rfl := Except.ok.inj hs
        exact ⟨rfl, rfl, .insertProperty? (fun ha => ht (congrArg Value.object ha)) hi⟩
      · cases hs
    | string | boolean | number =>
      obtain rfl := Except.ok.inj hs
      exact .of_heap rfl rfl rfl
    | undefined | null => cases hs
  · exact .of_heap rfl rfl rfl

end Anchoring

end Engine

def Operation.event (operation : Operation) (e : Engine) : Event :=
  match operation, operation.perform e with
  | .makeRef value, .ok (.key key) _ => .anchored key value
  | .unref key, _ => .released key
  | _, _ => .other

/-- No property of the registry is set from outside, and no operation that is given values or an
environment hands the registry out with them. -/
def Operation.Discreet (operation : Operation) (e : Engine) : Prop :=
  match operation with
  | .setProperty target _ _ => target ≠ .object e.registry ∧ e.Withholds (stateOf (operation.perform e))
  | .push _ | .bind _ _ _ | .unwind _ _ => e.Withholds (stateOf (operation.perform e))
  | _ => True

/-- What a host does while no script runs. A protected body is begun and ended; what happens inside are
further steps. An error that finds no scope is raised with its value on the stack, which is cut back
behind the handler. -/
inductive Engine.Serves (e : Engine) : Event → Engine → Prop
  | operated (operation : Operation) : operation.Discreet e →
      Serves e (operation.event e) (stateOf (operation.perform e))
  | begun : Serves e .other (stateOf (beginProtected e))
  | ended (id : ScopeId) (result : Except Error Value) :
      e.Withholds (stateOf (endProtected id (Machine.resultIn e result))) →
      Serves e .other (stateOf (endProtected id (Machine.resultIn e result)))
  | loaded (name source : String) (mode : LoadMode) : Serves e .other (stateOf (load name source mode e))
  | loadedFile (path : String) (file : Option Stream) : Serves e .other (stateOf (loadFile path file e))
  | raised (error : Error) : e.Withholds ((e.exceptionValue error).2.pushThrown (e.exceptionValue error).1) →
      Serves e .other ((e.exceptionValue error).2.pushThrown (e.exceptionValue error).1)
  | cut (depth : Nat) : Serves e .other (e.cutStack depth)

namespace Machine

def idle (e : Engine) : Machine := ⟨e, [], .returning (.ok .undefined)⟩

inductive Next : Machine → Event → Machine → Prop
  | served {e e' : Engine} {event : Event} {result : Except Error Value} : e.Serves event e' →
      Next ⟨e, [], .returning result⟩ event (idle e')
  | called {e : Engine} {result : Except Error Value} (receiver callee : Value) (args : List Value) :
      (∀ v ∈ receiver :: callee :: args, v.Apart e.registry e.heap) →
      Next ⟨e, [], .returning result⟩ .other ⟨e, [], .calling receiver callee args⟩
  | stepped {m : Machine} : Next m .other m.step

inductive Runs (m : Machine) : List Event → Machine → Prop
  | refl : Runs m [] m
  | next {events : List Event} {event : Event} {m' m'' : Machine} : Runs m events m' → m'.Next event m'' →
      Runs m (events ++ [event]) m''

end Machine

section Service

variable {e e' : Engine} {event : Event}

def Engine.Tends (e : Engine) (event : Event) (e' : Engine) : Prop :=
  e.Records event e' ∧ e'.Secluded e'.registry e'.nextRef

theorem Engine.Anchors.tends (ha : e.Anchors e') (hw : e.Withholds e') (hs : e.Secluded e.registry e.nextRef)
    (hb : e.HasRegistry) : e.Tends .other e' := by
  refine ⟨ha.records hb, rfl, rfl, ?_, withheld_iff.mp (hw (withheld_iff.mpr hs.among))⟩
  rw [ha.registry]
  exact ha.heap.rooted hs.rooted

theorem Engine.Discreet.tends {α : Type} {V : α → Heap → Prop} {x : EStateM.Result Error Engine α}
    (hx : Discreet e.registry e.nextRef e.heap V x) (hb : e.HasRegistry) : e.Tends .other (stateOf x) := by
  obtain ⟨hs, hh⟩ := hx.state
  exact ⟨(Anchors.of_guards hs hh).records hb, hs.self⟩

theorem stateOf_bind_pure {α β : Type} (x : EngineM α) (f : α → β) (e : Engine) :
    stateOf ((x >>= fun a => pure (f a)) e) = stateOf (x e) := by
  cases hr : x e with
  | ok a e₁ =>
    rw [bind_of_ok hr]
    rfl
  | error error e₁ =>
    rw [bind_of_error hr]
    rfl

theorem Operation.perform_makeRef {value : Value} {key : String} (h : Engine.makeRef value e = .ok key e') :
    (Operation.makeRef value).perform e = .ok (.key key) e' := by
  show (Engine.makeRef value >>= fun key => pure (Reply.key key)) e = _
  rw [bind_of_ok h]
  rfl

theorem Operation.perform_tends {operation : Operation} (hd : operation.Discreet e)
    (hs : e.Secluded e.registry e.nextRef) (hb : e.HasRegistry) :
    e.Tends (operation.event e) (stateOf (operation.perform e)) := by
  have hquiet {α : Type} {V : α → Heap → Prop} {x : EngineM α} (f : α → Reply)
      (hx : Guarding e.registry e.nextRef V x e) : e.Tends .other (stateOf ((x >>= fun a => pure (f a)) e)) := by
    rw [stateOf_bind_pure]
    exact Discreet.tends hx hb
  cases operation with
  | push v =>
    refine Anchors.tends ?_ hd hs hb
    show e.Anchors (stateOf ((Engine.push v >>= fun _ => pure Reply.nothing) e))
    rw [stateOf_bind_pure, push_eq]
    split <;> exact .of_heap rfl rfl rfl
  | bind unit compiled env => exact (anchors_alloc _ e).tends hd hs hb
  | setProperty target name value =>
    refine Anchors.tends ?_ hd.2 hs hb
    show e.Anchors (stateOf ((Engine.setProperty target name value >>= fun _ => pure Reply.nothing) e))
    rw [stateOf_bind_pure]
    exact anchors_setProperty hd.1 name value
  | unwind id error => exact (anchors_unwind id error e).tends hd hs hb
  | makeRef v =>
    obtain ⟨e₁, hmade, hs₁, hrecords⟩ := makeRef_records hs hb v
    simp only [Operation.event, Operation.perform_makeRef hmade]
    exact ⟨hrecords, hs₁⟩
  | unref key =>
    obtain ⟨hs₁, hrecords⟩ := unref_records hs hb key
    exact ⟨hrecords, hs₁.self⟩
  | exceptionValue error =>
    refine hquiet (V := fun _ _ => True) .value ?_
    cases hc : error.carried? with
    | some v =>
      have hsame : e.exceptionValue error = (v, e) := by simp only [Engine.exceptionValue, hc]
      refine .modifyGet ?_ ?_ trivial <;> rw [hsame]
      · exact hs
      · exact .refl _ _
    | none =>
      obtain ⟨hmade, hh, -⟩ := exceptionValue_guards hs (Error.apart_of_bare hc)
      exact .modifyGet hmade hh trivial
  | pop => exact hquiet .value ((seclusion _ _).popped hs)
  | newObject => exact hquiet .value ((seclusion _ _).newObject hs fun b hb => by cases hb)
  | gc =>
    exact hquiet (V := fun _ _ => True) .count (.modifyGet (hs.collectSince 0) (hs.guards_collectSince 0) trivial)
  | enter => exact hquiet .scope ((seclusion _ _).enterProtected hs)
  | leave id => exact hquiet (fun _ => .nothing) ((seclusion _ _).leaveProtected hs id)
  | redirect output diagnostics =>
    exact hquiet (V := fun _ _ => True) (fun _ => .nothing)
      (.modified { hs with among := { hs.among with } } (.refl _ _) trivial)

theorem Engine.Serves.tends (h : e.Serves event e') (hs : e.Secluded e.registry e.nextRef) (hb : e.HasRegistry) :
    e.Tends event e' := by
  cases h with
  | operated operation hd => exact Operation.perform_tends hd hs hb
  | begun => exact Discreet.tends (beginProtected_guarding hs) hb
  | ended id result hw => exact (anchors_endProtected id result e).tends hw hs hb
  | loaded name source mode => exact Discreet.tends (load_guarding hs name source mode) hb
  | loadedFile path file => exact Discreet.tends (loadFile_guarding hs path file) hb
  | raised error hw =>
    have hmade := anchors_exceptionValue error e
    generalize e.exceptionValue error = made at hmade hw ⊢
    exact Anchors.tends ⟨hmade.registry, hmade.nextRef, hmade.heap⟩ hw hs hb
  | cut depth =>
    have hcut := hs.cutStack depth
    exact ⟨(Anchors.of_guards hcut (.refl _ _)).records hb, hcut⟩

end Service

namespace Machine

variable {m m' m'' : Machine} {event : Event} {events : List Event} {key : String} {value : Value}

structure Kept (m : Machine) : Prop where
  secluded : m.Secluded m.engine.registry m.engine.nextRef
  booked : m.engine.Booked

theorem kept_idle {e : Engine} (hs : e.Secluded e.registry e.nextRef) (hb : e.Booked) : (idle e).Kept := by
  refine ⟨⟨hs, List.forall_mem_nil _, fun v hv => ?_⟩, hb⟩
  obtain rfl := List.mem_singleton.mp hv
  exact Value.among_of_plain rfl

theorem Next.records (h : m.Next event m') (hm : m.Kept) : m.engine.Records event m'.engine ∧ m'.Kept := by
  cases h with
  | served hserves =>
    obtain ⟨hrecords, hs⟩ := hserves.tends hm.secluded.engine hm.booked.registry
    exact ⟨hrecords, kept_idle hs (hrecords.booked hm.booked)⟩
  | called receiver callee args hv =>
    exact ⟨(Anchors.of_heap rfl rfl rfl).records hm.booked.registry,
      ⟨hm.secluded.engine, hm.secluded.frames, hv⟩, hm.booked⟩
  | stepped =>
    obtain ⟨hs, hh⟩ := hm.secluded.step
    have hrecords := (Anchors.of_guards hs.engine hh).records hm.booked.registry
    refine ⟨hrecords, ?_, hrecords.booked hm.booked⟩
    rw [hs.engine.registry, hs.engine.nextRef]
    exact hs

theorem Runs.keys (h : m.Runs events m') (hm : m.Kept) :
    m'.Kept ∧ m.engine.nextRef ≤ m'.engine.nextRef ∧ ∀ key value, .anchored key value ∈ events →
      ∃ i, m.engine.nextRef ≤ i ∧ i < m'.engine.nextRef ∧ key = refKey i := by
  induction h with
  | refl => exact ⟨hm, Nat.le_refl _, fun _ _ hmem => by cases hmem⟩
  | @next events event m₁ m₂ _ hnext ih =>
    obtain ⟨hm₁, hle, hkeys⟩ := ih
    obtain ⟨hrecords, hm₂⟩ := hnext.records hm₁
    have hcount := hrecords.nextRef
    refine ⟨hm₂, by omega, fun key value hmem => ?_⟩
    rcases List.mem_append.mp hmem with hmem | hmem
    · obtain ⟨i, hi, hlt, rfl⟩ := hkeys key value hmem
      exact ⟨i, hi, by omega, rfl⟩
    · obtain rfl := List.mem_singleton.mp hmem
      rw [Event.issues] at hcount
      exact ⟨m₁.engine.nextRef, hle, by omega, hrecords.key key value rfl⟩

theorem Runs.reference (h : m.Runs events m') (hm : m.Kept) {i : Nat} (hi : i < m.engine.nextRef)
    (hget : m.engine.references.get? (refKey i) = some value) :
    (.released (refKey i) ∉ events → m'.engine.references.get? (refKey i) = some value ∧
      m.engine.heap.Spares (fun a => value.handle? = some a) m'.engine.heap) ∧
    (.released (refKey i) ∈ events → m'.engine.references.get? (refKey i) = none) := by
  induction h with
  | refl => exact ⟨fun _ => ⟨hget, .refl _ _⟩, fun hmem => by cases hmem⟩
  | @next events event m₁ m₂ hrun hnext ih =>
    obtain ⟨hm₁, hle, -⟩ := hrun.keys hm
    obtain ⟨hrecords, -⟩ := hnext.records hm₁
    obtain ⟨hstanding, hgone⟩ := ih
    -- The key is older than any that is given out now.
    have hold (v : Value) : event ≠ .anchored (refKey i) v := by
      rintro rfl
      have heq := refKey_inj (hrecords.key _ _ rfl)
      omega
    by_cases hevent : event = .released (refKey i)
    · subst hevent
      exact ⟨fun hnot => absurd (List.mem_append_right _ (.head _)) hnot, fun _ => hrecords.get?_released hm₁.booked⟩
    · have hsame := hrecords.get?_of_ne hold hevent
      have hmem : .released (refKey i) ∈ events ++ [event] ↔ .released (refKey i) ∈ events := by
        rw [List.mem_append, List.mem_singleton]
        exact or_iff_left fun heq => hevent heq.symm
      rw [hmem, hsame]
      refine ⟨fun hnot => ?_, hgone⟩
      obtain ⟨hvalue, hspares⟩ := hstanding hnot
      refine ⟨hvalue, hspares.trans fun a s ha hs => hrecords.kept a s ⟨refKey i, value, ?_, ha⟩ hs⟩
      exact PropertyMap.mem_of_get? (hsame.trans hvalue)

theorem Runs.steps (h : m.Runs events m') (n : Nat) : m.Runs (events ++ List.replicate n .other) (step^[n] m') := by
  induction n with
  | zero =>
    rw [List.replicate_zero, List.append_nil]
    exact h
  | succ n ih =>
    rw [List.replicate_succ', ← List.append_assoc, Function.iterate_succ_apply']
    exact ih.next .stepped

/-- In every history of a fresh instance whose host keeps the registry to itself, however often it
collects: a key that is given out is given out once; until it is given up, it leads to its value, and an
object that was live then keeps its cell; from then on it leads to nothing. Giving up a key changes
nothing for the others, and giving out a key does not fail. -/
theorem references_anchor_values {flags : Flags} {limits : Limits} {e : Engine} {before after : List Event}
    {m m₁ m₂ : Machine} {key : String} {value : Value} (hc : create? flags limits = some e)
    (hbefore : (idle e).Runs before m) (hmade : m.Next (.anchored key value) m₁) (hafter : m₁.Runs after m₂) :
    (∀ v, .anchored key v ∉ before ++ after) ∧
    (.released key ∉ after → m₂.engine.getRef key = value ∧ ∀ a s, value = .object a → m.engine.heap.slot? a = some s →
      ∃ s', m₂.engine.heap.slot? a = some s' ∧ s'.born = s.born) ∧
    (.released key ∈ after → m₂.engine.getRef key = .undefined) ∧
    (∀ other m₃, m₂.Next (.released other) m₃ → m₃.engine.getRef other = .undefined ∧
      ∀ k, k ≠ other → m₃.engine.getRef k = m₂.engine.getRef k) ∧
    ∀ v, ∃ k e', makeRef v m₂.engine = .ok k e' := by
  obtain ⟨hfresh, hbooked⟩ := create_booked hc
  obtain ⟨hm, -, hearlier⟩ := hbefore.keys (kept_idle hfresh hbooked)
  obtain ⟨hrecords, hm₁⟩ := hmade.records hm
  obtain ⟨hm₂, -, hlater⟩ := hafter.keys hm₁
  have hcount : m₁.engine.nextRef = m.engine.nextRef + 1 := hrecords.nextRef
  have hget := hrecords.get?_anchored
  have hkey := hrecords.key key value rfl
  refine ⟨fun v hmem => ?_, fun hnot => ?_, fun hmem => ?_, fun other m₃ hnext => ?_, fun v => ?_⟩
  · rcases List.mem_append.mp hmem with hmem | hmem
    · obtain ⟨i, -, hlt, hi⟩ := hearlier key v hmem
      have heq := refKey_inj (hkey.symm.trans hi)
      omega
    · obtain ⟨i, hle, -, hi⟩ := hlater key v hmem
      have heq := refKey_inj (hkey.symm.trans hi)
      omega
  · rw [hkey] at hget hnot ⊢
    obtain ⟨hvalue, hspares⟩ := (hafter.reference hm₁ (by omega) hget).1 hnot
    refine ⟨by rw [getRef_eq, hvalue, Option.getD_some], fun a s ha hs => ?_⟩
    subst ha
    obtain ⟨s₁, hs₁, hborn⟩ := hrecords.kept a s ⟨_, _, PropertyMap.mem_of_get? hget, rfl⟩ hs
    obtain ⟨s₂, hs₂, hborn'⟩ := hspares a s₁ rfl hs₁
    exact ⟨s₂, hs₂, hborn'.trans hborn⟩
  · rw [hkey] at hget hmem ⊢
    rw [getRef_eq, (hafter.reference hm₁ (by omega) hget).2 hmem, Option.getD_none]
  · obtain ⟨hreleased, -⟩ := hnext.records hm₂
    refine ⟨by rw [getRef_eq, hreleased.get?_released hm₂.booked, Option.getD_none], fun k hk => ?_⟩
    have hsame := hreleased.get?_of_ne (fun _ heq => by cases heq) fun heq => hk (Event.released.inj heq).symm
    rw [getRef_eq, getRef_eq, hsame]
  · obtain ⟨e', hok, -⟩ := makeRef_records hm₂.secluded.engine hm₂.booked.registry v
    exact ⟨_, e', hok⟩

theorem references_anchor_values_across_script :
    ∃ e m m₁ m₂ after a, create? .none {} = some e ∧ (idle e).Runs [.other] m ∧
      m.Next (.anchored "_0" (.object a)) m₁ ∧ m₁.Runs after m₂ ∧ .released "_0" ∉ after ∧
      m₁.engine.heap.collectionsTo m₂.engine.heap = 1 ∧ m₂.engine.getRef "_0" = .object a ∧
      ∃ s s', m.engine.heap.slot? a = some s ∧ m₂.engine.heap.slot? a = some s' ∧ s'.born = s.born := by
  obtain ⟨source, hok⟩ : ∃ source, (create? .none {}).any (fun e =>
      let e₁ := stateOf (Operation.newObject.perform e)
      (e₁.heap.slot? (e.heap.alloc (.object (.of .plain))).1).any fun _ =>
        (valueOf? (makeRef (e.newObject (.of .plain)).1 e₁)).any fun made =>
          (valueOf? (load "sample" source .program made.2)).any fun loaded =>
            let m := step^[7] ⟨loaded.2, [], .calling .undefined loaded.1 []⟩
            made.1 = "_0" ∧ made.2.heap.collectionsTo m.engine.heap = 1) = true :=
    ⟨"gc();", by decide +kernel⟩
  obtain ⟨e, hc, hok⟩ := (Option.any_eq_true _ _).mp hok
  obtain ⟨s, hs, hok⟩ := (Option.any_eq_true _ _).mp hok
  obtain ⟨⟨key, e₂⟩, hmade, hok⟩ := (Option.any_eq_true _ _).mp hok
  obtain ⟨⟨closure, e₃⟩, hloaded, hok⟩ := (Option.any_eq_true _ _).mp hok
  obtain ⟨rfl, hcollected⟩ := of_decide_eq_true hok
  have hbefore : (idle e).Runs [.other] (idle (stateOf (Operation.newObject.perform e))) :=
    .next .refl (.served (.operated .newObject trivial))
  obtain ⟨hfresh, hbooked⟩ := create_booked hc
  obtain ⟨hm, -, -⟩ := hbefore.keys (kept_idle hfresh hbooked)
  generalize stateOf (Operation.newObject.perform e) = e₁ at hs hmade hbefore hm
  have hanchored : (idle e₁).Next (.anchored "_0" (e.newObject (.of .plain)).1) (idle e₂) := by
    have hserves := Serves.operated (e := e₁) (.makeRef (e.newObject (.of .plain)).1) trivial
    simp only [Operation.event, Operation.perform_makeRef (eq_ok_of_valueOf? hmade)] at hserves
    exact .served hserves
  obtain ⟨-, hm₁⟩ := hanchored.records hm
  have hloaded := eq_ok_of_valueOf? hloaded
  obtain ⟨hs₃, -, hclosure⟩ := Discreet.returned (load_guarding hm₁.secluded.engine "sample" source .program) hloaded
  have hstart : (idle e₂).Runs [.other] (idle e₃) := by
    have hserves := Serves.loaded (e := e₂) "sample" source .program
    rw [hloaded] at hserves
    exact .next .refl (.served hserves)
  have hcalled : (idle e₃).Next .other ⟨e₃, [], .calling .undefined closure []⟩ := by
    refine .called .undefined closure [] ?_
    rw [hs₃.registry]
    simp only [List.forall_mem_cons, List.not_mem_nil, false_implies, implies_true, and_true]
    exact ⟨Value.among_of_plain rfl, hclosure⟩
  have hafter := (hstart.next hcalled).steps 7
  have hnot : .released "_0" ∉ [Event.other] ++ [Event.other] ++ List.replicate 7 .other := by simp
  obtain ⟨-, hstanding, -⟩ := references_anchor_values hc hbefore hanchored hafter
  obtain ⟨hget, hkept⟩ := hstanding hnot
  obtain ⟨s', hs', hborn⟩ := hkept _ s rfl hs
  exact ⟨e, _, _, _, _, _, hc, hbefore, hanchored, hafter, hnot, hcollected, hget, s, s', hs, hs', hborn⟩

end Machine

end ScriptEngine
