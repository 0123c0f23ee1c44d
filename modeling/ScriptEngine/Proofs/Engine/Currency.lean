import ScriptEngine.Proofs.Engine.Custody

namespace ScriptEngine

def NativeResult.Current : NativeResult → Heap → Prop
  | .value v, h => v.Current h
  | .run closure, h => closure.Current h

section Texts

variable {h h' : Heap} {error : Error} {v : Value}

/-- What an error says, in one of two ways: as its value shows, or by a name and a message for an error
object that is not made yet. -/
structure Error.Tells (h : Heap) (error : Error) : Prop where
  carried : ∀ v, error.carried? = some v → v.Current h ∧ error.text = h.display v
  described : error.carried? = none → ∃ name message, error.description? = some (name, message) ∧ message ≠ "" ∧
    error.text = name.text ++ ": " ++ message

namespace Error

theorem text_carrying (v : Value) (error : Error) : (error.carrying v).text = error.text := by
  cases error <;> rfl

theorem tells_of_description {name : ErrorName} {message : String} (hc : error.carried? = none)
    (hd : error.description? = some (name, message)) (hm : message ≠ "")
    (ht : error.text = name.text ++ ": " ++ message) : error.Tells h := by
  refine ⟨fun v hv => ?_, fun _ => ⟨name, message, hd, hm, ht⟩⟩
  rw [hc] at hv
  cases hv

theorem tells_of_carried (hc : error.carried? = some v) (hv : v.Current h) (ht : error.text = h.display v) :
    error.Tells h := by
  refine ⟨fun w hw => ?_, fun hn => ?_⟩
  · obtain rfl := Option.some.inj (hc.symm.trans hw)
    exact ⟨hv, ht⟩
  · rw [hc] at hn
    cases hn

theorem tells_fault {f : Fault} (hf : f.message ≠ "") : (Error.fault f).Tells h :=
  tells_of_description rfl rfl hf rfl

theorem tells_unbalanced : Error.unbalancedScope.Tells h :=
  tells_of_description rfl rfl (by decide) rfl

theorem tells_thrown (hv : v.Current h) : (Error.thrown v (h.display v)).Tells h :=
  tells_of_carried rfl hv rfl

theorem Tells.carrying (hv : v.Current h) (ht : error.text = h.display v) : (error.carrying v).Tells h :=
  tells_of_carried (carried?_carrying v error) hv ((text_carrying v error).trans ht)

end Error

end Texts

namespace Engine

variable {α β : Type} {e : Engine} {v : Value} {error : Error}

structure Current (e : Engine) : Prop where
  tidy : e.heap.Tidy
  registry : e.heap.Current e.registry
  global : e.heap.Current e.global
  globalEnv : e.heap.Current e.globalEnv
  env : e.heap.Current e.env
  scopes : ∀ a ∈ e.scopes.toList, e.heap.Current a
  frames : ∀ f ∈ e.frames, e.heap.Current f.env
  stack : ∀ v ∈ e.stack.toList, v.Current e.heap

namespace Current

theorem among (h : e.Current) : e.Among e.heap.Current :=
  { h with }

theorem roots (h : e.Current) : ∀ a ∈ e.roots, e.heap.Current a :=
  List.forall_mem_cons.mpr ⟨h.registry, Among.iff_roots.mp h.among⟩

theorem of_roots (ht : e.heap.Tidy) (h : ∀ a ∈ e.roots, e.heap.Current a) : e.Current := by
  obtain ⟨hregistry, hrest⟩ := List.forall_mem_cons.mp h
  have ha : e.Among e.heap.Current := Among.iff_roots.mpr hrest
  exact { ha with tidy := ht, registry := hregistry }

theorem withHeap {heap : Heap} (h : e.Current) (hh : e.heap.Upholds heap) : Current { e with heap } :=
  ⟨hh.tidy, hh.current _ h.registry, hh.current _ h.global, hh.current _ h.globalEnv, hh.current _ h.env,
    fun a ha => hh.current a (h.scopes a ha), fun f hf => hh.current _ (h.frames f hf),
    fun v hv => hh.among (h.stack v hv)⟩

theorem push (h : e.Current) (hv : v.Current e.heap) : Current { e with stack := e.stack.push v } :=
  { h with stack := (h.among.push hv).stack }

theorem pop (h : e.Current) : Current { e with stack := e.stack.pop } :=
  { h with stack := h.among.pop.stack }

theorem cutStack (h : e.Current) (depth : Nat) : (e.cutStack depth).Current :=
  { h with stack := (h.among.cutStack depth).stack }

theorem cutScopes (h : e.Current) (depth : Nat) : (e.cutScopes depth).Current :=
  { h with env := (h.among.cutScopes depth).env, scopes := (h.among.cutScopes depth).scopes }

theorem collectSince (h : e.Current) (mark : Nat) : (e.collectSince mark).Current := by
  refine of_roots (h.tidy.collectSince mark e.roots) fun a ha => ?_
  exact Heap.current_collected h.roots (.root ha)

theorem display_collected (h : e.Current) (mark : Nat) (hv : ∀ a, v.handle? = some a → a ∈ e.roots) :
    (e.collectSince mark).heap.display v = e.heap.display v :=
  (Heap.agrees_collected h.roots).display fun a ha => .root (hv a ha)

end Current

def currency : Custody where
  Keeps := Engine.Current
  held := Heap.Current
  Guards := Heap.Upholds
  Tells h error := error.Tells h
  closed := Heap.closed_current
  among := Engine.Current.among
  next h hr _ hh ha :=
    ⟨hh.tidy, hr ▸ hh.current _ h.registry, ha.global, ha.globalEnv, ha.env, ha.scopes, ha.frames, ha.stack⟩
  refl h := .refl h.tidy
  trans := .trans
  mono hh := hh.current _
  alloc h hc := ⟨.alloc h.tidy _, Heap.current_alloc h.tidy hc⟩
  puts h hp hv := hp.writes.upholds h.tidy hv
  described := Error.tells_of_description
  thrown := Error.tells_thrown

def Bears (error : Error) (e : Engine) : Prop :=
  ∃ v, e.stack.back? = some v ∧ error.text = e.display v

def Fares (V : α → Heap → Prop) (W : Error → Engine → Prop) : EStateM.Result Error Engine α → Prop
  | .ok a e => e.Current ∧ V a e.heap
  | .error error e => e.Current ∧ W error e

def Telling (error : Error) (e : Engine) : Prop :=
  error.Tells e.heap

namespace Fares

variable {V : α → Heap → Prop} {W : Error → Engine → Prop} {r : EStateM.Result Error Engine α}

theorem returned {a : α} (hr : Fares V W r) (h : r = .ok a e) : e.Current ∧ V a e.heap := by
  subst h
  exact hr

theorem failed (hr : Fares V W r) (h : r = .error error e) : e.Current ∧ W error e := by
  subst h
  exact hr

theorem bind {x : EngineM α} {f : α → EngineM β} {V' : β → Heap → Prop} (hx : Fares V W (x e))
    (hf : ∀ a e', e'.Current → V a e'.heap → Fares V' W (f a e')) : Fares V' W ((x >>= f) e) := by
  cases hr : x e with
  | ok a e₁ =>
    rw [bind_of_ok hr]
    exact hf a e₁ (hx.returned hr).1 (hx.returned hr).2
  | error error e₁ =>
    rw [bind_of_error hr]
    exact hx.failed hr

theorem of_holding {x : EngineM α} (hx : currency.Holding V x e) : Fares V Telling (x e) := by
  cases hr : x e with
  | ok a e₁ => exact ⟨(hx.returned hr).1, (hx.returned hr).2.2⟩
  | error error e₁ => exact ⟨(hx.failed hr).1, (hx.failed hr).2.2⟩

end Fares

section Protection

variable {V : α → Heap → Prop} {r : EStateM.Result Error Engine α}

theorem newError_upholds (h : e.Current) (name : ErrorName) (message : String) :
    ∃ v heap, e.newError name message = (v, { e with heap }) ∧ e.heap.Upholds heap ∧ v.Current heap ∧
      (message ≠ "" → name.text ++ ": " ++ message = heap.display v) := by
  refine ⟨_, _, rfl, .alloc h.tidy _, fun b hb => ?_, fun hne => ?_⟩
  · obtain rfl := Option.some.inj hb
    exact Heap.current_alloc h.tidy fun c hc => by cases hc
  · have hmade (o : Object) : (e.heap.alloc (.object o)).2.object? (e.heap.alloc (.object o)).1 = some o :=
      Heap.object?_eq_some.mpr (Heap.cell?_alloc_new h.tidy _)
    exact (Heap.display_error (hmade _) rfl rfl hne).symm

theorem exceptionValue_upholds (h : e.Current) (ht : error.Tells e.heap) :
    ∃ v heap, e.exceptionValue error = (v, { e with heap }) ∧ e.heap.Upholds heap ∧ v.Current heap ∧
      error.text = heap.display v := by
  cases hc : error.carried? with
  | some v =>
    obtain ⟨hv, htext⟩ := ht.carried v hc
    exact ⟨v, e.heap, by simp only [exceptionValue, hc], .refl h.tidy, hv, htext⟩
  | none =>
    obtain ⟨name, message, hd, hne, htext⟩ := ht.described hc
    obtain ⟨v, heap, hnew, hup, hv, hshown⟩ := newError_upholds h name message
    exact ⟨v, heap, by simp only [exceptionValue, hc, hd, hnew], hup, hv, htext.trans (hshown hne)⟩

theorem restore_current {frame : ProtectedFrame} (h : e.Current) (hf : e.heap.Current frame.env) (hv : v.Current e.heap) :
    (e.restore frame v).Current := by
  have hcut : Current { e with stack := (e.stack.shrink frame.stackDepth).push v } := (h.cutStack frame.stackDepth).push hv
  refine { hcut with env := hf, scopes := fun a ha => ?_ }
  have hshrunk : a ∈ (e.scopes.shrink frame.scopeDepth).toList := ha
  rw [Array.toList_shrink] at hshrunk
  exact h.scopes a (List.take_subset _ _ hshrunk)

theorem unwind_bears (h : e.Current) (ht : error.Tells e.heap) (id : ScopeId) :
    (e.unwind id error).2.Current ∧ Bears (e.unwind id error).1 (e.unwind id error).2 := by
  simp only [unwind]
  split
  · obtain ⟨v, heap, hx, hup, hv, htext⟩ := exceptionValue_upholds h Error.tells_unbalanced
    rw [hx]
    exact ⟨(h.withHeap hup).push hv, v, by simp [pushThrown], htext⟩
  · rename_i frame frames hfound
    obtain ⟨-, inner, hi⟩ := findFrame_eq_some hfound
    have hmem : ∀ f ∈ frame :: frames, e.heap.Current f.env := by
      intro f hf
      refine h.frames f ?_
      rw [hi]
      exact List.mem_append_right _ hf
    have hclosed : Current { e with frames } := { h with frames := fun f hf => hmem f (.tail _ hf) }
    obtain ⟨v, heap, hx, hup, hv, htext⟩ := exceptionValue_upholds hclosed ht
    rw [hx]
    have hrestored : (restore frame v { e with frames, heap }).Current :=
      restore_current (hclosed.withHeap hup) (hup.current _ (hmem frame (.head _))) hv
    have htop : (restore frame v { e with frames, heap }).stack.back? = some v := by simp [restore]
    refine ⟨hrestored.collectSince _, v, htop, htext.trans ?_⟩
    refine (hrestored.display_collected _ fun a ha => ?_).symm
    rw [mem_roots]
    refine .inr (.inr (.inr (.inr (.inr ⟨v, ?_, ha⟩))))
    rw [← Array.getLast?_toList] at htop
    exact List.mem_of_getLast? htop

theorem carry_tells (h : e.Current) (hb : Bears error e) :
    (e.carry error).2.Current ∧ Telling (e.carry error).1 (e.carry error).2 := by
  obtain ⟨v, htop, htext⟩ := hb
  simp only [carry, htop]
  exact ⟨h.pop, Error.Tells.carrying (h.among.back htop) htext⟩

theorem beginProtected_fares (h : e.Current) : Fares (fun _ heap => heap = e.heap) Bears (beginProtected e) := by
  simp only [beginProtected]
  cases hx : enterProtected e with
  | ok id e₁ =>
    obtain ⟨h₁, -, heq⟩ := (currency.enterProtected h).returned hx
    exact ⟨h₁, heq⟩
  | error error e₁ =>
    obtain ⟨h₁, -, ht⟩ := (currency.enterProtected h).failed hx
    obtain ⟨v, heap, hv, hup, hcurrent, htext⟩ := exceptionValue_upholds h₁ ht
    simp only [hv]
    exact ⟨(h₁.withHeap hup).push hcurrent, v, by simp [pushThrown], htext⟩

theorem endProtected_fares (hr : Fares V Telling r) (id : ScopeId) : Fares V Bears (endProtected id r) := by
  cases r with
  | error error e => exact unwind_bears hr.1 hr.2 id
  | ok a e =>
    simp only [endProtected]
    cases hx : leaveProtected id e with
    | ok _ e₁ =>
      obtain ⟨h₁, -, heq⟩ := (currency.leaveProtected hr.1 id).returned hx
      exact ⟨h₁, by rw [heq]; exact hr.2⟩
    | error error e₁ =>
      obtain ⟨h₁, -, ht⟩ := (currency.leaveProtected hr.1 id).failed hx
      exact unwind_bears h₁ ht id

theorem carried_fares (hr : Fares V Bears r) : Fares V Telling (carried r) := by
  cases r with
  | ok a e => exact hr
  | error error e => exact carry_tells hr.1 hr.2

theorem guarding_fares {body : EngineM α} (h : e.Current)
    (hb : ∀ e₁, e₁.Current → Fares V Telling (body e₁)) : Fares V Telling (guarding body e) := by
  refine carried_fares ?_
  simp only [protect]
  cases hx : beginProtected e with
  | ok id e₁ => exact endProtected_fares (hb e₁ ((beginProtected_fares h).returned hx).1) id
  | error error e₁ => exact (beginProtected_fares h).failed hx

end Protection

section Loading

theorem load_fares (h : e.Current) (name source : String) (mode : LoadMode) :
    Fares Value.Current Telling (load name source mode e) :=
  guarding_fares h fun _ h₁ => .of_holding (currency.bindSource h₁ name source mode)

theorem loadBuffer_fares (h : e.Current) (path : String) (buffer : SourceBuffer) :
    Fares Value.Current Telling (loadBuffer path buffer e) := by
  have hload := load_fares h path buffer.text .program
  simp only [loadBuffer]
  cases hx : load path buffer.text .program e with
  | ok v e₁ => exact ⟨{ (hload.returned hx).1 with }, (hload.returned hx).2⟩
  | error error e₁ => exact ⟨{ (hload.failed hx).1 with }, (hload.failed hx).2⟩

theorem loadFile_fares (h : e.Current) (path : String) (file : Option Stream) :
    Fares Value.Current Telling (loadFile path file e) :=
  guarding_fares h fun _ h₁ => Fares.bind (.of_holding (currency.readFile h₁ path file)) fun buffer _ h₂ _ =>
    loadBuffer_fares h₂ path buffer

end Loading

section Functions

variable {args : List Value}

theorem native_fares (h : e.Current) (f : Builtin) (ha : ∀ v ∈ args, v.Current e.heap) :
    Fares NativeResult.Current Telling (native f args e) := by
  have hplain {v : Value} (hv : v.handle? = none) : Fares NativeResult.Current Telling
      ((pure (.value v) : EngineM NativeResult) e) := ⟨h, Value.among_of_plain hv⟩
  show Fares NativeResult.Current Telling ((MonadState.get >>= _ : EngineM NativeResult) e)
  rw [get_bind]
  cases f with
  | print => exact Fares.bind (.of_holding (currency.print h args)) fun _ _ h₁ _ => ⟨h₁, Value.among_of_plain rfl⟩
  | makeError name => exact Fares.bind (.of_holding (currency.makeError h name args)) fun v _ h₁ hv => ⟨h₁, hv⟩
  | string => cases args <;> exact hplain rfl
  | number => cases args <;> exact hplain rfl
  | isNaN => exact hplain rfl
  | isFinite => exact hplain rfl
  | eval =>
    cases args with
    | nil => exact hplain rfl
    | cons value args =>
      cases value with
      | string source => exact Fares.bind (load_fares h "(eval)" source .eval) fun v _ h₁ hv => ⟨h₁, hv⟩
      | undefined | null | boolean | number => exact hplain rfl
      | object a => exact ⟨h, ha _ (.head _)⟩
  | gc => exact ⟨h.collectSince 0, Value.among_of_plain rfl⟩
  | math function => exact hplain rfl

theorem callNative_fares (h : e.Current) (f : Builtin) (ha : ∀ v ∈ args, v.Current e.heap) :
    Fares NativeResult.Current Telling (callNative f args e) := by
  simp only [callNative, enterTrace_eq]
  split
  · rename_i hx
    split at hx <;> cases hx
    exact ⟨h, Error.tells_fault (Fault.message_ne rfl)⟩
  · rename_i hx
    split at hx <;> cases hx
    have hnative := native_fares (e := { e with trace := e.trace.push ⟨f.name, "native", 0⟩ }) { h with } f ha
    split
    · rename_i hr
      exact ⟨{ (hnative.returned hr).1 with }, (hnative.returned hr).2⟩
    · rename_i hr
      exact hnative.returned hr
    · rename_i hr
      exact ⟨{ (hnative.failed hr).1 with }, (hnative.failed hr).2⟩

end Functions

end Engine

end ScriptEngine
