import ScriptEngine.Proofs.Engine.Custody
import ScriptEngine.Proofs.Heap.Seclusion

namespace ScriptEngine

def NativeResult.Apart (r : Handle) : NativeResult → Heap → Prop
  | .value v, h => v.Apart r h
  | .run closure, h => closure.Apart r h

def Error.Apart (r : Handle) (error : Error) (h : Heap) : Prop :=
  ∀ v, error.carried? = some v → v.Apart r h

section Errors

variable {r : Handle} {h h' : Heap} {error : Error} {v : Value}

theorem Error.apart_of_bare (hc : error.carried? = none) : error.Apart r h := by
  intro v hv
  rw [hc] at hv
  cases hv

theorem Error.apart_of_carried (hc : error.carried? = some v) (hv : v.Apart r h) : error.Apart r h := by
  intro w hw
  obtain rfl := Option.some.inj (hc.symm.trans hw)
  exact hv

theorem Error.Apart.mono (hx : error.Apart r h) (hh : h.Guards r h') : error.Apart r h' :=
  fun v hv => hh.among (hx v hv)

end Errors

namespace Engine

variable {α : Type} {r : Handle} {k : Nat} {e : Engine} {v : Value} {error : Error}

structure Secluded (r : Handle) (k : Nat) (e : Engine) : Prop where
  registry : e.registry = r
  nextRef : e.nextRef = k
  rooted : ∃ s, e.heap.Rooted r s
  among : e.Among (e.heap.Apart r)

namespace Secluded

theorem withHeap {heap : Heap} (h : e.Secluded r k) (hh : e.heap.Guards r heap) : Secluded r k { e with heap } :=
  ⟨h.registry, h.nextRef, hh.anchors.rooted h.rooted, { h.among.mono hh.apart with }⟩

theorem push (h : e.Secluded r k) (hv : v.Apart r e.heap) : Secluded r k { e with stack := e.stack.push v } :=
  { h with among := h.among.push hv }

theorem pop (h : e.Secluded r k) : Secluded r k { e with stack := e.stack.pop } :=
  { h with among := h.among.pop }

theorem cutStack (h : e.Secluded r k) (depth : Nat) : (e.cutStack depth).Secluded r k :=
  { h with among := h.among.cutStack depth }

theorem cutScopes (h : e.Secluded r k) (depth : Nat) : (e.cutScopes depth).Secluded r k :=
  { h with among := h.among.cutScopes depth }

theorem leaveTrace (h : e.Secluded r k) : e.leaveTrace.Secluded r k :=
  { h with among := { h.among with } }

theorem guards_collectSince (h : e.Secluded r k) (mark : Nat) : e.heap.Guards r (e.collectSince mark).heap := by
  refine .collectSince ?_ mark
  rw [← h.registry]
  exact .head _

theorem collectSince (h : e.Secluded r k) (mark : Nat) : (e.collectSince mark).Secluded r k :=
  h.withHeap (h.guards_collectSince mark)

end Secluded

def seclusion (r : Handle) (k : Nat) : Custody where
  Keeps := Secluded r k
  held := Heap.Apart r
  Guards := Heap.Guards r
  Tells h error := error.Apart r h
  closed := Heap.closed_apart r
  among h := h.among
  next h hr hn hh ha := ⟨hr.trans h.registry, hn.trans h.nextRef, hh.anchors.rooted h.rooted, ha⟩
  refl _ := .refl r _
  trans := .trans
  mono hh := hh.apart _
  alloc h hc := ⟨.alloc hc, h.rooted.elim fun _ hs => Heap.apart_alloc hs hc⟩
  puts _ hp hv := .puts hp hv
  described hc _ _ _ := Error.apart_of_bare hc
  thrown hv := Error.apart_of_carried rfl hv

abbrev Discreet (r : Handle) (k : Nat) (h : Heap) (V : α → Heap → Prop) : EStateM.Result Error Engine α → Prop :=
  (seclusion r k).Kept h V

abbrev Guarding (r : Handle) (k : Nat) (V : α → Heap → Prop) (x : EngineM α) (e : Engine) : Prop :=
  (seclusion r k).Holding V x e

theorem Discreet.returned {V : α → Heap → Prop} {h : Heap} {x : EStateM.Result Error Engine α} {a : α}
    (hx : Discreet r k h V x) (hr : x = .ok a e) : e.Secluded r k ∧ h.Guards r e.heap ∧ V a e.heap :=
  Custody.Kept.returned hx hr

section Protection

variable {h : Heap} {x : EStateM.Result Error Engine Value}

theorem exceptionValue_guards (h : e.Secluded r k) (hx : error.Apart r e.heap) :
    (e.exceptionValue error).2.Secluded r k ∧ e.heap.Guards r (e.exceptionValue error).2.heap ∧
      (e.exceptionValue error).1.Apart r (e.exceptionValue error).2.heap := by
  simp only [exceptionValue]
  split
  · rename_i hc
    exact ⟨h, .refl _ _, hx _ hc⟩
  · split
    · exact (seclusion r k).newError h _ _
    · exact ⟨h, .refl _ _, Value.among_of_plain rfl⟩

theorem restore_secluded {frame : ProtectedFrame} (h : e.Secluded r k) (hf : e.heap.Apart r frame.env)
    (hv : v.Apart r e.heap) : (e.restore frame v).Secluded r k := by
  have hcut := ((h.among.cutStack frame.stackDepth).push hv).shrinkScopes hf frame.scopeDepth
  exact { h with among := { hcut with } }

theorem unwind_guards (h : e.Secluded r k) (hx : error.Apart r e.heap) (id : ScopeId) :
    (e.unwind id error).2.Secluded r k ∧ e.heap.Guards r (e.unwind id error).2.heap ∧
      (e.unwind id error).1.Apart r (e.unwind id error).2.heap := by
  simp only [unwind]
  split
  · have hbare : Error.unbalancedScope.Apart r e.heap := Error.apart_of_bare rfl
    obtain ⟨hmade, hh, hv⟩ := exceptionValue_guards h hbare
    exact ⟨hmade.push hv, hh, Error.apart_of_bare rfl⟩
  · rename_i frame frames hfound
    obtain ⟨-, inner, hi⟩ := findFrame_eq_some hfound
    have hmem : ∀ f ∈ frame :: frames, e.heap.Apart r f.env := by
      intro f hf
      refine h.among.frames f ?_
      rw [hi]
      exact List.mem_append_right _ hf
    have hclosed : Secluded r k { e with frames } :=
      { h with among := { h.among with frames := fun f hf => hmem f (.tail _ hf) } }
    obtain ⟨hmade, hh, hv⟩ := exceptionValue_guards hclosed hx
    have hrestored := restore_secluded hmade (hh.apart _ (hmem frame (.head _))) hv
    have hall := hh.trans (hrestored.guards_collectSince frame.heapMark)
    exact ⟨hrestored.collectSince _, hall, hx.mono hall⟩

theorem carry_guards (h : e.Secluded r k) (hx : error.Apart r e.heap) :
    (e.carry error).2.Secluded r k ∧ e.heap.Guards r (e.carry error).2.heap ∧
      (e.carry error).1.Apart r (e.carry error).2.heap := by
  simp only [carry]
  split
  · rename_i v hb
    exact ⟨h.pop, .refl _ _, Error.apart_of_carried (Error.carried?_carrying v error) (h.among.back hb)⟩
  · exact ⟨h, .refl _ _, hx⟩

theorem beginProtected_guarding (h : e.Secluded r k) : Guarding r k (fun _ _ => True) beginProtected e := by
  simp only [Guarding, Custody.Holding, beginProtected]
  cases hx : enterProtected e with
  | ok id e₁ =>
    obtain ⟨h₁, hh, -⟩ := ((seclusion r k).enterProtected h).returned hx
    exact ⟨h₁, hh, trivial⟩
  | error error e₁ =>
    obtain ⟨h₁, hh, ha⟩ := ((seclusion r k).enterProtected h).failed hx
    obtain ⟨hmade, hh', hv⟩ := exceptionValue_guards h₁ ha
    exact ⟨hmade.push hv, hh.trans hh', ha.mono hh'⟩

theorem endProtected_discreet (hx : Discreet r k h (Value.Apart r) x) (id : ScopeId) :
    Discreet r k h (Value.Apart r) (endProtected id x) := by
  cases x with
  | error error e =>
    obtain ⟨he, hh, ha⟩ := hx
    obtain ⟨hu, hh', ha'⟩ := unwind_guards he ha id
    exact ⟨hu, hh.trans hh', ha'⟩
  | ok a e =>
    obtain ⟨he, hh, hv⟩ := hx
    simp only [endProtected]
    cases hl : leaveProtected id e with
    | ok _ e₁ =>
      obtain ⟨h₁, hh₁, -⟩ := ((seclusion r k).leaveProtected he id).returned hl
      exact ⟨h₁, hh.trans hh₁, hh₁.among hv⟩
    | error error e₁ =>
      obtain ⟨h₁, hh₁, ha⟩ := ((seclusion r k).leaveProtected he id).failed hl
      obtain ⟨hu, hh', ha'⟩ := unwind_guards h₁ ha id
      exact ⟨hu, (hh.trans hh₁).trans hh', ha'⟩

theorem carried_discreet (hx : Discreet r k h (Value.Apart r) x) : Discreet r k h (Value.Apart r) (carried x) := by
  cases x with
  | ok a e => exact hx
  | error error e =>
    obtain ⟨he, hh, ha⟩ := hx
    obtain ⟨hc, hh', ha'⟩ := carry_guards he ha
    exact ⟨hc, hh.trans hh', ha'⟩

theorem guarding_guarding {body : EngineM Value} (h : e.Secluded r k)
    (hb : ∀ e₁, e₁.Secluded r k → Guarding r k (Value.Apart r) body e₁) :
    Guarding r k (Value.Apart r) (guarding body) e := by
  refine carried_discreet ?_
  simp only [protect]
  cases hx : beginProtected e with
  | ok id e₁ =>
    obtain ⟨h₁, hh, -⟩ := (beginProtected_guarding h).returned hx
    exact endProtected_discreet (Custody.Kept.since (hb e₁ h₁) hh) id
  | error error e₁ => exact (beginProtected_guarding h).failed hx

end Protection

section Loading

theorem load_guarding (h : e.Secluded r k) (name source : String) (mode : LoadMode) :
    Guarding r k (Value.Apart r) (load name source mode) e :=
  guarding_guarding h fun _ h₁ => (seclusion r k).bindSource h₁ name source mode

theorem loadBuffer_guarding (h : e.Secluded r k) (path : String) (buffer : SourceBuffer) :
    Guarding r k (Value.Apart r) (loadBuffer path buffer) e := by
  have hload := load_guarding h path buffer.text .program
  simp only [Guarding, Custody.Holding, loadBuffer] at hload ⊢
  cases hx : load path buffer.text .program e with
  | ok v e₁ =>
    obtain ⟨h₁, hh, hv⟩ := hload.returned hx
    exact ⟨{ h₁ with among := { h₁.among with } }, hh, hv⟩
  | error error e₁ =>
    obtain ⟨h₁, hh, ha⟩ := hload.failed hx
    exact ⟨{ h₁ with among := { h₁.among with } }, hh, ha⟩

theorem loadFile_guarding (h : e.Secluded r k) (path : String) (file : Option Stream) :
    Guarding r k (Value.Apart r) (loadFile path file) e :=
  guarding_guarding h fun _ h₁ => .bind ((seclusion r k).readFile h₁ path file) fun buffer _ h₂ _ _ =>
    loadBuffer_guarding h₂ path buffer

end Loading

section Functions

variable {args : List Value}

theorem native_guarding (h : e.Secluded r k) (f : Builtin) (ha : ∀ v ∈ args, v.Apart r e.heap) :
    Guarding r k (NativeResult.Apart r) (native f args) e := by
  have hplain {v : Value} (hv : v.handle? = none) :
      Guarding r k (NativeResult.Apart r) (Pure.pure (.value v)) e := .pure h (Value.among_of_plain hv)
  refine .get ?_
  cases f with
  | print => exact .bind ((seclusion r k).print h args) fun _ _ h₁ _ _ => .pure h₁ (Value.among_of_plain rfl)
  | makeError name => exact .bind ((seclusion r k).makeError h name args) fun v _ h₁ _ hv => .pure h₁ hv
  | string => cases args <;> exact hplain rfl
  | number => cases args <;> exact hplain rfl
  | isNaN => exact hplain rfl
  | isFinite => exact hplain rfl
  | eval =>
    cases args with
    | nil => exact hplain rfl
    | cons value args =>
      cases value with
      | string source => exact .bind (load_guarding h "(eval)" source .eval) fun v _ h₁ _ hv => .pure h₁ hv
      | undefined | null | boolean | number => exact hplain rfl
      | object a => exact .pure h (ha _ (.head _))
  | gc =>
    exact .bind (V := fun _ _ => True) (.modified (h.collectSince 0) (h.guards_collectSince 0) trivial)
      fun _ _ h₁ _ _ => .pure h₁ (Value.among_of_plain rfl)
  | math function => exact hplain rfl

theorem callNative_guarding (h : e.Secluded r k) (f : Builtin) (ha : ∀ v ∈ args, v.Apart r e.heap) :
    Guarding r k (NativeResult.Apart r) (callNative f args) e := by
  simp only [Guarding, Custody.Holding, callNative, enterTrace_eq]
  split
  · rename_i hx
    split at hx <;> cases hx
    exact ⟨h, .refl _ _, Error.apart_of_bare rfl⟩
  · rename_i hx
    split at hx <;> cases hx
    have hnative := native_guarding (e := { e with trace := e.trace.push ⟨f.name, "native", 0⟩ })
      { h with among := { h.among with } } f ha
    split
    · rename_i hr
      obtain ⟨h₁, hh, hv⟩ := hnative.returned hr
      exact ⟨h₁.leaveTrace, hh, hv⟩
    · rename_i hr
      exact hnative.returned hr
    · rename_i hr
      obtain ⟨h₁, hh, hx⟩ := hnative.failed hr
      exact ⟨h₁.leaveTrace, hh, hx⟩

end Functions

end Engine

end ScriptEngine
