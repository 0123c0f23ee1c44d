import ScriptEngine.Proofs.Engine.Seclusion
import ScriptEngine.Proofs.Machine.Custody
import ScriptEngine.Proofs.Machine.Holdings

namespace ScriptEngine

open Engine

def CallFrame.Apart (r : Handle) (frame : CallFrame) (h : Heap) : Prop :=
  frame.Among (h.Apart r)

def AllApart (r : Handle) (frames : List CallFrame) (h : Heap) : Prop :=
  ∀ frame ∈ frames, frame.Apart r h

theorem AllApart.mono {r : Handle} {frames : List CallFrame} {h h' : Heap} (hf : AllApart r frames h)
    (hh : h.Guards r h') : AllApart r frames h' :=
  fun frame hframe => (hf frame hframe).mono hh.apart

def Signal.Apart (r : Handle) : Signal → Heap → Prop
  | .proceed, _ => True
  | .finished v, h => v.Apart r h
  | .evaluate closure _, h => closure.Apart r h

namespace Loop

variable {α : Type} {r : Handle} {k : Nat} {frame : CallFrame} {callers frames : List CallFrame} {e : Engine} {h : Heap}

structure Secluded (r : Handle) (k : Nat) (s : Loop) : Prop where
  engine : s.engine.Secluded r k
  frames : AllApart r s.frames s.engine.heap

def Guarded (r : Handle) (k : Nat) (h : Heap) (signal : Signal) (s : Loop) : Prop :=
  s.Secluded r k ∧ h.Guards r s.engine.heap ∧ signal.Apart r s.engine.heap

def Broken (r : Handle) (k : Nat) (h : Heap) (error : Error) (s : Loop) : Prop :=
  s.Secluded r k ∧ h.Guards r s.engine.heap ∧ error.Apart r s.engine.heap

theorem Secluded.setFrames (hs : Secluded r k ⟨e, frames⟩) {frames' : List CallFrame}
    (hf : ∀ g ∈ frames', ∃ g' ∈ frames, g.receiver = g'.receiver ∧ g.scope = g'.scope) : Secluded r k ⟨e, frames'⟩ := by
  refine ⟨hs.engine, fun g hg => ?_⟩
  obtain ⟨g', hg', hreceiver, hscope⟩ := hf g hg
  have hold : g'.Apart r e.heap := hs.frames g' hg'
  exact ⟨hreceiver ▸ hold.receiver, hscope ▸ hold.scope⟩

theorem Secluded.setHead (hs : Secluded r k ⟨e, frame :: callers⟩) {frame' : CallFrame}
    (hreceiver : frame'.receiver = frame.receiver) (hscope : frame'.scope = frame.scope) :
    Secluded r k ⟨e, frame' :: callers⟩ := by
  refine hs.setFrames fun g hg => ?_
  rcases List.mem_cons.mp hg with rfl | hg
  · exact ⟨frame, .head _, hreceiver, hscope⟩
  · exact ⟨g, .tail _ hg, rfl, rfl⟩

theorem within_guarding {V : α → Heap → Prop} {x : EngineM α} {f : α → LoopM Signal}
    (hf : AllApart r frames e.heap) (hh : h.Guards r e.heap) (hx : Guarding r k V x e)
    (hnext : ∀ a e', Secluded r k ⟨e', frames⟩ → e.heap.Guards r e'.heap → h.Guards r e'.heap → V a e'.heap →
      Ensures (f a) (Guarded r k h) (Broken r k h) ⟨e', frames⟩) :
    Ensures (within x >>= f) (Guarded r k h) (Broken r k h) ⟨e, frames⟩ := by
  refine .bind (.within ?_)
  cases hr : x e with
  | ok a e₁ =>
    obtain ⟨h₁, hh₁, hv⟩ := hx.returned hr
    exact .of_ok hr (hnext a e₁ ⟨h₁, hf.mono hh₁⟩ hh₁ (hh.trans hh₁) hv)
  | error error e₁ =>
    obtain ⟨h₁, hh₁, ha⟩ := hx.failed hr
    exact .of_error hr ⟨⟨h₁, hf.mono hh₁⟩, hh.trans hh₁, ha⟩

theorem returnFrom_guarded {returned : Option Value} (hs : Secluded r k ⟨e, callers⟩) (hh : h.Guards r e.heap)
    (hv : ∀ v, returned = some v → v.Apart r e.heap) :
    Ensures (returnFrom frame callers returned) (Guarded r k h) (Broken r k h) ⟨e, frames⟩ := by
  refine .bind (.modified (within_guarding hs.frames hh ((seclusion r k).leaveAll hs.engine _) ?_))
  refine fun _ e₁ h₁ hh₁ hh' _ => .get ?_
  have hvalue : ((returned.or (frame.completion.bind (e₁.stack[·]?))).getD .undefined).Apart r e₁.heap := by
    cases returned with
    | some v => exact hh₁.among (hv v rfl)
    | none =>
      cases frame.completion with
      | none => exact Value.among_of_plain rfl
      | some slot => exact h₁.engine.among.getD slot
  have hcut := (h₁.engine.cutScopes frame.savedScope).leaveTrace
  refine .bind (.modified ?_)
  split
  · exact .pure ⟨⟨hcut, h₁.frames⟩, hh', hvalue⟩
  · refine .bind (.modified ?_)
    exact within_guarding (e := cutStack frame.base (e₁.cutScopes frame.savedScope).leaveTrace) h₁.frames hh'
      ((seclusion r k).push (hcut.cutStack frame.base) hvalue) fun _ e₂ h₂ _ hh₂ _ => .pure ⟨h₂, hh₂, trivial⟩

theorem call_guarded (hs : Secluded r k ⟨e, frames⟩) (hc : AllApart r callers e.heap) (hh : h.Guards r e.heap)
    (argc : Nat) : Ensures (call callers argc) (Guarded r k h) (Broken r k h) ⟨e, frames⟩ := by
  refine within_guarding hs.frames hh ((seclusion r k).callSite hs.engine argc) fun site e₁ h₁ hh₁ hh' hsite => ?_
  obtain ⟨base, receiver, args, callee⟩ := site
  cases callee with
  | closure unit env =>
    refine within_guarding h₁.frames hh' ((seclusion r k).enterClosure h₁.engine hsite.callee hsite.receiver hsite.args unit)
      fun frame e₂ h₂ hh₂ hh'' hframe => .bind (.modified (.pure ⟨⟨h₂.engine, fun g hg => ?_⟩, hh'', trivial⟩))
    rcases List.mem_cons.mp hg with rfl | hg
    · exact hframe
    · exact (hc.mono hh₁).mono hh₂ g hg
  | native f =>
    have hnative := callNative_guarding h₁.engine f hsite.args
    refine .get ?_
    dsimp only [Guarding] at hnative ⊢
    cases hr : callNative f args e₁ with
    | error error e₂ =>
      obtain ⟨h₂, hh₂, ha⟩ := hnative.failed hr
      exact .bind (.set (.throw ⟨⟨h₂.cutStack base, h₁.frames.mono hh₂⟩, hh'.trans hh₂, ha⟩))
    | ok result e₂ =>
      obtain ⟨h₂, hh₂, hv⟩ := hnative.returned hr
      have hframes : AllApart r frames e₂.heap := h₁.frames.mono hh₂
      cases result with
      | run closure => exact .bind (.set (.pure ⟨⟨h₂, hframes⟩, hh'.trans hh₂, hv⟩))
      | value v =>
        refine .bind (.set ?_)
        exact within_guarding (e := e₂.cutStack base) hframes (hh'.trans hh₂) ((seclusion r k).push (h₂.cutStack base) hv)
          fun _ e₃ h₃ _ hh₃ _ => .pure ⟨h₃, hh₃, trivial⟩

theorem execute_guarded (hs : Secluded r k ⟨e, frame :: callers⟩) (hh : h.Guards r e.heap) (instr : Instr) :
    Ensures (execute frame callers instr) (Guarded r k h) (Broken r k h) ⟨e, frame :: callers⟩ := by
  have hframe : frame.Apart r e.heap := hs.frames frame (.head _)
  have hgoto {e : Engine} (hs : Secluded r k ⟨e, frame :: callers⟩) (hh : h.Guards r e.heap) (target : Nat) :
      Ensures (goto frame callers target >>= fun _ => pure Signal.proceed) (Guarded r k h) (Broken r k h)
        ⟨e, frame :: callers⟩ :=
    .bind (.modified (.pure ⟨hs.setHead rfl rfl, hh, trivial⟩))
  have hdrop {e : Engine} (hs : Secluded r k ⟨e, frame :: callers⟩) (hh : h.Guards r e.heap) :
      Ensures (within popped >>= fun _ => pure Signal.proceed) (Guarded r k h) (Broken r k h) ⟨e, frame :: callers⟩ :=
    within_guarding hs.frames hh ((seclusion r k).popped hs.engine) fun _ _ h₁ _ hh₁ _ => .pure ⟨h₁, hh₁, trivial⟩
  have hsimple (instr : Instr) : Ensures (within (simple frame instr) >>= fun _ => pure Signal.proceed) (Guarded r k h)
      (Broken r k h) ⟨e, frame :: callers⟩ :=
    within_guarding hs.frames hh ((seclusion r k).simple hs.engine hframe instr) fun _ _ h₁ _ hh₁ _ => .pure ⟨h₁, hh₁, trivial⟩
  cases instr with
  | call argc => exact call_guarded hs hs.frames hh argc
  | jump target => exact hgoto hs hh target
  | jumpIfFalse target =>
    refine within_guarding hs.frames hh ((seclusion r k).popped hs.engine) fun v _ h₁ _ hh₁ _ => ?_
    split
    · exact hgoto h₁ hh₁ target
    · exact .bind (.pure (.pure ⟨h₁, hh₁, trivial⟩))
  | jumpIfFalseKeep target =>
    refine within_guarding hs.frames hh ((seclusion r k).peek hs.engine) fun v _ h₁ _ hh₁ _ => ?_
    split
    · exact hdrop h₁ hh₁
    · exact hgoto h₁ hh₁ target
  | jumpIfTrueKeep target =>
    refine within_guarding hs.frames hh ((seclusion r k).peek hs.engine) fun v _ h₁ _ hh₁ _ => ?_
    split
    · exact hgoto h₁ hh₁ target
    · exact hdrop h₁ hh₁
  | «return» =>
    refine within_guarding hs.frames hh ((seclusion r k).popped hs.engine) fun v e₁ h₁ _ hh₁ hv => ?_
    refine returnFrom_guarded ⟨h₁.engine, fun g hg => h₁.frames g (.tail _ hg)⟩ hh₁ fun w hw => ?_
    exact Option.some.inj hw ▸ hv
  | «try» catchAt exitAt =>
    exact within_guarding hs.frames hh ((seclusion r k).enterProtected hs.engine) fun _ _ h₁ _ hh₁ _ =>
      .bind (.modified (.pure ⟨h₁.setHead rfl rfl, hh₁, trivial⟩))
  | leave =>
    simp only [execute]
    cases frame.handlers with
    | nil => exact .throw ⟨hs, hh, Error.apart_of_bare rfl⟩
    | cons handler handlers =>
      have hopen : Secluded r k ⟨e, { frame with handlers } :: callers⟩ := hs.setHead rfl rfl
      refine .bind (.modified ?_)
      exact within_guarding hopen.frames hh ((seclusion r k).leaveProtected hs.engine _) fun _ _ h₁ _ hh₁ _ =>
        .bind (.modified (.pure ⟨h₁.setHead rfl rfl, hh₁, trivial⟩))
  | _ => exact hsimple _

theorem step_guarded (hs : Secluded r k ⟨e, frames⟩) :
    Ensures step (Guarded r k e.heap) (Broken r k e.heap) ⟨e, frames⟩ := by
  refine .get ?_
  cases frames with
  | nil => exact .pure ⟨hs, .refl _ _, Value.among_of_plain rfl⟩
  | cons frame callers =>
    dsimp only
    cases frame.unit.code[frame.next]? with
    | none =>
      exact returnFrom_guarded ⟨hs.engine, fun g hg => hs.frames g (.tail _ hg)⟩ (.refl _ _) fun v hv => by cases hv
    | some instr =>
      have hnext : Secluded r k ⟨e, { frame with next := frame.next + 1 } :: callers⟩ :=
        hs.setHead rfl rfl
      dsimp only
      split
      · rename_i line _
        have hline : (e.atLine line).Secluded r k := { hs.engine with among := { hs.engine.among with } }
        exact .bind (.modified (.bind (.modified
          (execute_guarded (h := e.heap) ⟨hline, hnext.frames⟩ (.refl _ _) instr))))
      · exact .bind (.modified (execute_guarded hnext (.refl _ _) instr))

theorem catch?_frames {error : Error} {s : Loop} (hc : catch? error e frames = some s) :
    (∃ id, s.engine = (e.unwind id error).2) ∧
      ∀ g ∈ s.frames, ∃ g' ∈ frames, g.receiver = g'.receiver ∧ g.scope = g'.scope := by
  induction frames with
  | nil => cases hc
  | cons frame callers ih =>
    simp only [catch?] at hc
    split at hc
    · obtain ⟨hengine, hframes⟩ := ih hc
      refine ⟨hengine, fun g hg => ?_⟩
      obtain ⟨g', hg', hsame⟩ := hframes g hg
      exact ⟨g', .tail _ hg', hsame⟩
    · rename_i handler handlers _
      obtain rfl := Option.some.inj hc
      refine ⟨⟨handler.scope, rfl⟩, fun g hg => ?_⟩
      rcases List.mem_cons.mp hg with rfl | hg
      · exact ⟨frame, .head _, rfl, rfl⟩
      · exact ⟨g, .tail _ hg, rfl, rfl⟩

end Loop

namespace Machine

variable {r : Handle} {k : Nat} {e : Engine} {h : Heap} {error : Error} {tasks : List Task} {m : Machine}

structure Secluded (r : Handle) (k : Nat) (m : Machine) : Prop where
  engine : m.engine.Secluded r k
  frames : AllApart r m.frames m.engine.heap
  values : ∀ v ∈ m.control.values, v.Apart r m.engine.heap

def Guarded (r : Handle) (k : Nat) (h : Heap) (m : Machine) : Prop :=
  m.Secluded r k ∧ h.Guards r m.engine.heap

section Steps

theorem guarded_running {entry : Entry} {frames : List CallFrame} (he : e.Secluded r k) (hh : h.Guards r e.heap)
    (hf : AllApart r frames e.heap) (ht : AllApart r (tasks.flatMap Task.frames) e.heap) :
    Guarded r k h ⟨e, tasks, .running entry frames⟩ := by
  refine ⟨⟨he, fun g hg => ?_, fun v hv => by cases hv⟩, hh⟩
  exact (List.mem_append.mp hg).elim (hf g) (ht g)

theorem guarded_value {v : Value} (he : e.Secluded r k) (hh : h.Guards r e.heap) (hv : v.Apart r e.heap)
    (ht : AllApart r (tasks.flatMap Task.frames) e.heap) : Guarded r k h ⟨e, tasks, .returning (.ok v)⟩ := by
  refine ⟨⟨he, ht, fun w hw => ?_⟩, hh⟩
  obtain rfl := List.mem_singleton.mp hw
  exact hv

theorem guarded_error (he : e.Secluded r k) (hh : h.Guards r e.heap) (hx : error.Apart r e.heap)
    (ht : AllApart r (tasks.flatMap Task.frames) e.heap) : Guarded r k h ⟨e, tasks, .returning (.error error)⟩ :=
  ⟨⟨he, ht, fun v hv => hx v (Option.mem_toList.mp hv)⟩, hh⟩

theorem guarded_script {closure : Value} (he : e.Secluded r k) (hh : h.Guards r e.heap) (hc : closure.Apart r e.heap)
    (ht : AllApart r (tasks.flatMap Task.frames) e.heap) :
    Guarded r k h ⟨e, tasks, .calling (.object e.global) closure []⟩ := by
  refine ⟨⟨he, ht, fun v hv => ?_⟩, hh⟩
  rcases List.mem_cons.mp hv with rfl | hv
  · intro a ha
    obtain rfl := Option.some.inj ha
    exact he.among.global
  · obtain rfl := List.mem_singleton.mp hv
    exact hc

theorem failLoop_guards (he : e.Secluded r k) (hx : error.Apart r e.heap) (entry : Entry) :
    (failLoop entry error e).2.Secluded r k ∧ e.heap.Guards r (failLoop entry error e).2.heap ∧
      (failLoop entry error e).1.Apart r (failLoop entry error e).2.heap := by
  have hleft {e : Engine} (he : e.Secluded r k) :
      Engine.Secluded r k (cutStack entry.base { e.cutScopes entry.savedScope with
        trace := (e.cutScopes entry.savedScope).trace.shrink entry.traceDepth }) := by
    refine Engine.Secluded.cutStack ?_ entry.base
    exact { he.cutScopes entry.savedScope with among := { (he.cutScopes entry.savedScope).among with } }
  have hloops : Engine.Secluded r k { e with loops := e.loops - 1 } := { he with among := { he.among with } }
  obtain ⟨hmade, hh, hv⟩ := exceptionValue_guards hloops hx
  simp only [failLoop]
  cases hc : error.carried? with
  | some w => exact ⟨hleft hloops, .refl _ _, hx⟩
  | none => exact ⟨hleft hmade, hh, Error.apart_of_carried rfl hv⟩

theorem raise_guarded {s : Loop} (hs : s.Secluded r k) (hh : h.Guards r s.engine.heap)
    (hx : error.Apart r s.engine.heap) (entry : Entry)
    (ht : AllApart r (tasks.flatMap Task.frames) s.engine.heap) :
    Guarded r k h (raise entry error tasks s) := by
  simp only [raise]
  cases hc : Loop.catch? error s.engine s.frames with
  | some caught =>
    obtain ⟨⟨id, hunwound⟩, hframes⟩ := Loop.catch?_frames hc
    obtain ⟨hu, hh', -⟩ := unwind_guards hs.engine hx id
    rw [← hunwound] at hu hh'
    refine guarded_running hu (hh.trans hh') ?_ (ht.mono hh')
    exact (hs.setFrames hframes).frames.mono hh'
  | none =>
    obtain ⟨hleft, hh', hx'⟩ := failLoop_guards hs.engine hx entry
    exact guarded_error hleft (hh.trans hh') hx' (ht.mono hh')

theorem start_guarded (he : e.Secluded r k) (hh : h.Guards r e.heap) (argc : Nat)
    (ht : AllApart r (tasks.flatMap Task.frames) e.heap) : Guarded r k h (start argc tasks e) := by
  simp only [start]
  cases hs : callSite argc e with
  | error error e₁ =>
    obtain ⟨h₁, hh₁, hx⟩ := ((seclusion r k).callSite he argc).failed hs
    exact guarded_error h₁ (hh.trans hh₁) hx (ht.mono hh₁)
  | ok site e₁ =>
    obtain ⟨h₁, hh₁, hsite⟩ := ((seclusion r k).callSite he argc).returned hs
    have ht₁ : AllApart r (tasks.flatMap Task.frames) e₁.heap := ht.mono hh₁
    obtain ⟨base, receiver, args, callee⟩ := site
    cases callee with
    | native f =>
      have hnative := callNative_guarding h₁ f hsite.args
      dsimp only [Guarding] at hnative ⊢
      cases hr : callNative f args e₁ with
      | error error e₂ =>
        obtain ⟨h₂, hh₂, hx⟩ := hnative.failed hr
        exact guarded_error (h₂.cutStack base) ((hh.trans hh₁).trans hh₂) hx (ht₁.mono hh₂)
      | ok result e₂ =>
        obtain ⟨h₂, hh₂, hv⟩ := hnative.returned hr
        have ht₂ : AllApart r (tasks.flatMap Task.frames) e₂.heap := ht₁.mono hh₂
        cases result with
        | value v => exact guarded_value (h₂.cutStack base) ((hh.trans hh₁).trans hh₂) hv ht₂
        | run closure => exact guarded_script h₂ ((hh.trans hh₁).trans hh₂) hv ht₂
    | closure unit env =>
      dsimp only
      split
      · exact guarded_error (h₁.cutStack base) (hh.trans hh₁) (Error.apart_of_bare rfl) ht₁
      · have hdeeper : Engine.Secluded r k { e₁ with loops := e₁.loops + 1 } := { h₁ with among := { h₁.among with } }
        have hentered : Guarding r k (CallFrame.Apart r)
            (enterClosure unit env ⟨base, receiver, args, .closure unit env⟩) _ :=
          (seclusion r k).enterClosure hdeeper hsite.callee hsite.receiver hsite.args unit
        split
        · rename_i frame e₂ hr
          obtain ⟨h₂, hh₂, hframe⟩ := hentered.returned hr
          refine guarded_running h₂ ((hh.trans hh₁).trans hh₂) (fun g hg => ?_) (ht₁.mono hh₂)
          obtain rfl := List.mem_singleton.mp hg
          exact hframe
        · rename_i error e₂ hr
          obtain ⟨h₂, hh₂, hx⟩ := hentered.failed hr
          exact raise_guarded (s := ⟨e₂, []⟩) ⟨h₂, fun g hg => by cases hg⟩ ((hh.trans hh₁).trans hh₂) hx _
            (ht₁.mono hh₂)

theorem call_guarded {receiver callee : Value} {args : List Value} (he : e.Secluded r k)
    (hv : ∀ v ∈ receiver :: callee :: args, v.Apart r e.heap) (ht : AllApart r (tasks.flatMap Task.frames) e.heap) :
    Guarded r k e.heap (call receiver callee args tasks e) := by
  simp only [call]
  cases hb : beginProtected e with
  | error error e₁ =>
    obtain ⟨h₁, hh₁, hx⟩ := (beginProtected_guarding he).failed hb
    obtain ⟨hpopped, hh', hx'⟩ := carry_guards h₁ hx
    exact guarded_error hpopped (hh₁.trans hh') hx' ((ht.mono hh₁).mono hh')
  | ok scope e₁ =>
    obtain ⟨h₁, hh₁, -⟩ := (beginProtected_guarding he).returned hb
    have hall : ∀ v ∈ callee :: receiver :: args, v.Apart r e₁.heap := by
      intro v hmem
      refine hh₁.among (hv v ?_)
      simp only [List.mem_cons] at hmem ⊢
      exact or_left_comm.mp hmem
    have ht₁ : AllApart r ((Task.guard scope :: tasks).flatMap Task.frames) e₁.heap := ht.mono hh₁
    dsimp only
    cases hp : pushAll (callee :: receiver :: args) e₁ with
    | error error e₂ =>
      obtain ⟨h₂, hh₂, hx⟩ := ((seclusion r k).pushAll h₁ hall).failed hp
      exact guarded_error h₂ (hh₁.trans hh₂) hx (ht₁.mono hh₂)
    | ok _ e₂ =>
      obtain ⟨h₂, hh₂, -⟩ := ((seclusion r k).pushAll h₁ hall).returned hp
      exact start_guarded h₂ (hh₁.trans hh₂) args.length (ht₁.mono hh₂)

theorem resultIn_discreet {result : Except Error Value} (he : e.Secluded r k)
    (hc : ∀ v ∈ (Control.returning result).values, v.Apart r e.heap) :
    Discreet r k e.heap (Value.Apart r) (resultIn e result) := by
  cases result with
  | ok v => exact ⟨he, .refl _ _, hc v (.head _)⟩
  | error error => exact ⟨he, .refl _ _, fun v hv => hc v (Option.mem_toList.mpr hv)⟩

theorem resume_guarded {result : Except Error Value} {task : Task} (he : e.Secluded r k)
    (hc : ∀ v ∈ (Control.returning result).values, v.Apart r e.heap)
    (ht : AllApart r ((task :: tasks).flatMap Task.frames) e.heap) :
    Guarded r k e.heap (resume result tasks e task) := by
  have hresult := resultIn_discreet he hc
  rw [AllApart, List.flatMap_cons, List.forall_mem_append] at ht
  obtain ⟨hframes, ht⟩ : AllApart r task.frames e.heap ∧ AllApart r (tasks.flatMap Task.frames) e.heap := ht
  cases task with
  | native base =>
    exact ⟨⟨he.leaveTrace.cutStack base, ht, hc⟩, .refl _ _⟩
  | guard scope =>
    have hended := carried_discreet (endProtected_discreet hresult scope)
    simp only [resume]
    cases hr : carried (endProtected scope (resultIn e result)) with
    | ok v e₁ =>
      obtain ⟨h₁, hh₁, hv⟩ := hended.returned hr
      exact guarded_value h₁ hh₁ hv (ht.mono hh₁)
    | error error e₁ =>
      obtain ⟨h₁, hh₁, hx⟩ := hended.failed hr
      exact guarded_error h₁ hh₁ hx (ht.mono hh₁)
  | loop entry frames =>
    cases result with
    | error error => exact raise_guarded (s := ⟨e, frames⟩) ⟨he, hframes⟩ (.refl _ _) hresult.2.2 entry ht
    | ok v =>
      have hpushed := (seclusion r k).push he hresult.2.2
      simp only [resume]
      cases hp : push v e with
      | ok _ e₁ =>
        obtain ⟨h₁, hh₁, -⟩ := hpushed.returned hp
        exact guarded_running h₁ hh₁ (hframes.mono hh₁) (ht.mono hh₁)
      | error error e₁ =>
        obtain ⟨h₁, hh₁, hx⟩ := hpushed.failed hp
        exact raise_guarded (s := ⟨e₁, frames⟩) ⟨h₁, hframes.mono hh₁⟩ hh₁ hx entry
          (ht.mono hh₁)

end Steps

theorem Secluded.step (hm : m.Secluded r k) : Guarded r k m.engine.heap m.step := by
  obtain ⟨e, tasks, control⟩ := m
  obtain ⟨he, hf, hc⟩ := hm
  have ht : AllApart r (tasks.flatMap Task.frames) e.heap := fun g hg => hf g (List.mem_append_right _ hg)
  cases control with
  | calling receiver callee args => exact call_guarded he hc ht
  | returning result =>
    cases tasks with
    | nil => exact ⟨⟨he, hf, hc⟩, .refl _ _⟩
    | cons task tasks => exact resume_guarded he hc ht
  | running entry frames =>
    have hframes : AllApart r frames e.heap := fun g hg => hf g (List.mem_append_left _ hg)
    have hstep := Loop.step_guarded ⟨he, hframes⟩
    simp only [Machine.step]
    cases hs : Loop.step ⟨e, frames⟩ with
    | error error s =>
      obtain ⟨h₁, hh, hx⟩ := hstep.error hs
      exact raise_guarded h₁ hh hx entry (ht.mono hh)
    | ok signal s =>
      obtain ⟨h₁, hh, hsignal⟩ := hstep.ok hs
      have ht₁ : AllApart r (tasks.flatMap Task.frames) s.engine.heap := ht.mono hh
      cases signal with
      | proceed => exact guarded_running h₁.engine hh h₁.frames ht₁
      | finished v =>
        have hleft : Engine.Secluded r k { s.engine with loops := s.engine.loops - 1 } :=
          { h₁.engine with among := { h₁.engine.among with } }
        exact guarded_value (hleft.cutStack entry.base) hh hsignal ht₁
      | evaluate closure base =>
        refine guarded_script h₁.engine hh hsignal ?_
        show AllApart r (s.frames ++ tasks.flatMap Task.frames) s.engine.heap
        exact List.forall_mem_append.mpr ⟨h₁.frames, ht₁⟩

end Machine

end ScriptEngine
