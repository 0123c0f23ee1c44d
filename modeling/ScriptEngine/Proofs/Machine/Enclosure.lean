import ScriptEngine.Proofs.Code.Operands
import ScriptEngine.Proofs.Heap.Enclosure
import ScriptEngine.Proofs.Machine.Closures
import ScriptEngine.Proofs.Machine.Endurance
import ScriptEngine.Proofs.Machine.Reentry
import ScriptEngine.Proofs.Machine.Simulation

namespace ScriptEngine

open Engine

def Instr.declares? : Instr → Option String
  | .defineVar name | .declareVar name => some name
  | _ => none

def Instr.assigns? : Instr → Option String
  | .setVar name => some name
  | _ => none

namespace Machine

def next? (m : Machine) : Option Instr :=
  match m.control with
  | .running _ (g :: _) => g.unit.code[g.next]?
  | _ => none

def declares? (m : Machine) : Option String :=
  m.next?.bind Instr.declares?

def assigns? (m : Machine) : Option (String × Value) :=
  (m.next?.bind Instr.assigns?).bind fun name => m.engine.stack.back?.map (name, ·)

end Machine

namespace Enclosure

open Heap

variable {K : Enclosure}

section Operands

variable (K) in
inductive Lies : List Operand → List Value → Prop
  | nil (low : List Value) : Lies [] low
  | cons {o : Operand} {s : List Operand} {low : List Value} {v : Value} :
      (o = .literal → ∃ a, v = .object a ∧ K.New a) → Lies s low → Lies (o :: s) (low ++ [v])

theorem Lies.value {s : List Operand} {low : List Value} (h : K.Lies s low) (v : Value) :
    K.Lies (.value :: s) (low ++ [v]) := by
  refine .cons (fun ho => ?_) h
  cases ho

theorem Lies.top {o : Operand} {s : List Operand} {l : List Value} (h : K.Lies (o :: s) l) :
    ∃ low v, l = low ++ [v] ∧ (o = .literal → ∃ a, v = .object a ∧ K.New a) ∧ K.Lies s low := by
  cases h with
  | cons ho hs => exact ⟨_, _, rfl, ho, hs⟩

theorem Lies.split {ops s : List Operand} {l : List Value} (h : K.Lies (ops ++ s) l) :
    ∃ low values, l = low ++ values ∧ values.length = ops.length ∧ K.Lies s low := by
  induction ops generalizing l with
  | nil => exact ⟨l, [], (List.append_nil l).symm, rfl, h⟩
  | cons o ops ih =>
    obtain ⟨l, v, rfl, -, hrest⟩ := Lies.top h
    obtain ⟨low, values, rfl, hlength, hlow⟩ := ih hrest
    exact ⟨low, values ++ [v], List.append_assoc .., by simp [hlength], hlow⟩

theorem Lies.values {s : List Operand} {low : List Value} (h : K.Lies s low) {n : Nat} {out : List Value}
    (ho : out.length = n) : K.Lies (List.replicate n .value ++ s) (low ++ out) := by
  induction n generalizing out with
  | zero =>
    obtain rfl := List.length_eq_zero_iff.mp ho
    rwa [List.append_nil]
  | succ n ih =>
    obtain ⟨out, v, rfl⟩ : ∃ rest v, out = rest ++ [v] :=
      ⟨out.dropLast, out.getLast (by rintro rfl; cases ho), (List.dropLast_append_getLast _).symm⟩
    rw [List.length_append, List.length_singleton] at ho
    rw [← List.append_assoc]
    exact (ih (Nat.succ.inj ho)).value v

end Operands

section Errors

variable {h₀ : Heap} {e : Engine}

theorem Quiet.exceptionValue (hq : K.Quiet h₀ e.heap) (error : Error) : K.Quiet h₀ (e.exceptionValue error).2.heap := by
  simp only [Engine.exceptionValue]
  split
  · exact hq
  · split
    · exact hq.allocObject _
    · exact hq

theorem Quiet.unwind (hq : K.Quiet h₀ e.heap) {frame : ProtectedFrame} {frames : List ProtectedFrame}
    (hf : e.frames = frame :: frames) (hm : K.base.born ≤ frame.heapMark) (error : Error) :
    K.Quiet h₀ (e.unwind frame.id error).2.heap := by
  have hfound : findFrame frame.id e.frames = some (frame, frames) := hf ▸ findFrame_top frame frames
  have hleft : K.Quiet h₀ ({ e with frames } : Engine).heap := hq
  have hvalue : K.Quiet h₀ ({ e with frames }.exceptionValue error).2.heap := hleft.exceptionValue error
  simp only [Engine.unwind, hfound]
  exact hvalue.collectSince hm _

end Errors

variable (K) in
inductive Guards (σ : Nat → List Operand) (id : ScopeId) : List Handler → List ProtectedFrame → Prop
  | call {f : ProtectedFrame} {fs : List ProtectedFrame} : f.id = id → K.base.born ≤ f.heapMark → Guards σ id [] (f :: fs)
  | try {t : Handler} {ts : List Handler} {f : ProtectedFrame} {fs : List ProtectedFrame} :
      f.id = t.scope → K.base.born ≤ f.heapMark → K.Inside f.env → σ t.catchAt = [.value] → σ t.exitAt = [] →
        Guards σ id ts fs → Guards σ id (t :: ts) (f :: fs)

variable (K) in
structure Contains (σ : Nat → List Operand) (id : ScopeId) (g : CallFrame) (e : Engine) : Prop where
  handled : g.unit.Handled σ
  strict : g.unit.strict = true
  scope : g.scope = K.scope
  holds : K.Holds e.heap
  saved : ∀ i a, g.savedScope < i → e.scopes[i]? = some a → K.Inside a
  guards : K.Guards σ id g.handlers e.frames

variable (K) in
structure Works (σ : Nat → List Operand) (id : ScopeId) (g : CallFrame) (e : Engine) : Prop
    extends K.Contains σ id g e where
  env : K.Inside e.env
  lies : K.Lies (σ g.next) e.stack.toList

namespace Contains

variable {σ : Nat → List Operand} {id : ScopeId} {g : CallFrame} {e : Engine}

theorem goto (h : K.Contains σ id g e) (target : Nat) : K.Contains σ id { g with next := target } e :=
  ⟨h.handled, h.strict, h.scope, h.holds, h.saved, h.guards⟩

theorem reset (h : K.Contains σ id g e) {heap : Heap} (hh : K.Holds heap) (l : List Value) :
    K.Contains σ id g (e.reset l heap) :=
  ⟨h.handled, h.strict, h.scope, hh, h.saved, h.guards⟩

end Contains

section Mild

variable {h₀ h : Heap} {e : Engine} {low : List Value} {g : CallFrame} {instr : Instr}

variable (K) in
def Settles (h₀ : Heap) (e : Engine) (low : List Value) (n : Nat) (e' : Engine) : Prop :=
  ∃ out h, out.length = n ∧ e' = e.reset (low ++ out) h ∧ K.Quiet h₀ h

variable (K) in
def Breaks (h₀ : Heap) (e e' : Engine) : Prop :=
  ∃ l h, e' = e.reset l h ∧ K.Quiet h₀ h

theorem push_settles (hq : K.Quiet h₀ h) (v : Value) :
    Ensures (push v) (fun _ => K.Settles h₀ e low 1) (fun _ => K.Breaks h₀ e) (e.reset low h) :=
  .push ⟨[v], h, rfl, rfl, hq⟩ ⟨low, h, rfl, hq⟩

theorem ask_settles (hq : K.Quiet h₀ h) (f : Heap → Except Fault Value) :
    Ensures (EngineM.ask f >>= push) (fun _ => K.Settles h₀ e low 1) (fun _ => K.Breaks h₀ e) (e.reset low h) :=
  .bind (.ask (fun v _ => push_settles hq v) fun _ _ => ⟨low, h, rfl, hq⟩)

theorem simple_settles {ops : List Value} (hq : K.Quiet h₀ h) (hm : instr.isMild = true) (hd : instr.declares? = none)
    (ha : instr.assigns? = none) (ho : ops.length = instr.operands) :
    Ensures (Loop.simple g instr) (fun _ => K.Settles h₀ e low instr.results) (fun _ => K.Breaks h₀ e)
      (e.reset (low ++ ops) h) := by
  cases instr with
  | undefined | null | boolean | number | string | this =>
    obtain rfl := List.length_eq_zero_iff.mp ho
    rw [List.append_nil]
    exact push_settles hq _
  | getVar name =>
    obtain rfl := List.length_eq_zero_iff.mp ho
    rw [List.append_nil]
    exact .get (ask_settles hq _)
  | closure index =>
    obtain rfl := List.length_eq_zero_iff.mp ho
    rw [List.append_nil]
    simp only [Loop.simple]
    cases g.unit.functions[index]? with
    | none => exact .fault ⟨low, h, rfl, hq⟩
    | some unit => exact .get (.bind (.modifyGet (push_settles (hq.allocObject _) _)))
  | getProp name =>
    obtain ⟨t, rfl⟩ := List.length_eq_one_iff.mp ho
    exact .bind (.popped (ask_settles hq _))
  | getIndex =>
    obtain ⟨t, k, rfl⟩ := List.length_eq_two.mp ho
    rw [List.append_cons]
    exact .bind (.popped (.bind (.popped (.get (ask_settles hq _)))))
  | pop =>
    obtain ⟨v, rfl⟩ := List.length_eq_one_iff.mp ho
    exact .bind (.popped ⟨[], h, rfl, by rw [List.append_nil], hq⟩)
  | negate | not =>
    obtain ⟨v, rfl⟩ := List.length_eq_one_iff.mp ho
    exact .bind (.popped (push_settles hq _))
  | typeof =>
    obtain ⟨v, rfl⟩ := List.length_eq_one_iff.mp ho
    exact .bind (.popped (.get (push_settles hq _)))
  | binary op =>
    obtain ⟨l, r, rfl⟩ := List.length_eq_two.mp ho
    rw [List.append_cons]
    exact .bind (.popped (.bind (.popped (.get (push_settles hq _)))))
  | setVar => cases ha
  | defineVar | declareVar => cases hd
  | newObject | initProp | setProp | setIndex | getMethod | call | jump | jumpIfFalse | jumpIfFalseKeep | jumpIfTrueKeep
  | «return» | throw | «try» | leave | enterCatch | exitCatch | setCompletion => cases hm

end Mild

variable (K) in
structure Meets (σ : Nat → List Operand) (id : ScopeId) (s : List Operand) (instr : Instr) (g : CallFrame) (e : Engine) :
    Prop extends K.Contains σ id g e where
  env : K.Inside e.env
  lies : K.Lies s e.stack.toList
  handles : ∃ a, g.next = a + 1 ∧ instr.Handles a s fun t r => σ t = r

variable (K) in
def Proceeds (σ : Nat → List Operand) (id : ScopeId) (instr : Instr) (e : Engine) (signal : Signal) (t : Loop) : Prop :=
  signal = .proceed ∧ ∃ g, t.frames = [g] ∧ K.Works σ id g t.engine ∧
    K.Turns instr.declares? (instr.assigns?.bind fun name => e.stack.back?.map (name, ·)) e.heap t.engine.heap

variable (K) in
def Fails (σ : Nat → List Operand) (id : ScopeId) (instr : Instr) (e : Engine) (t : Loop) : Prop :=
  instr.declares? = none ∧ ∃ g, t.frames = [g] ∧ K.Contains σ id g t.engine ∧ K.Quiet e.heap t.engine.heap

variable (K) in
def Acts (σ : Nat → List Operand) (id : ScopeId) (instr : Instr) (e : Engine) (g : CallFrame) (e' : Engine) : Prop :=
  Ensures (Loop.simple g instr) (fun _ e'' => K.Proceeds σ id instr e .proceed ⟨e'', [g]⟩)
    (fun _ e'' => K.Fails σ id instr e ⟨e'', [g]⟩) e'

variable (K) in
def Moves (σ : Nat → List Operand) (id : ScopeId) (instr : Instr) (g : CallFrame) (e : Engine) : Prop :=
  Ensures (Loop.execute g [] instr) (K.Proceeds σ id instr e) (fun _ => K.Fails σ id instr e) ⟨e, [g]⟩

namespace Meets

variable {σ : Nat → List Operand} {id : ScopeId} {s : List Operand} {instr : Instr} {g : CallFrame} {e : Engine}

theorem quiet (h : K.Meets σ id s instr g e) : K.Quiet e.heap e.heap := h.holds.quiet

theorem works (h : K.Meets σ id s instr g e) {target : Nat} {l : List Value} {heap : Heap} (hh : K.Holds heap)
    (hl : K.Lies (σ target) l) : K.Works σ id { g with next := target } (e.reset l heap) :=
  ⟨(h.toContains.reset hh l).goto target, h.env, by simpa [Engine.reset] using hl⟩

theorem goes (h : K.Meets σ id s instr g e) {target : Nat} {l : List Value} {heap : Heap} (hl : K.Lies (σ target) l)
    (ht : K.Turns instr.declares? (instr.assigns?.bind fun name => e.stack.back?.map (name, ·)) e.heap heap) :
    K.Proceeds σ id instr e .proceed ⟨e.reset l heap, [{ g with next := target }]⟩ :=
  ⟨rfl, _, rfl, h.works ht.holds hl, ht⟩

theorem proceeds (h : K.Meets σ id s instr g e) {l : List Value} {heap : Heap} (hl : K.Lies (σ g.next) l)
    (ht : K.Turns instr.declares? (instr.assigns?.bind fun name => e.stack.back?.map (name, ·)) e.heap heap) :
    K.Proceeds σ id instr e .proceed ⟨e.reset l heap, [g]⟩ := h.goes hl ht

theorem fails (h : K.Meets σ id s instr g e) (hd : instr.declares? = none) {l : List Value} {heap : Heap}
    (hq : K.Quiet e.heap heap) : K.Fails σ id instr e ⟨e.reset l heap, [g]⟩ :=
  ⟨hd, g, rfl, h.toContains.reset hq.toHolds l, hq⟩

theorem quietly (h : K.Meets σ id s instr g e) (hd : instr.declares? = none) {heap : Heap} (hq : K.Quiet e.heap heap) :
    K.Turns instr.declares? (instr.assigns?.bind fun name => e.stack.back?.map (name, ·)) e.heap heap :=
  hd ▸ hq.turns h.holds _

theorem within (h : K.Acts σ id instr e g e) :
    Ensures (Loop.within (Loop.simple g instr) >>= fun _ => Pure.pure .proceed) (K.Proceeds σ id instr e)
      (fun _ => K.Fails σ id instr e) ⟨e, [g]⟩ :=
  .bind (.within (h.mono (fun _ _ hp => .pure hp) fun _ _ hf => hf))

theorem split (h : K.Meets σ id s instr g e) {ops r : List Operand} (hs : s = ops ++ r) :
    ∃ low values, e = e.reset (low ++ values) e.heap ∧ values.length = ops.length ∧ K.Lies r low := by
  obtain ⟨low, values, hl, hlength, hlow⟩ := Lies.split (hs ▸ h.lies)
  exact ⟨low, values, by rw [← hl, reset_self], hlength, hlow⟩

theorem top (h : K.Meets σ id s instr g e) {o : Operand} {r : List Operand} (hs : s = o :: r) :
    ∃ low v, e = e.reset (low ++ [v]) e.heap ∧ (o = .literal → ∃ a, v = .object a ∧ K.New a) ∧ K.Lies r low := by
  obtain ⟨low, v, hl, ho, hlow⟩ := Lies.top (hs ▸ h.lies)
  exact ⟨low, v, by rw [← hl, reset_self], ho, hlow⟩

theorem settled (h : K.Meets σ id s instr g e) (hm : instr.isMild = true) (hd : instr.declares? = none)
    (ha : instr.assigns? = none) : K.Acts σ id instr e g e := by
  obtain ⟨a, hn, hhandles⟩ := h.handles
  obtain ⟨ops, r, hs, ho, hnext⟩ := (Instr.handles_of_isMild hm).mp hhandles
  obtain ⟨low, values, he, hlength, hlow⟩ := h.split hs
  have hx : Ensures (Loop.simple g instr) (fun _ => K.Settles e.heap e low instr.results) (fun _ => K.Breaks e.heap e)
      (e.reset (low ++ values) e.heap) := simple_settles h.quiet hm hd ha (hlength.trans ho)
  rw [← he] at hx
  refine hx.mono ?_ ?_
  · rintro _ _ ⟨out, heap, hout, rfl, hq⟩
    refine h.proceeds ?_ (h.quietly hd hq)
    rw [hn, hnext]
    exact hlow.values hout
  · rintro _ _ ⟨l, heap, rfl, hq⟩
    exact h.fails hd hq

theorem newObject (h : K.Meets σ id s .newObject g e) : K.Acts σ id .newObject e g e := by
  obtain ⟨a, hn, o, hnext⟩ := h.handles
  have hq := h.quiet.allocObject (.of .plain)
  have hnew := h.quiet.new_alloc (.object (.of .plain))
  refine .bind (.modifyGet ?_)
  refine .push (e := e) (l := e.stack.toList) (h.proceeds ?_ (h.quietly rfl hq)) (h.fails rfl hq)
  rw [hn, hnext]
  exact .cons (fun _ => ⟨_, rfl, hnew⟩) h.lies

theorem initProp {name : String} (h : K.Meets σ id s (.initProp name) g e) : K.Acts σ id (.initProp name) e g e := by
  obtain ⟨a, hn, o, o', r, hs, hnext⟩ := h.handles
  obtain ⟨_, v, he, -, htarget⟩ := h.top hs
  obtain ⟨low, t, rfl, ht, hlow⟩ := htarget.top
  obtain ⟨b, rfl, hnew⟩ := ht rfl
  have hx : K.Acts σ id (.initProp name) e g (e.reset (low ++ [.object b] ++ [v]) e.heap) := by
    refine .bind (.popped (.bind (.peek (.change (fun h' hset => ?_) fun f _ => h.fails rfl h.quiet))))
    refine h.proceeds ?_ (h.quietly rfl (h.quiet.setProperty hnew hset))
    rw [hn, hnext]
    exact .cons (fun _ => ⟨b, rfl, hnew⟩) hlow
  rwa [← he] at hx

theorem setVar {name : String} (h : K.Meets σ id s (.setVar name) g e) : K.Acts σ id (.setVar name) e g e := by
  obtain ⟨a, hn, -, ops, r, hs, ho, hnext⟩ := h.handles
  obtain ⟨o, rfl⟩ := List.length_eq_one_iff.mp ho
  obtain ⟨low, v, he, -, hlow⟩ := h.top hs
  have hback : e.stack.back? = some v := by
    rw [he]
    simp [Engine.reset]
  have hx : K.Acts σ id (.setVar name) e g (e.reset (low ++ [v]) e.heap) := by
    refine .bind (.peek (.get (.change (fun h' hset => h.proceeds ?_ ?_) fun f _ => h.fails rfl h.quiet)))
    · rw [hn, hnext]
      exact hlow.value v
    · rw [h.strict] at hset
      have hturns := h.holds.assign h.env hset
      simpa only [Instr.declares?, Instr.assigns?, Option.bind_some, hback, Option.map_some] using hturns
  rwa [← he] at hx

theorem defineVar {name : String} (h : K.Meets σ id s (.defineVar name) g e) : K.Acts σ id (.defineVar name) e g e := by
  obtain ⟨a, hn, -, ops, r, hs, ho, hnext⟩ := h.handles
  obtain ⟨o, rfl⟩ := List.length_eq_one_iff.mp ho
  obtain ⟨low, v, he, -, hlow⟩ := h.top hs
  obtain ⟨h', hd, hturns⟩ := h.holds.define name v none
  have hx : K.Acts σ id (.defineVar name) e g (e.reset (low ++ [v]) e.heap) := by
    simp only [Acts, Loop.simple, h.scope]
    refine .bind (.popped (.change (fun h'' hset => ?_) fun f hf => ?_))
    · cases hd.symm.trans hset
      refine h.proceeds ?_ hturns
      rw [hn, hnext]
      exact hlow
    · cases hd.symm.trans hf
  rwa [← he] at hx

theorem declareVar {name : String} (h : K.Meets σ id s (.declareVar name) g e) :
    K.Acts σ id (.declareVar name) e g e := by
  obtain ⟨a, hn, -, ops, r, hs, ho, hnext⟩ := h.handles
  obtain rfl := List.length_eq_zero_iff.mp ho
  obtain ⟨h', hd, hturns⟩ := h.holds.declare name none
  simp only [Acts, Loop.simple, h.scope]
  refine .change (e := e) (l := e.stack.toList) (f := (Environment.declare · K.scope name)) (fun h'' hset => ?_)
    fun f hf => ?_
  · cases hd.symm.trans hset
    refine h.proceeds ?_ hturns
    rw [hn, hnext]
    exact hs ▸ h.lies
  · cases hd.symm.trans hf

theorem enterCatch {name : String} (h : K.Meets σ id s (.enterCatch name) g e) :
    K.Acts σ id (.enterCatch name) e g e := by
  obtain ⟨a, hn, hs, hnext⟩ := h.handles
  obtain ⟨low, v, he, -, hlow⟩ := h.top hs
  obtain ⟨hopened, hnew⟩ := h.quiet.environment h.env
  have hx : K.Acts σ id (.enterCatch name) e g (e.reset (low ++ [v]) e.heap) := by
    refine .bind (.popped (.get (.bind (.bind (.change (fun h' hd => .modified ?_) fun f _ => ?_)))))
    · have hq := hopened.define hnew hd
      refine ⟨rfl, g, rfl, ⟨⟨h.handled, h.strict, h.scope, hq.toHolds, fun i b hi hb => ?_, h.guards⟩, .inr hnew, ?_⟩,
        h.quietly rfl hq⟩
      · have hb' : (e.scopes.push e.env)[i]? = some b := hb
        rw [Array.getElem?_push] at hb'
        split at hb'
        · exact Option.some.inj hb' ▸ h.env
        · exact h.saved i b hi hb'
      · rw [hn, hnext]
        exact .nil _
    · exact h.fails rfl hopened
  rwa [← he] at hx

theorem exitCatch (h : K.Meets σ id s .exitCatch g e) (hdepth : g.savedScope + 2 ≤ e.scopes.size) :
    K.Acts σ id .exitCatch e g e := by
  obtain ⟨a, hn, -, hnext⟩ := h.handles
  refine .modified ?_
  have hlast : e.scopes[e.scopes.size - 1]? = some e.scopes[e.scopes.size - 1] := Array.getElem?_eq_getElem _
  have hback : e.scopes.back? = some e.scopes[e.scopes.size - 1] := hlast
  simp only [leaveScope, hback]
  refine ⟨rfl, g, rfl, ⟨⟨h.handled, h.strict, h.scope, h.holds, fun i b hi hb => ?_, h.guards⟩, ?_, ?_⟩,
    h.quietly rfl h.quiet⟩
  · rw [Array.getElem?_pop] at hb
    split at hb
    · exact h.saved i b hi hb
    · cases hb
  · exact h.saved _ _ (by omega) hlast
  · rw [hn, hnext]
    exact .nil _

theorem throw (h : K.Meets σ id s .throw g e) : K.Acts σ id .throw e g e :=
  .bind (.modifyGet (.get (.throw (h.fails rfl (l := e.stack.pop.toList) h.quiet))))

theorem setCompletion (h : K.Meets σ id s .setCompletion g e) : K.Acts σ id .setCompletion e g e := by
  obtain ⟨a, hn, -, hnext⟩ := h.handles
  have hp (l : List Value) : K.Proceeds σ id .setCompletion e .proceed ⟨e.reset l e.heap, [g]⟩ := by
    refine h.proceeds ?_ (h.quietly rfl h.quiet)
    rw [hn, hnext]
    exact .nil l
  refine .bind (.modifyGet ?_)
  cases g.completion with
  | none => exact .pure (hp e.stack.pop.toList)
  | some slot => exact .modified (hp (e.stack.pop.setIfInBounds slot _).toList)

theorem jump {t : Nat} (h : K.Meets σ id s (.jump t) g e) : K.Moves σ id (.jump t) g e := by
  obtain ⟨a, -, ht⟩ := h.handles
  refine .bind (.modified (.pure (h.goes (l := e.stack.toList) ?_ (h.quietly rfl h.quiet))))
  rw [ht]
  exact h.lies

theorem jumpIfFalse {t : Nat} (h : K.Meets σ id s (.jumpIfFalse t) g e) : K.Moves σ id (.jumpIfFalse t) g e := by
  obtain ⟨a, hn, o, r, hs, ht, hnext⟩ := h.handles
  obtain ⟨low, v, he, -, hlow⟩ := h.top hs
  have hpop : popped e = .ok v (e.reset low e.heap) := by
    apply Ensures.eq_ok
    rw [he]
    exact .popped ⟨rfl, rfl⟩
  refine .bind (.within (Ensures.of_ok hpop ?_))
  split
  · exact .bind (.modified (.pure (h.goes (ht ▸ hlow) (h.quietly rfl h.quiet))))
  · exact .bind (.pure (.pure (h.proceeds ((hn ▸ hnext) ▸ hlow) (h.quietly rfl h.quiet))))

theorem kept {t : Nat} {r : List Operand} (h : K.Meets σ id s instr g e) (hd : instr.declares? = none)
    (hs : s = .value :: r) (ht : σ t = s) (hnext : σ g.next = r) :
    ∃ v e', popped e = .ok v e' ∧ peek e = .ok v e ∧ K.Proceeds σ id instr e .proceed ⟨e', [g]⟩ ∧
      K.Proceeds σ id instr e .proceed ⟨e, [{ g with next := t }]⟩ := by
  obtain ⟨low, v, he, -, hlow⟩ := h.top hs
  refine ⟨v, e.reset low e.heap, ?_, ?_, ?_, ?_⟩
  · apply Ensures.eq_ok
    rw [he]
    exact .popped ⟨rfl, rfl⟩
  · apply Ensures.eq_ok
    rw [he]
    exact .peek ⟨rfl, rfl⟩
  · exact h.proceeds (hnext ▸ hlow) (h.quietly hd h.quiet)
  · exact h.goes (l := e.stack.toList) (ht ▸ h.lies) (h.quietly hd h.quiet)

theorem jumpIfFalseKeep {t : Nat} (h : K.Meets σ id s (.jumpIfFalseKeep t) g e) :
    K.Moves σ id (.jumpIfFalseKeep t) g e := by
  obtain ⟨a, hn, r, hs, ht, hnext⟩ := h.handles
  obtain ⟨v, e', hpop, hpeek, hgone, hkept⟩ := h.kept rfl hs ht (hn ▸ hnext)
  refine .bind (.within (Ensures.of_ok hpeek ?_))
  split
  · exact .bind (.bind (.within (Ensures.of_ok hpop (.pure (.pure hgone)))))
  · exact .bind (.modified (.pure hkept))

theorem jumpIfTrueKeep {t : Nat} (h : K.Meets σ id s (.jumpIfTrueKeep t) g e) :
    K.Moves σ id (.jumpIfTrueKeep t) g e := by
  obtain ⟨a, hn, r, hs, ht, hnext⟩ := h.handles
  obtain ⟨v, e', hpop, hpeek, hgone, hkept⟩ := h.kept rfl hs ht (hn ▸ hnext)
  refine .bind (.within (Ensures.of_ok hpeek ?_))
  split
  · exact .bind (.modified (.pure hkept))
  · exact .bind (.bind (.within (Ensures.of_ok hpop (.pure (.pure hgone)))))

theorem openTry {c x : Nat} (h : K.Meets σ id s (.try c x) g e) : K.Moves σ id (.try c x) g e := by
  obtain ⟨a, hn, -, hcatch, hexit, hnext⟩ := h.handles
  refine .bind (.within ((enterProtected_ensures e).mono ?_ ?_))
  · rintro scope e' ⟨f, rfl, ho, rfl⟩
    refine .bind (.modified (.pure ⟨rfl, _, rfl, ⟨⟨h.handled, h.strict, h.scope, h.holds, h.saved, ?_⟩, h.env, ?_⟩,
      h.quietly rfl h.quiet⟩))
    · refine .try rfl (ho.heapMark ▸ h.holds.born) ?_ hcatch hexit h.guards
      rw [ho.marks.env]
      exact h.env
    · show K.Lies (σ g.next) e.stack.toList
      rw [hn, hnext]
      exact .nil _
  · rintro error e' ⟨-, rfl⟩
    exact h.fails rfl (l := e'.stack.toList) h.quiet

theorem leave (h : K.Meets σ id s .leave g e) : K.Moves σ id .leave g e := by
  have hguards := h.guards
  simp only [Moves, Loop.execute]
  cases hhs : g.handlers with
  | nil => exact .throw (h.fails rfl (l := e.stack.toList) h.quiet)
  | cons t ts =>
    rw [hhs] at hguards
    generalize hframes : e.frames = frames at hguards
    cases hguards with
    | @«try» _ _ f fs hid _ _ _ hexit hrest =>
      have hleave : leaveProtected t.scope e = .ok () { e with frames := fs } := hid ▸ leaveProtected_top hframes
      refine .bind (.modified (.bind (.within (Ensures.of_ok hleave (.bind (.modified (.pure ?_)))))))
      refine ⟨rfl, _, rfl, ⟨⟨h.handled, h.strict, h.scope, h.holds, h.saved, hrest⟩, h.env, ?_⟩, h.quietly rfl h.quiet⟩
      show K.Lies (σ t.exitAt) e.stack.toList
      rw [hexit]
      exact .nil _

theorem execute (h : K.Meets σ id s instr g e) (hdepth : instr = .exitCatch → g.savedScope + 2 ≤ e.scopes.size) :
    K.Moves σ id instr g e := by
  cases instr with
  | undefined | null | boolean | number | string | this | getVar | closure | getProp | getIndex | pop | negate | not
  | typeof | binary => exact within (h.settled rfl rfl rfl)
  | setVar => exact within h.setVar
  | defineVar => exact within h.defineVar
  | declareVar => exact within h.declareVar
  | newObject => exact within h.newObject
  | initProp => exact within h.initProp
  | setCompletion => exact within h.setCompletion
  | throw => exact within h.throw
  | enterCatch => exact within h.enterCatch
  | exitCatch => exact within (h.exitCatch (hdepth rfl))
  | jump => exact h.jump
  | jumpIfFalse => exact h.jumpIfFalse
  | jumpIfFalseKeep => exact h.jumpIfFalseKeep
  | jumpIfTrueKeep => exact h.jumpIfTrueKeep
  | «try» => exact h.openTry
  | leave => exact h.leave
  | call | setProp | setIndex | getMethod | «return» =>
    obtain ⟨a, -, hmild, -⟩ := h.handles
    cases hmild

end Meets

section Loops

variable {σ : Nat → List Operand} {id : ScopeId} {g : CallFrame} {e : Engine}

theorem Contains.congr {e' : Engine} (h : K.Contains σ id g e) (hh : e'.heap = e.heap) (hs : e'.scopes = e.scopes)
    (hf : e'.frames = e.frames) : K.Contains σ id g e' :=
  ⟨h.handled, h.strict, h.scope, hh ▸ h.holds, hs ▸ h.saved, hf ▸ h.guards⟩

theorem Works.meets (h : K.Works σ id g e) {instr : Instr} (hi : g.unit.code[g.next]? = some instr) :
    K.Meets σ id (σ g.next) instr g.following (g.reached e) := by
  obtain ⟨trace, htrace⟩ := g.reached_eq e
  rw [htrace]
  have hcontains : K.Contains σ id g { e with trace } := h.toContains.congr rfl rfl rfl
  exact ⟨hcontains.goto _, h.env, h.lies, g.next, rfl, h.handled.handles g.next instr hi⟩

theorem Guards.leaveAll {handlers : List Handler} {frames : List ProtectedFrame}
    (h : K.Guards σ id handlers frames) (hf : e.frames = frames) :
    ∃ f fs, Loop.leaveAll handlers e = .ok () { e with frames := f :: fs } ∧ f.id = id ∧ K.base.born ≤ f.heapMark := by
  induction h generalizing e with
  | @call f fs hid hm => exact ⟨f, fs, by rw [← hf]; rfl, hid, hm⟩
  | @«try» t ts f fs hid _ _ _ _ _ ih =>
    obtain ⟨f', fs', hleave, hid', hm⟩ := ih (e := { e with frames := fs }) rfl
    refine ⟨f', fs', ?_, hid', hm⟩
    show EStateM.bind _ _ e = _
    simp only [EStateM.bind, hid ▸ leaveProtected_top hf]
    exact hleave

variable (K) in
def Ends (id : ScopeId) (e : Engine) : Prop :=
  K.Holds e.heap ∧ ∃ f fs, e.frames = f :: fs ∧ f.id = id ∧ K.base.born ≤ f.heapMark

theorem Works.returns (h : K.Works σ id g e) (s : List CallFrame) :
    Ensures (Loop.returnFrom g [] none)
      (fun signal t => (∃ v, signal = .finished v) ∧ K.Ends id t.engine ∧ K.Quiet e.heap t.engine.heap) (fun _ _ => False)
      ⟨e, s⟩ := by
  obtain ⟨f, fs, hleave, hid, hm⟩ := h.guards.leaveAll rfl
  refine .bind (.modified (.bind (.within (Ensures.of_ok hleave (.get (.bind (.modified ?_)))))))
  exact .pure ⟨⟨_, rfl⟩, ⟨h.holds, f, fs, rfl, hid, hm⟩, h.holds.quiet⟩

variable (K) in
def Advances (σ : Nat → List Operand) (id : ScopeId) (e : Engine) (g : CallFrame) (signal : Signal) (t : Loop) : Prop :=
  (∃ instr, g.unit.code[g.next]? = some instr ∧ K.Proceeds σ id instr (g.reached e) signal t) ∨
    (g.unit.code[g.next]? = none ∧ (∃ v, signal = .finished v) ∧ K.Ends id t.engine ∧ K.Quiet e.heap t.engine.heap)

theorem Works.advances (h : K.Works σ id g e)
    (hdepth : g.unit.code[g.next]? = some .exitCatch → g.savedScope + 2 ≤ e.scopes.size) :
    Ensures Loop.step (K.Advances σ id e g)
      (fun _ t => ∃ instr, g.unit.code[g.next]? = some instr ∧ K.Fails σ id instr (g.reached e) t) ⟨e, [g]⟩ := by
  simp only [Ensures, Loop.step_eq]
  cases hi : g.unit.code[g.next]? with
  | none => exact (h.returns [g]).mono (fun signal t hend => .inr ⟨hi, hend⟩) fun _ _ hf => hf.elim
  | some instr =>
    obtain ⟨trace, htrace⟩ := g.reached_eq e
    have hscopes : (g.reached e).scopes = e.scopes := htrace ▸ rfl
    refine ((h.meets hi).execute ?_).mono (fun signal t hp => .inl ⟨instr, hi, hp⟩) fun _ t hf => ⟨instr, rfl, hf⟩
    rintro rfl
    rw [hscopes]
    exact hdepth hi

theorem Contains.catches (h : K.Contains σ id g e) {t : Handler} {ts : List Handler} (hg : g.handlers = t :: ts)
    (error : Error) :
    K.Works σ id { g with handlers := ts, next := t.catchAt } (e.unwind t.scope error).2 ∧
      K.Quiet e.heap (e.unwind t.scope error).2.heap := by
  have hguards := h.guards
  rw [hg] at hguards
  generalize hframes : e.frames = frames at hguards
  cases hguards with
  | @«try» _ _ f fs hid hm henv hcatch _ hrest =>
    have hq : K.Quiet e.heap (e.unwind t.scope error).2.heap := hid ▸ h.holds.quiet.unwind hframes hm error
    have hfound : findFrame f.id e.frames = some (f, fs) := hframes ▸ findFrame_top f fs
    obtain ⟨v, e', hunwind, -, hlevel⟩ := unwind_found hfound error
    rw [hid] at hunwind
    rw [hunwind] at hq ⊢
    refine ⟨⟨⟨h.handled, h.strict, h.scope, hq.toHolds, fun i a hi ha => ?_, ?_⟩, ?_, ?_⟩, hq⟩
    · have hscopes : e'.scopes.toList = e.scopes.toList.take f.scopeDepth := congrArg Level.scopes hlevel
      rw [← Array.getElem?_toList, hscopes, List.getElem?_take] at ha
      split at ha
      · exact h.saved i a hi (by rwa [← Array.getElem?_toList])
      · cases ha
    · rw [show e'.frames = fs from congrArg Level.frames hlevel]
      exact hrest
    · rw [show e'.env = f.env from congrArg Level.env hlevel]
      exact henv
    · have hstack : e'.stack.toList = e.level.stack.take f.stackDepth ++ [v] := congrArg Level.stack hlevel
      rw [hcatch, hstack]
      exact (Lies.nil _).value v

theorem Ends.failLoop {h₀ : Heap} (h : K.Ends id e) (hq : K.Quiet h₀ e.heap) (entry : Entry) (error : Error) :
    K.Ends id (Machine.failLoop entry error e).2 ∧ K.Quiet h₀ (Machine.failLoop entry error e).2.heap := by
  obtain ⟨-, hframes⟩ := h
  have hleft : K.Quiet h₀ ({ e with loops := e.loops - 1 } : Engine).heap := hq
  have hvalue := hleft.exceptionValue error
  obtain ⟨v, h', -, hv⟩ := exceptionValue_spec error { e with loops := e.loops - 1 }
  rw [hv] at hvalue
  simp only [Machine.failLoop, hv]
  cases error.carried? with
  | some value => exact ⟨⟨hq.toHolds, hframes⟩, hq⟩
  | none => exact ⟨⟨hvalue.toHolds, hframes⟩, hvalue⟩

end Loops

section Runs

variable {σ : Nat → List Operand} {id : ScopeId} {u : CodeUnit} {e : Engine} {receiver callee : Value}
  {args : List Value} {m : Machine}

variable (K) in
inductive Confines : Machine → Prop
  | calling {e : Engine} {receiver callee : Value} {args : List Value} {u : CodeUnit} {σ : Nat → List Operand} :
      K.Holds e.heap → e.callee callee = .ok (.closure u K.scope) → u.isScript = true → u.strict = true → u.Handled σ →
        Confines ⟨e, [], .calling receiver callee args⟩
  | running {e : Engine} {entry : Entry} {id : ScopeId} {g : CallFrame} {σ : Nat → List Operand} :
      K.Works σ id g e → Confines ⟨e, [.guard id], .running entry [g]⟩
  | ended {e : Engine} {id : ScopeId} {result : Except Error Value} :
      K.Ends id e → Confines ⟨e, [.guard id], .returning result⟩
  | returned {e : Engine} {result : Except Error Value} : K.Holds e.heap → Confines ⟨e, [], .returning result⟩

theorem Confines.holds (h : K.Confines m) : K.Holds m.engine.heap := by
  cases h with
  | calling hh => exact hh
  | running hw => exact hw.holds
  | ended he => exact he.1
  | returned hh => exact hh

variable (K) in
def Goes (h₀ : Heap) (m : Machine) : Prop :=
  K.Confines m ∧ K.Quiet h₀ m.engine.heap

theorem Contains.raised {g : CallFrame} {h₀ : Heap} (h : K.Contains σ id g e) (hq : K.Quiet h₀ e.heap) (entry : Entry)
    (error : Error) : K.Goes h₀ (Machine.raise entry error [.guard id] ⟨e, [g]⟩) := by
  cases hg : g.handlers with
  | nil =>
    have hguards := h.guards
    rw [hg] at hguards
    generalize hframes : e.frames = frames at hguards
    cases hguards with
    | @call f fs hid hm =>
      have hends : K.Ends id e := ⟨h.holds, f, fs, hframes, hid, hm⟩
      obtain ⟨hleft, hquiet⟩ := hends.failLoop hq entry error
      simp only [Machine.raise, Loop.catch?, hg]
      exact ⟨.ended hleft, hquiet⟩
  | cons t ts =>
    obtain ⟨hworks, hcaught⟩ := h.catches hg error
    simp only [Machine.raise, Loop.catch?, hg]
    exact ⟨.running hworks, hq.trans hcaught⟩

theorem Ends.goes {result : Except Error Value} (h : K.Ends id e) {h₀ : Heap} (hq : K.Quiet h₀ e.heap) :
    K.Goes h₀ ⟨e, [.guard id], .returning result⟩ := ⟨.ended h, hq⟩

theorem Ends.started (h : K.Ends id e) {argc : Nat} {site : CallSite} (hsite : callSite argc e = .ok site e)
    (hc : site.callee = .closure u K.scope) (hs : u.isScript = true) (hstrict : u.strict = true) (hu : u.Handled σ) :
    K.Goes e.heap (Machine.start argc [.guard id] e) := by
  simp only [Machine.start, hsite, hc]
  split
  · exact Ends.goes (e := e.cutStack site.base) h h.1.quiet
  · have hscript := enterClosure_script K.scope site { e with loops := e.loops + 1 } hs
    have hlevel := enterClosure_ensures u K.scope site { e with loops := e.loops + 1 }
    obtain ⟨hh, f, fs, hframes, hid, hm⟩ := h
    cases hn : enterClosure u K.scope site { e with loops := e.loops + 1 } with
    | ok g e₁ =>
      obtain ⟨hg, henv, -, hheap⟩ := hscript.ok hn
      obtain ⟨-, receiver, scope, t, hl, -⟩ := hlevel.ok hn
      have hheap : e₁.heap = e.heap := hheap
      have hframes₁ : e₁.frames = f :: fs := (congrArg Level.frames hl).trans hframes
      have hscopes : e₁.scopes.toList = e.scopes.toList ++ [e.env] := congrArg Level.scopes hl
      refine ⟨.running (σ := σ) ?_, by rw [hheap]; exact hh.quiet⟩
      subst hg
      refine ⟨⟨hu, hstrict, rfl, hheap ▸ hh, fun i a hi ha => ?_, ?_⟩, .inl henv, ?_⟩
      · rw [← Array.getElem?_toList, hscopes, List.getElem?_eq_none] at ha
        · cases ha
        · have hsize : e.scopes.size < i := hi
          simp
          omega
      · rw [hframes₁]
        exact .call hid hm
      · rw [hu.start]
        exact .nil _
    | error error e₁ =>
      obtain ⟨-, -, extra, hl⟩ := hlevel.error hn
      have hheap : e₁.heap = e.heap := hscript.error hn
      have hends : K.Ends id e₁ := ⟨hheap ▸ hh, f, fs, (congrArg Level.frames hl).trans hframes, hid, hm⟩
      have hquiet : K.Quiet e.heap e₁.heap := hheap ▸ hh.quiet
      obtain ⟨hleft, hquiet⟩ := hends.failLoop hquiet ⟨site.base, e.scopes.size, e.trace.size⟩ error
      exact ⟨.ended hleft, hquiet⟩

theorem Quiet.carried {h₀ : Heap} (hq : K.Quiet h₀ e.heap) (error : Error) :
    K.Goes h₀ ⟨(e.carry error).2, [], .returning (.error (e.carry error).1)⟩ := by
  have hleft : K.Quiet h₀ (e.carry error).2.heap := by rwa [carry_heap]
  exact ⟨.returned hleft.toHolds, hleft⟩

theorem called (hh : K.Holds e.heap) (hc : e.callee callee = .ok (.closure u K.scope)) (hs : u.isScript = true)
    (hstrict : u.strict = true) (hu : u.Handled σ) : K.Goes e.heap (Machine.call receiver callee args [] e) := by
  cases hb : beginProtected e with
  | error error e₁ =>
    obtain ⟨-, rfl⟩ := (beginProtected_ensures e).error hb
    have hq : K.Quiet e.heap (pushThrown (e.exceptionValue error).1 (e.exceptionValue error).2).heap :=
      hh.quiet.exceptionValue error
    simp only [Machine.call, hb]
    exact hq.carried error
  | ok scope e₁ =>
    obtain ⟨f, rfl, ho, rfl⟩ := (beginProtected_ensures e).ok hb
    generalize hopened : ({ e with frames := f :: e.frames, nextSerial := e.nextSerial + 1 } : Engine) = e₁ at hb
    have hheap₁ : e₁.heap = e.heap := hopened ▸ rfl
    have hends (e₂ : Engine) (hheap : e₂.heap = e₁.heap) (hframes : e₂.frames = e₁.frames) : K.Ends f.id e₂ := by
      refine ⟨hheap ▸ hheap₁ ▸ hh, f, e.frames, hframes.trans (hopened ▸ rfl), rfl, ?_⟩
      rw [ho.heapMark]
      exact hh.born
    have hpushed := Machine.pushAll_heap (callee :: receiver :: args) e₁
    have hx := Machine.pushAll_ensures (callee :: receiver :: args) e₁
    simp only [Machine.call, hb]
    cases hp : Machine.pushAll (callee :: receiver :: args) e₁ with
    | error error e₂ =>
      obtain ⟨-, -, extra, hl⟩ := hx.error hp
      rw [hp] at hpushed
      refine (hends e₂ hpushed (congrArg Level.frames hl)).goes ?_
      rw [show e₂.heap = e.heap from hpushed.trans hheap₁]
      exact hh.quiet
    | ok _ e₂ =>
      obtain ⟨-, hl⟩ := hx.ok hp
      rw [hp] at hpushed
      have hheap : e₂.heap = e.heap := hpushed.trans hheap₁
      have hcallee : e₂.callee callee = .ok (.closure u K.scope) := by
        simpa only [Engine.callee, Engine.display, hheap] using hc
      have hstack : e₂.stack.toList = e₁.stack.toList ++ callee :: receiver :: args := congrArg Level.stack hl
      have hsite := Machine.callSite_of_layout hstack hcallee
      have hgoes := (hends e₂ hpushed (congrArg Level.frames hl)).started hsite rfl hs hstrict hu
      rwa [hheap] at hgoes

theorem Ends.resumed (h : K.Ends id e) (result : Except Error Value) :
    K.Goes e.heap (Machine.resume result [] e (.guard id)) := by
  obtain ⟨hh, f, fs, hframes, rfl, hm⟩ := h
  cases result with
  | ok v =>
    simp only [Machine.resume, Machine.resultIn, endProtected, leaveProtected_top hframes, carried]
    exact ⟨.returned hh, hh.quiet⟩
  | error error =>
    have hq := hh.quiet.unwind hframes hm error
    simp only [Machine.resume, Machine.resultIn, endProtected, carried]
    exact hq.carried _

theorem depth_of_orderly {L₀ : Level} {entry : Entry} {tasks : List Task} {g : CallFrame}
    (h : Machine.Orderly L₀ ⟨e, tasks, .running entry [g]⟩) (hi : g.unit.code[g.next]? = some .exitCatch) :
    g.savedScope + 2 ≤ e.scopes.size := by
  obtain ⟨fl, hfits⟩ := h.fits
  have hruns : Loop.Runs L₀ (.entry entry :: Machine.layers tasks) fl ⟨e, [g]⟩ := hfits
  cases hruns with
  | @intro _ _ _ _ _ _ _ r hst hs hw =>
    have hflows := hs.shaped.flows g.next .exitCatch hi
    rw [hw.shape] at hflows
    have hcatches : 1 ≤ r.catches := hflows.1
    obtain ⟨cs, hcs, hsc⟩ := hs.scopes
    have hsize := congrArg List.length hsc
    rw [length_scopes, List.length_append, List.length_cons] at hsize
    rw [hs.saved]
    omega

theorem Confines.step {L₀ : Level} (h : K.Confines m) (ho : m.Orderly L₀) :
    K.Confines m.step ∧ K.Turns m.declares? m.assigns? m.engine.heap m.step.engine.heap := by
  cases h with
  | calling hh hc hs hstrict hu =>
    obtain ⟨hgoes, hquiet⟩ := called hh hc hs hstrict hu
    exact ⟨hgoes, hquiet.turns hh _⟩
  | @running e entry id g σ hw =>
    have hx := hw.advances (depth_of_orderly ho)
    have hdeclares : (⟨e, [.guard id], .running entry [g]⟩ : Machine).declares? =
        g.unit.code[g.next]?.bind Instr.declares? := rfl
    have hassigns : (⟨e, [.guard id], .running entry [g]⟩ : Machine).assigns? =
        (g.unit.code[g.next]?.bind Instr.assigns?).bind fun name => e.stack.back?.map (name, ·) := rfl
    rw [hdeclares, hassigns]
    cases hs : Loop.step ⟨e, [g]⟩ with
    | error error t =>
      obtain ⟨instr, hi, hd, g', ht, hcontains, hquiet⟩ := hx.error hs
      rw [g.reached_heap] at hquiet
      obtain ⟨e', frames⟩ := t
      obtain rfl : frames = [g'] := ht
      obtain ⟨hgoes, hraised⟩ := hcontains.raised hquiet entry error
      simp only [Machine.step, hs, hi, Option.bind_some, hd]
      exact ⟨hgoes, hraised.turns hw.holds _⟩
    | ok signal t =>
      obtain ⟨e', frames⟩ := t
      rcases hx.ok hs with ⟨instr, hi, rfl, g', ht, hworks, hturns⟩ | ⟨hi, ⟨v, rfl⟩, hends, hquiet⟩
      · obtain rfl : frames = [g'] := ht
        rw [g.reached_heap, g.reached_stack] at hturns
        simp only [Machine.step, hs, hi, Option.bind_some]
        exact ⟨.running hworks, hturns⟩
      · simp only [Machine.step, hs, hi, Option.bind_none]
        exact ⟨.ended hends, hquiet.turns hw.holds _⟩
  | ended he =>
    obtain ⟨hgoes, hquiet⟩ := he.resumed _
    exact ⟨hgoes, hquiet.turns he.1 _⟩
  | returned hh => exact ⟨.returned hh, hh.quiet.turns hh _⟩

theorem Confines.run {L₀ : Level} (h : K.Confines m) (ho : m.Orderly L₀) (k : Nat) :
    K.Confines (Machine.step^[k] m) := by
  induction k with
  | zero => exact h
  | succ k ih =>
    rw [Function.iterate_succ_apply']
    exact (ih.step (ho.run k)).1

theorem Confines.turns {L₀ : Level} (h : K.Confines m) (ho : m.Orderly L₀) (k : Nat) :
    K.Turns (Machine.step^[k] m).declares? (Machine.step^[k] m).assigns? (Machine.step^[k] m).engine.heap
      (Machine.step^[k + 1] m).engine.heap := by
  rw [Function.iterate_succ_apply']
  exact ((h.run ho k).step (ho.run k)).2

theorem Confines.bound {L₀ : Level} (h : K.Confines m) (ho : m.Orderly L₀) (k : Nat) (name : String) :
    (Environment.own? (Machine.step^[k] m).engine.heap name K.scope).isSome = true ↔
      (Environment.own? m.engine.heap name K.scope).isSome = true ∨
        ∃ j < k, (Machine.step^[j] m).declares? = some name := by
  induction k with
  | zero => simp
  | succ k ih =>
    rw [(h.turns ho k).names name, ih, or_assoc]
    refine or_congr_right ⟨?_, ?_⟩
    · rintro (⟨j, hj, hd⟩ | hd)
      · exact ⟨j, Nat.lt_succ_of_lt hj, hd⟩
      · exact ⟨k, Nat.lt_succ_self k, hd⟩
    · rintro ⟨j, hj, hd⟩
      rcases Nat.lt_succ_iff_lt_or_eq.mp hj with hlt | rfl
      · exact .inl ⟨j, hlt, hd⟩
      · exact .inr hd

end Runs

end Enclosure

end ScriptEngine
