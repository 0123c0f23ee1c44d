import Mathlib.Algebra.GroupWithZero.Nat
import ScriptEngine.Proofs.Code.Forward
import ScriptEngine.Proofs.Machine.Aside
import ScriptEngine.Proofs.Machine.Closures
import ScriptEngine.Proofs.Machine.Descent

/-!
How much the frames of a loop have left to run when no code jumps back. A step takes the innermost frame
further on, or leaves it, or enters one frame more. Read as digits of one number, the outermost frame
first, the frames count down: what a step does to a digit outweighs all that it does behind it.
-/

namespace ScriptEngine

open Engine

namespace CallFrame

/-- The code from the next instruction on is left to run, and that from the clause of each open try
statement on. Entering a try statement takes one instruction off the one and adds the other, so that
one instruction more has to weigh more than twice as much. -/
def left (g : CallFrame) : Nat :=
  3 ^ (g.unit.code.size - g.next) + (g.handlers.map fun h => 3 ^ (g.unit.code.size - h.catchAt)).sum

structure Admitted (P : CodeUnit → Prop) (g : CallFrame) : Prop where
  unit : P g.unit
  tries : ∀ handler ∈ g.handlers, handler.catchAt ≤ handler.exitAt

variable {P : CodeUnit → Prop} {g : CallFrame} {handler : Handler} {handlers : List Handler} {target : Nat}

theorem left_pos (g : CallFrame) : 0 < g.left :=
  Nat.add_pos_left (Nat.pow_pos (by decide)) _

theorem left_of_new (hn : g.next = 0) (hh : g.handlers = []) : g.left = 3 ^ g.unit.code.size := by
  simp [left, hn, hh]

theorem left_goto (hn : g.next < g.unit.code.size) (ht : g.next < target) :
    { g with next := target }.left < g.left :=
  Nat.add_lt_add_right (Nat.pow_lt_pow_right (by decide) (Nat.sub_lt_sub_left hn ht)) _

theorem left_fewer (hh : g.handlers = handler :: handlers) : { g with handlers }.left < g.left := by
  have hpos : 0 < 3 ^ (g.unit.code.size - handler.catchAt) := Nat.pow_pos (by decide)
  simp only [left, hh, List.map_cons, List.sum_cons]
  omega

theorem left_past (hh : g.handlers = handler :: handlers) (ht : handler.catchAt ≤ target) :
    { g with handlers, next := target }.left < g.left := by
  have hpos : 0 < 3 ^ (g.unit.code.size - g.next) := Nat.pow_pos (by decide)
  have hle : 3 ^ (g.unit.code.size - target) ≤ 3 ^ (g.unit.code.size - handler.catchAt) :=
    Nat.pow_le_pow_right (by decide) (by omega)
  simp only [left, hh, List.map_cons, List.sum_cons]
  omega

theorem left_try {catchAt : Nat} (hn : g.next < g.unit.code.size) (hc : g.next < catchAt) (scope : ScopeId)
    (exitAt : Nat) :
    { g with next := g.next + 1, handlers := ⟨scope, catchAt, exitAt⟩ :: g.handlers }.left < g.left := by
  have hpos : 0 < 3 ^ (g.unit.code.size - (g.next + 1)) := Nat.pow_pos (by decide)
  have hle : 3 ^ (g.unit.code.size - catchAt) ≤ 3 ^ (g.unit.code.size - (g.next + 1)) :=
    Nat.pow_le_pow_right (by decide) (by omega)
  have hsucc : 3 ^ (g.unit.code.size - g.next) = 3 * 3 ^ (g.unit.code.size - (g.next + 1)) := by
    rw [← Nat.pow_succ']
    congr 1
    omega
  simp only [left, List.map_cons, List.sum_cons]
  omega

namespace Admitted

theorem goto (h : g.Admitted P) (target : Nat) : { g with next := target }.Admitted P := ⟨h.unit, h.tries⟩

theorem fewer (h : g.Admitted P) (hh : g.handlers = handler :: handlers) : { g with handlers }.Admitted P :=
  ⟨h.unit, fun x hx => h.tries x (hh ▸ .tail _ hx)⟩

end Admitted

end CallFrame

section Digits

variable {n limit : Nat} {g g' new : CallFrame} {callers : List CallFrame}

def digits (base : Nat) : List CallFrame → Nat
  | [] => 0
  | g :: callers => digits base callers * base + g.left

/-- The number that the frames make, with zeros for the frames that may come on top of them. The base is
more than any frame has left that is entered with at most `n` instructions. -/
def countdown (n limit : Nat) (frames : List CallFrame) : Nat :=
  digits (3 ^ n + 1) frames * (3 ^ n + 1) ^ (limit - frames.length)

theorem countdown_works (h : g'.left < g.left) (callers : List CallFrame) :
    countdown n limit (g' :: callers) < countdown n limit (g :: callers) :=
  Nat.mul_lt_mul_of_pos_right (Nat.add_lt_add_left h _) (Nat.pow_pos (Nat.succ_pos _))

theorem countdown_returns (g : CallFrame) (callers : List CallFrame) :
    countdown n limit callers < countdown n limit (g :: callers) := by
  have hzeros : (3 ^ n + 1) ^ (limit - callers.length) ≤
      (3 ^ n + 1) * (3 ^ n + 1) ^ (limit - (callers.length + 1)) := by
    rw [← Nat.pow_succ']
    exact Nat.pow_le_pow_right (Nat.succ_pos _) (by omega)
  calc digits (3 ^ n + 1) callers * (3 ^ n + 1) ^ (limit - callers.length)
      ≤ digits (3 ^ n + 1) callers * (3 ^ n + 1) * (3 ^ n + 1) ^ (limit - (callers.length + 1)) := by
        rw [Nat.mul_assoc]
        exact Nat.mul_le_mul_left _ hzeros
    _ < countdown n limit (g :: callers) :=
        Nat.mul_lt_mul_of_pos_right (Nat.lt_add_of_pos_right g.left_pos) (Nat.pow_pos (Nat.succ_pos _))

theorem countdown_enters (hnew : new.left ≤ 3 ^ n) (hroom : callers.length + 2 ≤ limit) (h : g'.left < g.left) :
    countdown n limit (new :: g' :: callers) < countdown n limit (g :: callers) := by
  have hzeros : (3 ^ n + 1) ^ (limit - (callers.length + 1)) =
      (3 ^ n + 1) * (3 ^ n + 1) ^ (limit - (callers.length + 2)) := by
    rw [← Nat.pow_succ']
    congr 1
    omega
  have hdigits : digits (3 ^ n + 1) (new :: g' :: callers) < digits (3 ^ n + 1) (g :: callers) * (3 ^ n + 1) := by
    calc digits (3 ^ n + 1) (g' :: callers) * (3 ^ n + 1) + new.left
        < (digits (3 ^ n + 1) (g' :: callers) + 1) * (3 ^ n + 1) := by
          rw [Nat.succ_mul]
          omega
      _ ≤ digits (3 ^ n + 1) (g :: callers) * (3 ^ n + 1) := Nat.mul_le_mul_right _ (Nat.add_lt_add_left h _)
  simp only [countdown, List.length_cons, hzeros, ← Nat.mul_assoc]
  exact Nat.mul_lt_mul_of_pos_right hdigits (Nat.pow_pos (Nat.succ_pos _))

end Digits

structure Onwards (P : CodeUnit → Prop) (n : Nat) : Prop where
  advances : ∀ u, P u → u.Advances
  inner : ∀ u, P u → ∀ v ∈ u.functions, P v
  size_le : ∀ u, P u → u.code.size ≤ n

def Signal.isEvaluate : Signal → Bool
  | .evaluate _ _ => true
  | .proceed | .finished _ => false

namespace CallFrame

def builtin? (g : CallFrame) (e : Engine) : Option Builtin :=
  match g.unit.code[g.next]? with
  | some (.call argc) =>
    match callSite argc e with
    | .ok ⟨_, _, _, .native f⟩ _ => some f
    | _ => none
  | _ => none

theorem builtin?_of_callSite {g : CallFrame} {e e' : Engine} {argc : Nat} {site : CallSite} {f : Builtin}
    (hi : g.unit.code[g.next]? = some (.call argc)) (hs : callSite argc (g.reached e) = .ok site e')
    (hf : site.callee = .native f) : g.builtin? e = some f := by
  have hmirrors := callSite_mirrors g.reached_stack g.reached_callee argc e
  rw [hs] at hmirrors
  cases hc : callSite argc e with
  | error error e₁ =>
    rw [hc] at hmirrors
    cases hmirrors
  | ok site' e₁ =>
    rw [hc] at hmirrors
    obtain ⟨base, receiver, args, callee⟩ := site'
    cases hmirrors
    obtain rfl : callee = .native f := hf
    simp only [builtin?, hi, hc]

end CallFrame

namespace Engine

theorem enterTrace_room (entry : TraceEntry) (e : Engine) :
    Ensures (enterTrace entry) (fun _ _ => e.trace.size < e.limits.traceLimit) (fun _ _ => True) e := by
  simp only [Ensures, enterTrace_eq]
  by_cases hfull : e.limits.traceLimit ≤ e.trace.size
  · rw [if_pos hfull]
    trivial
  · rw [if_neg hfull]
    exact Nat.lt_of_not_le hfull

theorem enterClosure_room (unit : CodeUnit) (env : Handle) (site : CallSite) (e : Engine) :
    Ensures (enterClosure unit env site) (fun _ _ => e.trace.size < e.limits.traceLimit) (fun _ _ => True) e := by
  refine .get (.bind ((openScope_ensures unit env site.args e).mono ?_ fun _ _ _ => trivial))
  rintro scope e₁ ⟨h, -, rfl⟩
  refine .get ?_
  split
  · refine .bind (.push (l := e.stack.toList) (e := e) (h := h) (.bind ?_) trivial)
    refine (enterTrace_room _ _).mono (fun _ _ hroom => ?_) fun _ _ h => h
    exact .get (.bind (.modified (.pure hroom)))
  · refine .bind ((enterTrace_room _ _).mono (fun _ _ hroom => ?_) fun _ _ h => h)
    exact .get (.bind (.modified (.pure hroom)))

end Engine

namespace Loop

variable {P : CodeUnit → Prop} {n limit bound : Nat} {frame g : CallFrame} {callers frames : List CallFrame}
  {e : Engine}

structure Winds (P : CodeUnit → Prop) (n limit bound : Nat) (s : Loop) : Prop where
  closes : s.engine.ClosesOver P
  admitted : ∀ g ∈ s.frames, g.Admitted P
  sooner : countdown n limit s.frames < bound

def Persists (K : Loop → Prop) (x : LoopM Signal) : Prop :=
  ∀ s, K s → Ensures x (fun signal t => signal.isEvaluate = false ∧ K t) (fun _ => K) s

namespace Persists

variable {α : Type} {K : Loop → Prop}

theorem pure {signal : Signal} (h : signal.isEvaluate = false) : Persists K (Pure.pure signal) :=
  fun _ hs => .pure ⟨h, hs⟩

theorem throw (error : Error) : Persists K (MonadExcept.throw error) := fun _ hs => .throw hs

theorem bind {x : LoopM α} {f : α → LoopM Signal} (hx : Maintains K x) (hf : ∀ a, Persists K (f a)) :
    Persists K (x >>= f) :=
  fun s hs => .bind ((Ensures.of_state (hx s hs)).mono (fun a t ht => hf a t ht) fun _ _ ht => ht)

theorem get {f : Loop → LoopM Signal} (hf : ∀ s, Persists K (f s)) : Persists K (MonadState.get >>= f) :=
  fun s hs => .get (hf s s hs)

end Persists

theorem within_winds {α : Type} {x : EngineM α} (hx : Maintains (Engine.ClosesOver P) x) :
    Maintains (Winds P n limit bound) (within x) := by
  intro s h
  simp only [within]
  cases hr : x s.engine with
  | ok a e => exact ⟨hx.returned h.closes hr, h.admitted, h.sooner⟩
  | error error e => exact ⟨hx.failed h.closes hr, h.admitted, h.sooner⟩

theorem update_winds {f : Engine → Engine} (hf : ∀ e, (f e).heap = e.heap) :
    Maintains (Winds P n limit bound) (update f) := by
  intro s h
  refine ⟨?_, h.admitted, h.sooner⟩
  show (f s.engine).heap.ClosesOver P
  rw [hf]
  exact h.closes

theorem setFrames_winds (ha : ∀ g ∈ frames, g.Admitted P) (hl : countdown n limit frames < bound) :
    Maintains (Winds P n limit bound) (setFrames frames) :=
  fun _ h => ⟨h.closes, ha, hl⟩

theorem returnFrom_winds (ha : ∀ c ∈ callers, c.Admitted P) (hl : countdown n limit callers < bound)
    (returned : Option Value) : Persists (Winds P n limit bound) (returnFrom frame callers returned) := by
  have hleave (e : Engine) : ((e.cutScopes frame.savedScope).leaveTrace).heap = e.heap := by
    simp only [leaveTrace, cutScopes]
  refine .bind (setFrames_winds ha hl) fun _ => .bind (within_winds (allows_closesOver.leaveAll _)) fun _ => .get fun s => ?_
  refine .bind (update_winds hleave) fun _ => ?_
  split
  · exact .pure rfl
  · exact .bind (update_winds fun _ => rfl) fun _ => .bind (within_winds (allows_closesOver.push _)) fun _ => .pure rfl

theorem execute_winds {instr : Instr} (hP : Onwards P n) (hg : g.Admitted P) (hcs : ∀ c ∈ callers, c.Admitted P)
    (hi : g.unit.code[g.next]? = some instr) (hcall : ∀ argc, instr ≠ .call argc) :
    Persists (Winds P n limit (countdown n limit (g :: callers))) (execute g.following callers instr) := by
  have hadvances := hP.advances _ hg.unit
  have hn : g.next < g.unit.code.size := (Array.getElem?_eq_some_iff.mp hi).1
  have hset {g' : CallFrame} (ha : g'.Admitted P) (hl : g'.left < g.left) :
      Maintains (Winds P n limit (countdown n limit (g :: callers))) (setFrames (g' :: callers)) :=
    setFrames_winds (List.forall_mem_cons.mpr ⟨ha, hcs⟩) (countdown_works hl callers)
  have hgoto {target : Nat} (ht : target ∈ instr.targets) :
      Maintains (Winds P n limit (countdown n limit (g :: callers))) (goto g.following callers target) :=
    hset (hg.goto target) (CallFrame.left_goto hn (hadvances.targets _ _ hi _ ht))
  have hpop : Maintains (Winds P n limit (countdown n limit (g :: callers))) (within popped) :=
    within_winds allows_closesOver.popped
  have hpeek : Maintains (Winds P n limit (countdown n limit (g :: callers))) (within peek) :=
    within_winds allows_closesOver.peek
  have hsimple (instr : Instr) : Persists (Winds P n limit (countdown n limit (g :: callers)))
      (within (simple g.following instr) >>= fun _ => Pure.pure Signal.proceed) :=
    .bind (within_winds (allows_closesOver.simple (hP.inner _ hg.unit) instr)) fun _ => .pure rfl
  cases instr with
  | call argc => exact absurd rfl (hcall argc)
  | jump target => exact .bind (hgoto (by simp [Instr.targets])) fun _ => .pure rfl
  | jumpIfFalse target =>
    refine .bind hpop fun v => ?_
    split
    · exact .bind (hgoto (by simp [Instr.targets])) fun _ => .pure rfl
    · exact .pure rfl
  | jumpIfFalseKeep target =>
    refine .bind hpeek fun v => ?_
    split
    · exact .bind hpop fun _ => .pure rfl
    · exact .bind (hgoto (by simp [Instr.targets])) fun _ => .pure rfl
  | jumpIfTrueKeep target =>
    refine .bind hpeek fun v => ?_
    split
    · exact .bind (hgoto (by simp [Instr.targets])) fun _ => .pure rfl
    · exact .bind hpop fun _ => .pure rfl
  | «return» => exact .bind hpop fun v => returnFrom_winds hcs (countdown_returns g callers) (some v)
  | «try» catchAt exitAt =>
    have hc : g.next < catchAt := hadvances.targets _ _ hi _ (by simp [Instr.targets])
    have hx : catchAt < exitAt := hadvances.tries _ _ _ hi
    refine .bind (within_winds allows_closesOver.enterProtected) fun scope => .bind (hset ⟨hg.unit, ?_⟩ ?_) fun _ => .pure rfl
    · exact List.forall_mem_cons.mpr ⟨Nat.le_of_lt hx, hg.tries⟩
    · exact CallFrame.left_try hn hc scope exitAt
  | leave =>
    simp only [execute]
    cases hh : g.following.handlers with
    | nil => exact .throw _
    | cons handler handlers =>
      have hpast : handler.catchAt ≤ handler.exitAt := hg.tries handler (hh ▸ .head _)
      have hnext : g.following.left < g.left := CallFrame.left_goto hn (Nat.lt_succ_self _)
      refine .bind (hset ((hg.goto _).fewer hh) (Nat.lt_trans (CallFrame.left_fewer hh) hnext)) fun _ => ?_
      refine .bind (within_winds (allows_closesOver.leaveProtected _)) fun _ => ?_
      exact .bind (hset ((hg.fewer hh).goto _) (Nat.lt_trans (CallFrame.left_past hh hpast) hnext)) fun _ => .pure rfl
  | _ => exact hsimple _

theorem enterClosure_winds {g' : CallFrame} {unit : CodeUnit} {env : Handle} {site : CallSite} (hP : Onwards P n)
    (h : Winds P n limit (countdown n limit (g :: callers)) ⟨e, g' :: callers⟩) (hl : g'.left < g.left)
    (hroom : e.trace.size < e.limits.traceLimit → callers.length + 2 ≤ limit) (hu : P unit) :
    Ensures (enterClosure unit env site)
      (fun new e' => Winds P n limit (countdown n limit (g :: callers)) ⟨e', new :: g' :: callers⟩)
      (fun _ e' => Winds P n limit (countdown n limit (g :: callers)) ⟨e', g' :: callers⟩) e := by
  have hcloses : Maintains (Engine.ClosesOver P) (enterClosure unit env site) := allows_closesOver.enterClosure unit env site
  simp only [Ensures]
  cases hc : enterClosure unit env site e with
  | error error e₁ => exact ⟨hcloses.failed h.closes hc, h.admitted, h.sooner⟩
  | ok new e₁ =>
    have hlen := hroom ((enterClosure_room unit env site e).ok hc)
    obtain ⟨-, _, _, _, -, rfl⟩ := (enterClosure_ensures unit env site e).ok hc
    refine ⟨hcloses.returned h.closes hc, List.forall_mem_cons.mpr ⟨⟨hu, List.forall_mem_nil _⟩, h.admitted⟩, ?_⟩
    refine countdown_enters ?_ hlen hl
    rw [CallFrame.left_of_new rfl rfl]
    exact Nat.pow_le_pow_right (by decide) (hP.size_le unit hu)

theorem call_winds {g' : CallFrame} {argc : Nat} (hP : Onwards P n)
    (h : Winds P n limit (countdown n limit (g :: callers)) ⟨e, g' :: callers⟩) (hl : g'.left < g.left)
    (hroom : e.trace.size < e.limits.traceLimit → callers.length + 2 ≤ limit)
    (hsite : ∀ site, callSite argc e = .ok site e → site.callee ≠ .native .eval) :
    Ensures (call (g' :: callers) argc)
      (fun signal t => signal.isEvaluate = false ∧ Winds P n limit (countdown n limit (g :: callers)) t)
      (fun _ => Winds P n limit (countdown n limit (g :: callers))) ⟨e, g' :: callers⟩ := by
  have hcallee := callSite_callee argc e
  cases hs : callSite argc e with
  | error error e₁ =>
    obtain rfl := hcallee.error hs
    exact .bind (.within (.of_error hs h))
  | ok site e₁ =>
    obtain ⟨rfl, value, hv⟩ := hcallee.ok hs
    have hnative := hsite site hs
    refine .bind (.within (.of_ok hs ?_))
    obtain ⟨base, receiver, args, callee⟩ := site
    cases callee with
    | closure unit env =>
      have hunit : P unit := h.closes.callee hv
      exact .bind (.within ((enterClosure_winds hP h hl hroom hunit).mono (fun _ _ hw => ⟨rfl, hw⟩) fun _ _ hw => hw))
    | native f =>
      have hf : f ≠ .eval := fun hf => hnative (hf ▸ rfl)
      have hcalled := callNative_closes hf args h.closes
      refine .get ?_
      cases hn : callNative f args e₁ with
      | error error e₂ =>
        have hclosed : e₂.ClosesOver P := hcalled.error hn
        exact ⟨hclosed, h.admitted, h.sooner⟩
      | ok result e₂ =>
        obtain ⟨⟨v, rfl⟩, hclosed⟩ := hcalled.ok hn
        have hpush : Persists (Winds P n limit (countdown n limit (g :: callers)))
            (within (push v) >>= fun _ => pure Signal.proceed) :=
          .bind (within_winds (allows_closesOver.push v)) fun _ => .pure rfl
        exact hpush ⟨e₂.cutStack base, g' :: callers⟩ ⟨hclosed, h.admitted, h.sooner⟩

theorem step_winds (hP : Onwards P n) (h : e.ClosesOver P) (ha : ∀ f ∈ g :: callers, f.Admitted P)
    (hlen : callers.length + 1 ≤ e.trace.size) (hlimit : e.limits.traceLimit = limit) (hx : g.builtin? e ≠ some .eval) :
    Ensures step (fun signal t => signal.isEvaluate = false ∧ Winds P n limit (countdown n limit (g :: callers)) t)
      (fun _ => Winds P n limit (countdown n limit (g :: callers))) ⟨e, g :: callers⟩ := by
  obtain ⟨hg, hcs⟩ := List.forall_mem_cons.mp ha
  have hreturns : countdown n limit callers < countdown n limit (g :: callers) := countdown_returns g callers
  simp only [Ensures, step_eq]
  cases hi : g.unit.code[g.next]? with
  | none =>
    -- The frame that ends is not looked at again.
    exact returnFrom_winds hcs hreturns none ⟨e, callers⟩ ⟨h, hcs, hreturns⟩
  | some instr =>
    have hnext : g.following.left < g.left :=
      CallFrame.left_goto (Array.getElem?_eq_some_iff.mp hi).1 (Nat.lt_succ_self _)
    have hreached : Winds P n limit (countdown n limit (g :: callers)) ⟨g.reached e, g.following :: callers⟩ := by
      refine ⟨?_, List.forall_mem_cons.mpr ⟨hg.goto _, hcs⟩, countdown_works hnext callers⟩
      simpa only [Engine.ClosesOver, g.reached_heap] using h
    by_cases hcall : ∃ argc, instr = .call argc
    · obtain ⟨argc, rfl⟩ := hcall
      refine call_winds hP hreached hnext (fun hroom => ?_) fun site hs hf => hx (g.builtin?_of_callSite hi hs hf)
      rw [g.size_reached_trace, g.reached_limits] at hroom
      omega
    · exact execute_winds hP hg hcs hi (fun argc h => hcall ⟨argc, h⟩) _ hreached

theorem catch?_winds {error : Error} {s : Loop} (h : e.ClosesOver P) (ha : ∀ f ∈ frames, f.Admitted P)
    (hc : catch? error e frames = some s) : Winds P n limit (countdown n limit frames) s := by
  induction frames with
  | nil => cases hc
  | cons g callers ih =>
    obtain ⟨hg, hcs⟩ := List.forall_mem_cons.mp ha
    simp only [catch?] at hc
    split at hc
    · have hcaught := ih hcs hc
      exact ⟨hcaught.closes, hcaught.admitted, Nat.lt_trans hcaught.sooner (countdown_returns g callers)⟩
    · next handler handlers hh =>
      obtain rfl := Option.some.inj hc
      refine ⟨unwind_closes h _ _, List.forall_mem_cons.mpr ⟨(hg.fewer hh).goto _, hcs⟩, ?_⟩
      exact countdown_works (CallFrame.left_past hh (Nat.le_refl _)) callers

end Loop

end ScriptEngine
