import ScriptEngine.Engine.Create
import ScriptEngine.Proofs.Machine.Evaluation

namespace ScriptEngine

namespace Compiler

section

open Engine Loop

variable {st : Setting} {frame : CallFrame} {base : List Value}

def EndsAt (frame : CallFrame) (base : List Value) (b : Nat) (r : Ending) (s : Loop) : Prop :=
  Leads (fun t => ∃ h k, r = .done h k ∧ frame.Stands b (base ++ [k]) h t)
    (fun error h => r = .failed error h) s

theorem jumpIfFalse_leads {Q : Loop → Prop} {F : Error → Heap → Prop} {a b : Nat} {l : List Value}
    {v : Value} {h : Heap} {s : Loop} (hi : frame.unit.code[a]? = some (.jumpIfFalse b))
    (hs : frame.Stands a (l ++ [v]) h s)
    (hk : ∀ t, frame.Stands (if v.truthy then a + 1 else b) l h t → Leads Q F t) : Leads Q F s := by
  refine hs.execute hi fun e he => .bind (.within (.popped ?_))
  cases hv : v.truthy with
  | true =>
    simp only [hv, if_true] at hk
    simp only [Bool.not_true, Bool.false_eq_true, if_false]
    exact .pure ⟨rfl, hk _ ⟨e, he, rfl⟩⟩
  | false =>
    simp only [hv, Bool.false_eq_true, if_false] at hk
    simp only [Bool.not_false, if_true]
    exact .bind (.modified (.pure ⟨rfl, hk _ ⟨e, he, rfl⟩⟩))

theorem jump_leads {Q : Loop → Prop} {F : Error → Heap → Prop} {a b : Nat} {l : List Value} {h : Heap}
    {s : Loop} (hi : frame.unit.code[a]? = some (.jump b)) (hs : frame.Stands a l h s)
    (hk : ∀ t, frame.Stands b l h t → Leads Q F t) : Leads Q F s :=
  hs.execute hi fun e he => .bind (.modified (.pure ⟨rfl, hk _ ⟨e, he, rfl⟩⟩))

theorem setCompletion_leads {Q : Loop → Prop} {F : Error → Heap → Prop} {a : Nat} {k v : Value} {h : Heap}
    {s : Loop} (hslot : frame.completion = some base.length)
    (hi : frame.unit.code[a]? = some .setCompletion) (hs : frame.Stands a (base ++ [k] ++ [v]) h s)
    (hk : ∀ t, frame.Stands (a + 1) (base ++ [v]) h t → Leads Q F t) : Leads Q F s := by
  refine hs.execute hi fun e he => .bind (.within ?_)
  refine (setCompletion_ensures { frame with next := a + 1 } e (base ++ [k]) hslot).mono ?_ fun _ _ hf => hf
  rintro _ e' rfl
  refine .pure ⟨rfl, hk _ ⟨e, he, ?_⟩⟩
  simp

theorem throw_leads {Q : Loop → Prop} {F : Error → Heap → Prop} {a : Nat} {l : List Value} {v : Value}
    {h : Heap} {s : Loop} (hi : frame.unit.code[a]? = some .throw) (hs : frame.Stands a (l ++ [v]) h s)
    (hF : F (.thrown v (h.display v)) h) : Leads Q F s := by
  refine hs.execute hi fun e he => .bind (.within ?_)
  have hx : Ensures (simple { frame with next := a + 1 } .throw) (fun _ _ => False)
      (fun error e' => error = .thrown v (h.display v) ∧ e'.heap = h) (e.reset (l ++ [v]) h) :=
    .bind (.popped (.get (.throw ⟨rfl, rfl⟩)))
  refine hx.mono (fun _ _ hfalse => hfalse.elim) ?_
  rintro error e' ⟨rfl, rfl⟩
  exact .inr hF

theorem test_leads {Q : Loop → Prop} {F : Error → Heap → Prop} {x : Expr} {p : Place} {a : Fragment} {b : Nat}
    {m : HeapM Value} {l : List Value} {v : Value} {h h₁ : Heap} {s : Loop} (ha : expr st x p = .ok a)
    (hpart : a.PartOf frame.unit p) (hi : frame.unit.code[(p.after a).address]? = some (.jumpIfFalse b))
    (hm : x.meaning? frame.scene = some m) (hok : m h = .ok v h₁) (hs : frame.Stands p.address l h s)
    (hk : ∀ t, frame.Stands (if v.truthy then (p.after a).next.address else b) l h₁ t → Leads Q F t) :
    Leads Q F s :=
  (expr_computes x l ha hpart hm).ok hok hs fun _ ht => jumpIfFalse_leads hi ht hk

section Code

variable {u : CodeUnit} {x : Expr} {yes no body : Stmt} {span : Span} {p : Place} {f : Fragment}

theorem cond_code (hc : stmt st true (.cond x yes none span) p = .ok f) (hf : f.PartOf u p) :
    ∃ a b, expr st x p = .ok a ∧ a.PartOf u p ∧
      u.code[(p.after a).address]? = some (.jumpIfFalse (p.after f).address) ∧
      stmt st true yes (p.after a).next = .ok b ∧ b.PartOf u (p.after a).next ∧
      p.after f = (p.after a).next.after b := by
  rw [stmt] at hc
  simp only [bind_eq_ok, pure_eq_ok] at hc
  obtain ⟨a, ha, b, hb, rfl⟩ := hc
  have hyes := hf.right
  simp only [Place.after_append, Place.after_one] at hyes ⊢
  exact ⟨a, b, ha, hf.left.left, hf.left.right.one, hb, hyes, rfl⟩

theorem cond_else_code (hc : stmt st true (.cond x yes (some no) span) p = .ok f) (hf : f.PartOf u p) :
    ∃ a b c, expr st x p = .ok a ∧ a.PartOf u p ∧
      u.code[(p.after a).address]? = some (.jumpIfFalse ((p.after a).next.after b).next.address) ∧
      stmt st true yes (p.after a).next = .ok b ∧ b.PartOf u (p.after a).next ∧
      u.code[((p.after a).next.after b).address]? = some (.jump (p.after f).address) ∧
      stmt st true no ((p.after a).next.after b).next = .ok c ∧
      c.PartOf u ((p.after a).next.after b).next ∧
      p.after f = ((p.after a).next.after b).next.after c := by
  rw [stmt] at hc
  simp only [bind_eq_ok, pure_eq_ok] at hc
  obtain ⟨a, ha, b, hb, c, hd, rfl⟩ := hc
  have hyes := hf.left.left.right
  have hjump := hf.left.right.one
  have hno := hf.right
  simp only [Place.after_append, Place.after_one] at hyes hjump hno ⊢
  exact ⟨a, b, c, ha, hf.left.left.left.left, hf.left.left.left.right.one, hb, hyes, hjump, hd, hno, rfl⟩

theorem loop_code (hc : stmt st true (.loop x body span) p = .ok f) (hf : f.PartOf u p) :
    ∃ a b, expr st x p = .ok a ∧ a.PartOf u p ∧
      u.code[(p.after a).address]? = some (.jumpIfFalse (p.after f).address) ∧
      stmt st true body (p.after a).next = .ok b ∧ b.PartOf u (p.after a).next ∧
      u.code[((p.after a).next.after b).address]? = some (.jump p.address) := by
  rw [stmt] at hc
  simp only [bind_eq_ok, pure_eq_ok] at hc
  obtain ⟨a, ha, b, hb, rfl⟩ := hc
  have hbody := hf.left.right
  have hjump := hf.right.one
  simp only [Place.after_append, Place.after_one] at hbody hjump ⊢
  exact ⟨a, b, ha, hf.left.left.left, hf.left.left.right.one, hb, hbody, hjump⟩

end Code

theorem stmt_leads (hslot : frame.completion = some base.length) {x : Stmt} {h : Heap} {k : Value}
    {r : Ending} (hr : x.Runs frame.scene h k r) :
    ∀ {p : Place} {f : Fragment} {s : Loop}, stmt st true x p = .ok f → f.PartOf frame.unit p →
      frame.Stands p.address (base ++ [k]) h s → EndsAt frame base (p.after f).address r s := by
  induction hr with
  | var hm hok =>
    intro p f s hc hf hs
    simp only [stmt] at hc
    exact (bindings_compute _ _ hc hf hm).ok hok hs fun t ht => .here ⟨_, _, rfl, ht⟩
  | var_fails hm herr =>
    intro p f s hc hf hs
    simp only [stmt] at hc
    exact (bindings_compute _ _ hc hf hm).error herr hs rfl
  | expr hm hok =>
    intro p f s hc hf hs
    simp only [stmt, bind_eq_ok, pure_eq_ok] at hc
    obtain ⟨a, ha, rfl⟩ := hc
    rw [Place.after_append, Place.after_one]
    refine (expr_computes _ _ ha hf.left hm).ok hok hs fun t ht => ?_
    exact setCompletion_leads hslot hf.right.one ht fun u hu => .here ⟨_, _, rfl, hu⟩
  | expr_fails hm herr =>
    intro p f s hc hf hs
    simp only [stmt, bind_eq_ok, pure_eq_ok] at hc
    obtain ⟨a, ha, rfl⟩ := hc
    exact (expr_computes _ _ ha hf.left hm).error herr hs rfl
  | block_nil =>
    intro p f s hc hf hs
    simp only [stmt, stmts, pure_eq_ok] at hc
    subst hc
    exact .here ⟨_, _, rfl, hs⟩
  | block_cons _ _ ih ihrest =>
    intro p f s hc hf hs
    simp only [stmt, stmts, bind_eq_ok, pure_eq_ok] at hc
    obtain ⟨a, ha, b, hb, rfl⟩ := hc
    rw [Place.after_append]
    refine (ih ha hf.left hs).bind ?_ fun _ _ hfail => by cases hfail
    rintro t ⟨h₁, k₁, hdone, ht⟩
    cases hdone
    exact ihrest (by simpa only [stmt] using hb) hf.right ht
  | block_fails _ ih =>
    intro p f s hc hf hs
    simp only [stmt, stmts, bind_eq_ok, pure_eq_ok] at hc
    obtain ⟨a, ha, b, hb, rfl⟩ := hc
    refine (ih ha hf.left hs).bind ?_ fun _ _ hfail => hfail
    rintro t ⟨h₁, k₁, hdone, _⟩
    cases hdone
  | empty =>
    intro p f s hc hf hs
    simp only [stmt, pure_eq_ok] at hc
    subst hc
    exact .here ⟨_, _, rfl, hs⟩
  | throw hm hok =>
    intro p f s hc hf hs
    simp only [stmt, bind_eq_ok, pure_eq_ok] at hc
    obtain ⟨a, ha, rfl⟩ := hc
    exact (expr_computes _ _ ha hf.left hm).ok hok hs fun t ht => throw_leads hf.right.one ht rfl
  | throw_fails hm herr =>
    intro p f s hc hf hs
    simp only [stmt, bind_eq_ok, pure_eq_ok] at hc
    obtain ⟨a, ha, rfl⟩ := hc
    exact (expr_computes _ _ ha hf.left hm).error herr hs rfl
  | @cond_yes x yes no span m h h₁ k v r hm hok hv _ ih =>
    intro p f s hc hf hs
    cases no with
    | none =>
      obtain ⟨a, b, ha, hpart, hi, hb, hyes, hend⟩ := cond_code hc hf
      refine test_leads ha hpart hi hm hok hs fun t ht => ?_
      rw [if_pos hv] at ht
      rw [hend]
      exact ih hb hyes ht
    | some no =>
      obtain ⟨a, b, c, ha, hpart, hi, hb, hyes, hjump, -, -, -⟩ := cond_else_code hc hf
      refine test_leads ha hpart hi hm hok hs fun t ht => ?_
      rw [if_pos hv] at ht
      refine (ih hb hyes ht).bind ?_ fun _ _ hfail => hfail
      rintro t' ⟨h', k', hdone, ht'⟩
      exact jump_leads hjump ht' fun u' hu' => .here ⟨h', k', hdone, hu'⟩
  | cond_no hm hok hv _ ih =>
    intro p f s hc hf hs
    obtain ⟨a, b, c, ha, hpart, hi, -, -, -, hd, hno, hend⟩ := cond_else_code hc hf
    refine test_leads ha hpart hi hm hok hs fun t ht => ?_
    rw [hv] at ht
    rw [hend]
    exact ih hd hno ht
  | cond_skip hm hok hv =>
    intro p f s hc hf hs
    obtain ⟨a, b, ha, hpart, hi, -, -, -⟩ := cond_code hc hf
    refine test_leads ha hpart hi hm hok hs fun t ht => ?_
    rw [hv] at ht
    exact .here ⟨_, _, rfl, ht⟩
  | @cond_fails x yes no span m h h' k fault hm herr =>
    intro p f s hc hf hs
    cases no with
    | none =>
      obtain ⟨a, b, ha, hpart, -⟩ := cond_code hc hf
      exact (expr_computes x _ ha hpart hm).error herr hs rfl
    | some no =>
      obtain ⟨a, b, c, ha, hpart, -⟩ := cond_else_code hc hf
      exact (expr_computes x _ ha hpart hm).error herr hs rfl
  | loop_ends hm hok hv =>
    intro p f s hc hf hs
    obtain ⟨a, b, ha, hpart, hi, -⟩ := loop_code hc hf
    refine test_leads ha hpart hi hm hok hs fun t ht => ?_
    rw [hv] at ht
    exact .here ⟨_, _, rfl, ht⟩
  | loop_again hm hok hv _ _ ihbody ihloop =>
    intro p f s hc hf hs
    obtain ⟨a, b, ha, hpart, hi, hb, hbody, hjump⟩ := loop_code hc hf
    refine test_leads ha hpart hi hm hok hs fun t ht => ?_
    rw [if_pos hv] at ht
    refine (ihbody hb hbody ht).bind ?_ fun _ _ hfail => by cases hfail
    rintro t' ⟨h', k', hdone, ht'⟩
    cases hdone
    -- Back at the test, the rest of the rounds is a run of the same loop.
    exact jump_leads hjump ht' fun u' hu' => ihloop hc hf hu'
  | loop_breaks hm hok hv _ ih =>
    intro p f s hc hf hs
    obtain ⟨a, b, ha, hpart, hi, hb, hbody, -⟩ := loop_code hc hf
    refine test_leads ha hpart hi hm hok hs fun t ht => ?_
    rw [if_pos hv] at ht
    refine (ih hb hbody ht).bind ?_ fun _ _ hfail => hfail
    rintro t' ⟨h', k', hdone, _⟩
    cases hdone
  | loop_fails hm herr =>
    intro p f s hc hf hs
    obtain ⟨a, b, ha, hpart, -⟩ := loop_code hc hf
    exact (expr_computes _ _ ha hpart hm).error herr hs rfl

end

end Compiler

namespace Compiler

variable {st : Setting} {items : List Stmt}

theorem hoisted_of_no_function (hd : ∀ decl, Stmt.function decl ∉ items) (p : Place) :
    hoisted st items p = .ok .empty := by
  induction items with
  | nil => simp only [hoisted]; rfl
  | cons item rest ih =>
    have hrest := ih fun decl hmem => hd decl (List.mem_cons_of_mem _ hmem)
    cases item with
    | function decl => exact absurd List.mem_cons_self (hd decl)
    | var | expr | block | cond | loop | «return» | throw | «try» | empty => simpa only [hoisted] using hrest

theorem remaining_of_no_function (hd : ∀ decl, Stmt.function decl ∉ items) (p : Place) :
    remaining st true items p = stmts st true items p := by
  induction items generalizing p with
  | nil => simp only [remaining, stmts]
  | cons item rest ih =>
    have hrest := ih fun decl hmem => hd decl (List.mem_cons_of_mem _ hmem)
    cases item with
    | function decl => exact absurd List.mem_cons_self (hd decl)
    | var | expr | block | cond | loop | «return» | throw | «try» | empty =>
      simp only [remaining, stmts, hrest]

theorem script_of_no_function {u : CodeUnit} (hd : ∀ decl, Stmt.function decl ∉ items)
    (hc : script st items = .ok u) :
    ∃ f, stmts st true items .start = .ok f ∧ f.PartOf u .start ∧ u.code.size = (Place.start.after f).address ∧
      u.isScript = true ∧ u.strict = st.strict := by
  simp only [script, hoisted_of_no_function hd, bind_eq_ok, pure_eq_ok] at hc
  obtain ⟨a, ha, f, hf, rfl⟩ := hc
  cases ha
  rw [remaining_of_no_function hd] at hf
  have hcode : (Fragment.empty ++ f).code = f.code := rfl
  refine ⟨f, hf, ?_, ?_, rfl, rfl⟩
  · intro i instr hi
    simpa [finish, hcode, Fragment.instrs, Place.start] using hi
  · simp [finish, hcode, Place.start, Place.after, Fragment.size]

end Compiler

namespace Loop

open Engine

inductive Reaches (s : Loop) : Loop → Prop
  | refl : Reaches s s
  | next {t u : Loop} : Reaches s t → step t = .ok .proceed u → Reaches s u

theorem Reaches.head {s t u : Loop} (hs : step s = .ok .proceed t) (h : Reaches t u) : Reaches s u := by
  induction h with
  | refl => exact .next .refl hs
  | next _ hu ih => exact .next ih hu

theorem Reaches.head_cases {s t : Loop} (h : Reaches s t) :
    t = s ∨ ∃ u, step s = .ok .proceed u ∧ Reaches u t := by
  induction h with
  | refl => exact .inl rfl
  | next _ hu ih =>
    rcases ih with rfl | ⟨v, hv, hvt⟩
    · exact .inr ⟨_, hu, .refl⟩
    · exact .inr ⟨v, hv, .next hvt hu⟩

def staysWithin : Nat → Loop → Bool
  | 0, _ => false
  | fuel + 1, s =>
    match step s with
    | .ok .proceed t => staysWithin fuel t
    | .ok _ _ => true
    | .error error _ => error ≠ .fault .stackOverflow

theorem ne_stackOverflow_of_staysWithin {fuel : Nat} {s t t' : Loop} {error : Error} (hs : s.staysWithin fuel)
    (ht : Reaches s t) (he : step t = .error error t') : error ≠ .fault .stackOverflow := by
  induction fuel generalizing s with
  | zero => simp [staysWithin] at hs
  | succ fuel ih =>
    rcases ht.head_cases with rfl | ⟨u, hu, hut⟩
    · simpa [staysWithin, he] using hs
    · exact ih (by simpa [staysWithin, hu] using hs) hut

def Ends (t : Loop) : Ending → Prop
  | .done h k => ∃ t', step t = .ok (.finished k) t' ∧ t'.engine.heap = h
  | .failed error h => ∃ t', step t = .error error t' ∧ t'.engine.heap = h

theorem Leads.reaches {Q : Loop → Prop} {F : Error → Heap → Prop} {s : Loop} (h : Leads Q F s)
    (hs : ∀ t error t', Reaches s t → step t = .error error t' → error ≠ .fault .stackOverflow) :
    ∃ t, Reaches s t ∧ (Q t ∨ ∃ error t', step t = .error error t' ∧ F error t'.engine.heap) := by
  induction h with
  | here hq => exact ⟨_, .refl, .inl hq⟩
  | next hstep _ ih =>
    obtain ⟨t, ht, hend⟩ := ih fun t error t' ht => hs t error t' (.head hstep ht)
    exact ⟨t, .head hstep ht, hend⟩
  | fails hstep hf => exact ⟨_, .refl, .inr ⟨_, _, hstep, hf⟩⟩
  | overflows hstep => exact absurd rfl (hs _ _ _ .refl hstep)

theorem ends_of_stands {frame : CallFrame} {base : List Value} {k : Value} {h : Heap} {t : Loop}
    (hslot : frame.completion = some base.length) (hh : frame.handlers = [])
    (ht : frame.Stands frame.unit.code.size (base ++ [k]) h t) : Ends t (.done h k) := by
  obtain ⟨e, he, rfl⟩ := ht
  have hnone : frame.unit.code[frame.unit.code.size]? = none := by simp
  have hx : Ensures step (fun signal t' => signal = .finished k ∧ t'.engine.heap = h) (fun _ _ => False)
      ⟨e.reset (base ++ [k]) h, [{ frame with next := frame.unit.code.size }]⟩ := by
    refine .get ?_
    simp only [hnone, returnFrom, hh, hslot, leaveAll]
    refine .bind (.modified (.bind (.within (.pure (.get (.bind (.modified ?_)))))))
    refine .pure ⟨?_, rfl⟩
    simp [reset]
  cases hs : step ⟨e.reset (base ++ [k]) h, [{ frame with next := frame.unit.code.size }]⟩ with
  | ok signal t' =>
    obtain ⟨rfl, hheap⟩ := hx.ok hs
    exact ⟨t', hs, hheap⟩
  | error error t' => exact (hx.error hs).elim

end Loop

namespace Engine

theorem enterClosure_script {unit : CodeUnit} (env : Handle) (site : CallSite) (e : Engine)
    (hscript : unit.isScript = true) :
    Ensures (enterClosure unit env site)
      (fun frame e' => frame = ⟨unit, 0, e.boundReceiver unit site.receiver, env, some e.stack.size, site.base,
          e.scopes.size, []⟩ ∧ e'.env = env ∧ e'.stack.toList = e.stack.toList ++ [.undefined] ∧ e'.heap = e.heap)
      (fun _ e' => e'.heap = e.heap) e := by
  refine .get (.bind ?_)
  unfold openScope
  rw [if_pos hscript]
  refine .pure (.get ?_)
  rw [if_pos hscript]
  refine .bind (.push (l := e.stack.toList) (e := e) (h := e.heap) (.bind ?_) rfl)
  refine (enterTrace_ensures _ _).mono ?_ ?_
  · rintro _ e' rfl
    refine .get (.bind (.modified (.pure ⟨?_, rfl, rfl, rfl⟩)))
    rw [if_pos hscript]
    rfl
  · rintro error e' ⟨-, rfl⟩
    rfl

end Engine

namespace Machine

open Engine

/-- Compiled scripts without calls and try statements do what their trees mean. Wherever a script
is entered, if its body ends when it is evaluated directly, and the limit of the stack is never hit,
then its code comes to a step that ends in the same way: with the same completion value and the same
heap, or by raising the same error with the same heap. -/
theorem script_run_agrees {st : Compiler.Setting} {items : List Stmt} {unit : CodeUnit} {env : Handle}
    {site : CallSite} {e e₁ : Engine} {frame : CallFrame} {span : Span} {r : Ending}
    (hd : ∀ decl, Stmt.function decl ∉ items) (hc : Compiler.script st items = .ok unit)
    (he : enterClosure unit env site e = .ok frame e₁)
    (hr : (Stmt.block items span).Runs ⟨env, e.boundReceiver unit site.receiver, st.strict⟩ e.heap
      .undefined r)
    (hs : ∀ t error t', Loop.Reaches ⟨e₁, [frame]⟩ t → Loop.step t = .error error t' →
      error ≠ .fault .stackOverflow) :
    ∃ t, Loop.Reaches ⟨e₁, [frame]⟩ t ∧ t.Ends r := by
  obtain ⟨f, hf, hpart, hsize, hscript, hstrict⟩ := Compiler.script_of_no_function hd hc
  obtain ⟨hframe, henv, hstack, hheap⟩ := (enterClosure_script env site e hscript).ok he
  have hstands : frame.Stands 0 (e.stack.toList ++ [.undefined]) e.heap ⟨e₁, [frame]⟩ := by
    rw [← hstack, ← hheap, hframe]
    exact ⟨e₁, henv, rfl⟩
  have hscene : frame.scene = ⟨env, e.boundReceiver unit site.receiver, st.strict⟩ := by
    rw [hframe, ← hstrict]
    rfl
  have hunit : frame.unit = unit := by rw [hframe]
  have hslot : frame.completion = some e.stack.toList.length := by
    rw [hframe, Array.length_toList]
  rw [← hscene] at hr
  rw [← hunit] at hpart hsize
  have hcode : Compiler.stmt st true (.block items span) .start = .ok f := by
    simpa only [Compiler.stmt] using hf
  obtain ⟨t, ht, hend⟩ := (Compiler.stmt_leads hslot hr hcode hpart hstands).reaches hs
  refine ⟨t, ht, ?_⟩
  rcases hend with ⟨h, k, rfl, hdone⟩ | ⟨error, t', hstep, rfl⟩
  · rw [← hsize] at hdone
    exact Loop.ends_of_stands hslot (by rw [hframe]) hdone
  · exact ⟨t', hstep, rfl⟩

def filling : String :=
  "var o = \x7b k: 'a' \x7d; while (o.k) \x7b if (o.k === 'a') o.k = o['k'] + 'b'; else throw o.k; \x7d"

def isFunction : Stmt → Bool
  | .function _ => true
  | _ => false

theorem script_run_agrees_on_throw :
    ∃ (e e₁ e₂ : Engine) (f : Value) (items : List Stmt) (unit : CodeUnit) (frame : CallFrame) (t : Loop) (h : Heap),
      create? .none {} = some e ∧ load "sample" filling .program e = .ok f e₁ ∧ parse filling = .ok items ∧
      Compiler.script ⟨"sample", false⟩ items = .ok unit ∧
      enterClosure unit e₁.globalEnv ⟨0, .undefined, [], .closure unit e₁.globalEnv⟩ e₁ = .ok frame e₂ ∧
      Loop.Reaches ⟨e₂, [frame]⟩ t ∧ t.Ends (.failed (.thrown (.string "ab") "ab") h) := by
  let span : Span := ⟨0, 0, 1⟩
  have hok : (create? .none {}).any (fun e =>
      (valueOf? (load "sample" filling .program e)).any fun loaded =>
      (parse filling).toOption.any fun items =>
      (Compiler.script ⟨"sample", false⟩ items).toOption.any fun unit =>
        let e₁ := loaded.2
        (valueOf? (enterClosure unit e₁.globalEnv ⟨0, .undefined, [], .closure unit e₁.globalEnv⟩ e₁)).any fun entered =>
        ((Stmt.block items span).ending? ⟨e₁.globalEnv, e₁.boundReceiver unit .undefined, false⟩ 20 e₁.heap .undefined).any
          fun r => r.error? = some (.thrown (.string "ab") "ab") && !items.any isFunction &&
            Loop.staysWithin 60 ⟨entered.2, [entered.1]⟩) = true := by
    decide +kernel
  obtain ⟨e, he, hrest⟩ := (Option.any_eq_true _ _).mp hok
  obtain ⟨⟨f, e₁⟩, hf, hrest⟩ := (Option.any_eq_true _ _).mp hrest
  obtain ⟨items, hitems, hrest⟩ := (Option.any_eq_true _ _).mp hrest
  obtain ⟨unit, hunit, hrest⟩ := (Option.any_eq_true _ _).mp hrest
  obtain ⟨⟨frame, e₂⟩, hframe, hrest⟩ := (Option.any_eq_true _ _).mp hrest
  obtain ⟨r, hr, hrest⟩ := (Option.any_eq_true _ _).mp hrest
  simp only [Bool.and_eq_true, decide_eq_true_eq, Bool.not_eq_true'] at hrest
  obtain ⟨⟨hthrown, hfunctions⟩, hstack⟩ := hrest
  have hd : ∀ decl, Stmt.function decl ∉ items := fun decl hmem =>
    Bool.false_ne_true (hfunctions.symm.trans (List.any_eq_true.mpr ⟨_, hmem, rfl⟩))
  have hc := eq_ok_of_toOption hunit
  have hentered := eq_ok_of_valueOf? hframe
  obtain ⟨t, ht, hend⟩ := script_run_agrees hd hc hentered (Stmt.runs_of_ending? hr)
    fun _ _ _ => Loop.ne_stackOverflow_of_staysWithin hstack
  cases r with
  | done => cases hthrown
  | failed error h =>
    obtain rfl := Option.some.inj hthrown
    exact ⟨e, e₁, e₂, f, items, unit, frame, t, h, he, eq_ok_of_valueOf? hf, eq_ok_of_toOption hitems, hc, hentered, ht, hend⟩

end Machine

end ScriptEngine
