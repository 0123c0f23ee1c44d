import ScriptEngine.Machine
import ScriptEngine.Proofs.Code.Compiled
import ScriptEngine.Proofs.Code.Meaning
import ScriptEngine.Proofs.Machine.Execution

namespace ScriptEngine

namespace Loop

/-- Every run of the loop comes to a state in `Q`, or is broken off by an error in `F` or by the
limit of the stack. -/
inductive Leads (Q : Loop → Prop) (F : Error → Heap → Prop) : Loop → Prop
  | here {s : Loop} : Q s → Leads Q F s
  | next {s s' : Loop} : step s = .ok .proceed s' → Leads Q F s' → Leads Q F s
  | fails {s s' : Loop} {error : Error} : step s = .error error s' → F error s'.engine.heap → Leads Q F s
  | overflows {s s' : Loop} : step s = .error (.fault .stackOverflow) s' → Leads Q F s

theorem Leads.bind {Q Q' : Loop → Prop} {F F' : Error → Heap → Prop} {s : Loop} (h : Leads Q F s)
    (hQ : ∀ t, Q t → Leads Q' F' t) (hF : ∀ error h, F error h → F' error h) : Leads Q' F' s := by
  induction h with
  | here hq => exact hQ _ hq
  | next hs _ ih => exact .next hs ih
  | fails hs hf => exact .fails hs (hF _ _ hf)
  | overflows hs => exact .overflows hs

end Loop

def CallFrame.scene (frame : CallFrame) : Scene :=
  ⟨frame.scope, frame.receiver, frame.unit.strict⟩

def CallFrame.Stands (frame : CallFrame) (a : Nat) (l : List Value) (h : Heap) (s : Loop) : Prop :=
  ∃ e : Engine, e.env = frame.scope ∧ s = ⟨e.reset l h, [{ frame with next := a }]⟩

namespace CallFrame

open Engine Loop

variable {frame : CallFrame} {a b d : Nat} {l l' : List Value} {h : Heap} {s : Loop} {instr : Instr}

theorem Stands.execute {Q : Loop → Prop} {F : Error → Heap → Prop} (hs : frame.Stands a l h s)
    (hi : frame.unit.code[a]? = some instr)
    (hx : ∀ e : Engine, e.env = frame.scope →
      Ensures (Loop.execute { frame with next := a + 1 } [] instr) (fun signal t => signal = .proceed ∧ Leads Q F t)
        (fun error t => error = .fault .stackOverflow ∨ F error t.engine.heap)
        ⟨e.reset l h, [{ frame with next := a + 1 }]⟩) : Leads Q F s := by
  obtain ⟨e, he, rfl⟩ := hs
  have hstep : Ensures Loop.step (fun signal t => signal = .proceed ∧ Leads Q F t)
      (fun error t => error = .fault .stackOverflow ∨ F error t.engine.heap)
      ⟨e.reset l h, [{ frame with next := a }]⟩ := by
    refine .get ?_
    simp only [hi]
    cases frame.unit.lines[a]? with
    | none => exact .bind (.modified (hx e he))
    | some line => exact .bind (.modified (.bind (.modified (hx (e.atLine line) he))))
  cases hr : Loop.step ⟨e.reset l h, [{ frame with next := a }]⟩ with
  | ok signal t =>
    obtain ⟨rfl, ht⟩ := hstep.ok hr
    exact .next hr ht
  | error error t =>
    rcases hstep.error hr with rfl | hf
    · exact .overflows hr
    · exact .fails hr hf

def Computes {α : Type} (frame : CallFrame) (a : Nat) (l : List Value) (b : Nat) (out : α → List Value)
    (m : HeapM α) : Prop :=
  ∀ h s, frame.Stands a l h s →
    Leads (fun t => ∃ v h', m h = .ok v h' ∧ frame.Stands b (out v) h' t)
      (fun error h' => ∃ fault, error = .fault fault ∧ m h = .error fault h') s

namespace Computes

variable {α β : Type} {out : α → List Value} {out' : β → List Value} {m : HeapM α} {k : α → HeapM β}

theorem pure {v : α} (hl : l = out v) : frame.Computes a l a out (Pure.pure v) :=
  fun h _ hs => .here ⟨v, h, rfl, hl ▸ hs⟩

theorem bind (hm : frame.Computes a l b out m) (hk : ∀ v, frame.Computes b (out v) d out' (k v)) :
    frame.Computes a l d out' (m >>= k) := by
  intro h s hs
  refine (hm h s hs).bind ?_ ?_
  · rintro t ⟨v, h₁, hv, ht⟩
    have hb : (m >>= k) h = k v h₁ := by
      simp [Bind.bind, EStateM.bind, hv]
    simpa only [hb] using hk v h₁ t ht
  · rintro error h' ⟨fault, rfl, hf⟩
    refine ⟨fault, rfl, ?_⟩
    simp [Bind.bind, EStateM.bind, hf]

theorem simple (hi : frame.unit.code[a]? = some instr)
    (hs : ∀ f fs, Loop.execute f fs instr = (Loop.within (Loop.simple f instr) >>= fun _ => Pure.pure .proceed))
    (hx : ∀ (e : Engine) (h : Heap), e.env = frame.scope →
      Ensures (Loop.simple { frame with next := a + 1 } instr)
        (fun _ e' => ∃ v h', m h = .ok v h' ∧ e' = e.reset (out v) h')
        (fun error e' => error = .fault .stackOverflow ∨
          ∃ fault, error = .fault fault ∧ m h = .error fault e'.heap) (e.reset l h)) :
    frame.Computes a l (a + 1) out m := by
  intro h s hst
  refine hst.execute hi fun e he => ?_
  rw [hs]
  refine .bind (.within ((hx e h he).mono ?_ ?_))
  · rintro _ e' ⟨v, h', hv, rfl⟩
    exact .pure ⟨rfl, .here ⟨v, h', hv, e, he, rfl⟩⟩
  · rintro error e' herror
    exact herror

theorem ok {Q : Loop → Prop} {F : Error → Heap → Prop} {v : α} {h' : Heap}
    (hc : frame.Computes a l b out m) (hm : m h = .ok v h') (hs : frame.Stands a l h s)
    (hk : ∀ t, frame.Stands b (out v) h' t → Leads Q F t) : Leads Q F s := by
  refine (hc h s hs).bind ?_ ?_
  · rintro t ⟨w, h₁, hw, ht⟩
    rw [hm] at hw
    cases hw
    exact hk t ht
  · rintro error h₁ ⟨fault, _, hf⟩
    rw [hm] at hf
    cases hf

theorem error {Q : Loop → Prop} {F : Error → Heap → Prop} {fault : Fault} {h' : Heap}
    (hc : frame.Computes a l b out m) (hm : m h = .error fault h') (hs : frame.Stands a l h s)
    (hF : F (.fault fault) h') : Leads Q F s := by
  refine (hc h s hs).bind ?_ ?_
  · rintro t ⟨w, h₁, hw, _⟩
    rw [hm] at hw
    cases hw
  · rintro error h₁ ⟨fault, rfl, hf⟩
    rw [hm] at hf
    cases hf
    exact hF

end Computes

end CallFrame

namespace HeapM

variable {α : Type} {h h' : Heap} {fault : Fault}

theorem ask_ok {f : Heap → Except Fault α} {a : α} (hf : f h = .ok a) : ask f h = .ok a h := by
  simp [ask, hf]

theorem ask_error {f : Heap → Except Fault α} (hf : f h = .error fault) : ask f h = .error fault h := by
  simp [ask, hf]

theorem change_ok {f : Heap → Except Fault Heap} (hf : f h = .ok h') : change f h = .ok () h' := by
  simp [change, hf]

theorem change_error {f : Heap → Except Fault Heap} (hf : f h = .error fault) :
    change f h = .error fault h := by
  simp [change, hf]

theorem change_then_ok {f : Heap → Except Fault Heap} {k : Unit → HeapM α} (hf : f h = .ok h') :
    (change f >>= k) h = k () h' := by
  simp [bind, EStateM.bind, change, hf]

theorem change_then_error {f : Heap → Except Fault Heap} {k : Unit → HeapM α} (hf : f h = .error fault) :
    (change f >>= k) h = .error fault h := by
  simp [bind, EStateM.bind, change, hf]

end HeapM

namespace Compiler

def Fragment.PartOf (u : CodeUnit) (p : Place) (f : Fragment) : Prop :=
  ∀ i instr, f.instrs[i]? = some instr → u.code[p.address + i]? = some instr

namespace Fragment.PartOf

variable {u : CodeUnit} {p : Place} {f g : Fragment}

theorem left (h : (f ++ g).PartOf u p) : f.PartOf u p := by
  intro i instr hi
  refine h i instr ?_
  rw [instrs_append, List.getElem?_append_left]
  · exact hi
  · exact (List.getElem?_eq_some_iff.mp hi).1

theorem right (h : (f ++ g).PartOf u p) : g.PartOf u (p.after f) := by
  intro i instr hi
  have hg := h (f.size + i) instr (by
    rw [instrs_append, List.getElem?_append_right (by rw [length_instrs]; omega), length_instrs,
      Nat.add_sub_cancel_left]
    exact hi)
  rwa [← Nat.add_assoc] at hg

theorem one {instr : Instr} {line : Nat} (h : (Fragment.one instr line).PartOf u p) :
    u.code[p.address]? = some instr := h 0 instr rfl

end Fragment.PartOf

section

open Engine

variable {st : Setting} {frame : CallFrame}

theorem scene_env {e : Engine} {l : List Value} {h : Heap} (he : e.env = frame.scope) :
    (e.reset l h).env = frame.scene.env := he

theorem literal_computes {x : Literal} {a : Nat} {l : List Value}
    (hi : frame.unit.code[a]? = some (literal x)) :
    frame.Computes a l (a + 1) (fun v => l ++ [v]) (pure x.value) := by
  cases x <;>
    exact .simple hi (fun _ _ => rfl) fun e h _ => .push ⟨_, h, rfl, rfl⟩ (.inl rfl)

theorem operator_computes {op : UnaryOp} {a : Nat} {l : List Value} {v : Value}
    (hi : frame.unit.code[a]? = some (operator op)) :
    frame.Computes a (l ++ [v]) (a + 1) (fun w => l ++ [w]) (do return op.apply (← get) v) := by
  cases op with
  | negate =>
    exact .simple hi (fun _ _ => rfl) fun e h _ => .bind (.popped (.push ⟨_, h, rfl, rfl⟩ (.inl rfl)))
  | not =>
    exact .simple hi (fun _ _ => rfl) fun e h _ => .bind (.popped (.push ⟨_, h, rfl, rfl⟩ (.inl rfl)))
  | typeof =>
    exact .simple hi (fun _ _ => rfl) fun e h _ =>
      .bind (.popped (.get (.push ⟨_, h, rfl, rfl⟩ (.inl rfl))))

theorem shortCircuit_computes {op : LogicalOp} {a b : Nat} {l : List Value} {v : Value} {m : HeapM Value}
    (hi : frame.unit.code[a]? = some (shortCircuit b op))
    (hm : frame.Computes (a + 1) l b (fun w => l ++ [w]) m) :
    frame.Computes a (l ++ [v]) b (fun w => l ++ [w]) (if op.decides v then pure v else m) := by
  intro h s hs
  refine hs.execute hi fun e he => ?_
  have hjump : Loop.Leads (fun t => ∃ w h', (pure v : HeapM Value) h = .ok w h' ∧
        frame.Stands b (l ++ [w]) h' t) (fun error h' => ∃ fault, error = .fault fault ∧
        (pure v : HeapM Value) h = .error fault h') ⟨e.reset (l ++ [v]) h, [{ frame with next := b }]⟩ :=
    .here ⟨v, h, rfl, e, he, rfl⟩
  have hfall := hm h ⟨e.reset l h, [{ frame with next := a + 1 }]⟩ ⟨e, he, rfl⟩
  cases op with
  | and =>
    refine .bind (.within (.peek ?_))
    cases hv : v.truthy with
    | true =>
      simp only [if_true, LogicalOp.decides, hv, Bool.not_true, Bool.false_eq_true, if_false]
      exact .bind (.bind (.within (.popped (.pure (.pure ⟨rfl, hfall⟩)))))
    | false =>
      simp only [Bool.false_eq_true, if_false, LogicalOp.decides, hv, Bool.not_false, if_true]
      exact .bind (.modified (.pure ⟨rfl, hjump⟩))
  | or =>
    refine .bind (.within (.peek ?_))
    cases hv : v.truthy with
    | true =>
      simp only [if_true, LogicalOp.decides, hv]
      exact .bind (.modified (.pure ⟨rfl, hjump⟩))
    | false =>
      simp only [Bool.false_eq_true, if_false, LogicalOp.decides, hv]
      exact .bind (.bind (.within (.popped (.pure (.pure ⟨rfl, hfall⟩)))))

mutual

theorem expr_computes : ∀ (x : Expr) {p : Place} {f : Fragment} {m : HeapM Value} (l : List Value),
    expr st x p = .ok f → f.PartOf frame.unit p → x.meaning? frame.scene = some m →
      frame.Computes p.address l (p.after f).address (fun v => l ++ [v]) m
  | .literal value span, p, f, m, l, hc, hf, hm => by
    simp only [expr, pure_eq_ok] at hc
    subst hc
    obtain rfl := Option.some.inj hm
    exact literal_computes hf.one
  | .name n span, p, f, m, l, hc, hf, hm => by
    simp only [expr, pure_eq_ok] at hc
    subst hc
    obtain rfl := Option.some.inj hm
    refine .simple hf.one (fun _ _ => rfl) fun e h he => .get (.bind (.ask ?_ ?_))
    · intro v hv
      rw [scene_env he] at hv
      exact .push ⟨v, h, HeapM.ask_ok hv, rfl⟩ (.inl rfl)
    · intro fault hfault
      rw [scene_env he] at hfault
      exact .inr ⟨fault, rfl, HeapM.ask_error hfault⟩
  | .this span, p, f, m, l, hc, hf, hm => by
    simp only [expr, pure_eq_ok] at hc
    subst hc
    obtain rfl := Option.some.inj hm
    exact .simple hf.one (fun _ _ => rfl) fun e h _ => .push ⟨_, h, rfl, rfl⟩ (.inl rfl)
  | .binary op left right span, p, f, m, l, hc, hf, hm => by
    simp only [expr, bind_eq_ok, pure_eq_ok] at hc
    obtain ⟨a, ha, b, hb, rfl⟩ := hc
    simp only [Expr.meaning?, bind, Option.bind_eq_some_iff, Option.some.injEq] at hm
    obtain ⟨ma, hma, mb, hmb, rfl⟩ := hm
    rw [Place.after_append, Place.after_append, Place.after_one]
    have hi := hf.right.one
    rw [Place.after_append] at hi
    refine (expr_computes left l ha hf.left.left hma).bind fun x => ?_
    refine (expr_computes right (l ++ [x]) hb hf.left.right hmb).bind fun y => ?_
    exact .simple hi (fun _ _ => rfl) fun e h _ =>
      .bind (.popped (.bind (.popped (.get (.push ⟨_, h, rfl, rfl⟩ (.inl rfl))))))
  | .logical op left right span, p, f, m, l, hc, hf, hm => by
    simp only [expr, bind_eq_ok, pure_eq_ok] at hc
    obtain ⟨a, ha, b, hb, rfl⟩ := hc
    simp only [Expr.meaning?, bind, Option.bind_eq_some_iff, Option.some.injEq] at hm
    obtain ⟨ma, hma, mb, hmb, rfl⟩ := hm
    rw [Place.after_append, Place.after_append, Place.after_one]
    have hb' := hf.right
    rw [Place.after_append, Place.after_one] at hb'
    refine (expr_computes left l ha hf.left.left hma).bind fun x => ?_
    exact shortCircuit_computes hf.left.right.one (expr_computes right l hb hb' hmb)
  | .unary op operand span, p, f, m, l, hc, hf, hm => by
    simp only [expr, bind_eq_ok, pure_eq_ok] at hc
    obtain ⟨a, ha, rfl⟩ := hc
    simp only [Expr.meaning?, bind, Option.bind_eq_some_iff, Option.some.injEq] at hm
    obtain ⟨ma, hma, rfl⟩ := hm
    rw [Place.after_append, Place.after_one]
    exact (expr_computes operand l ha hf.left hma).bind fun x => operator_computes hf.right.one
  | .assign target value span, p, f, m, l, hc, hf, hm => by
    match target, hc, hm with
    | .name n place, hc, hm =>
      simp only [expr, bind_eq_ok, pure_eq_ok] at hc
      obtain ⟨_, _, a, ha, rfl⟩ := hc
      simp only [Expr.meaning?, bind, Option.bind_eq_some_iff, Option.some.injEq] at hm
      obtain ⟨ma, hma, rfl⟩ := hm
      rw [Place.after_append, Place.after_one]
      refine (expr_computes value l ha hf.left hma).bind fun v => ?_
      refine .simple hf.right.one (fun _ _ => rfl) fun e h he => .bind (.peek (.get (.change ?_ ?_)))
      · intro h' hh
        rw [scene_env he] at hh
        exact ⟨v, h', HeapM.change_then_ok hh, rfl⟩
      · intro fault hh
        rw [scene_env he] at hh
        exact .inr ⟨fault, rfl, HeapM.change_then_error hh⟩
    | .field object n _, hc, hm =>
      simp only [expr, bind_eq_ok, pure_eq_ok] at hc
      obtain ⟨a, ha, b, hb, rfl⟩ := hc
      simp only [Expr.meaning?, bind, Option.bind_eq_some_iff, Option.some.injEq] at hm
      obtain ⟨ma, hma, mb, hmb, rfl⟩ := hm
      have hi := hf.right.one
      rw [Place.after_append] at hi
      rw [Place.after_append, Place.after_append, Place.after_one]
      refine (expr_computes object l ha hf.left.left hma).bind fun x => ?_
      refine (expr_computes value (l ++ [x]) hb hf.left.right hmb).bind fun v => ?_
      refine .simple hi (fun _ _ => rfl) fun e h _ =>
        .bind (.popped (.bind (.popped (.bind (.change ?_ ?_)))))
      · intro h' hh
        exact .push ⟨v, h', HeapM.change_then_ok hh, rfl⟩ (.inl rfl)
      · intro fault hh
        exact .inr ⟨fault, rfl, HeapM.change_then_error hh⟩
    | .index object key _, hc, hm =>
      simp only [expr, bind_eq_ok, pure_eq_ok] at hc
      obtain ⟨a, ha, b, hb, c, hd, rfl⟩ := hc
      simp only [Expr.meaning?, bind, Option.bind_eq_some_iff, Option.some.injEq] at hm
      obtain ⟨ma, hma, mb, hmb, md, hmd, rfl⟩ := hm
      have hi := hf.right.one
      have hv := hf.left.right
      rw [Place.after_append, Place.after_append] at hi
      rw [Place.after_append] at hv
      rw [Place.after_append, Place.after_append, Place.after_append, Place.after_one]
      refine (expr_computes object l ha hf.left.left.left hma).bind fun x => ?_
      refine (expr_computes key (l ++ [x]) hb hf.left.left.right hmb).bind fun y => ?_
      refine (expr_computes value (l ++ [x] ++ [y]) hd hv hmd).bind fun v => ?_
      refine .simple hi (fun _ _ => rfl) fun e h _ =>
        .bind (.popped (.bind (.popped (.bind (.popped (.get (.bind (.change ?_ ?_))))))))
      · intro h' hh
        exact .push ⟨v, h', HeapM.change_then_ok hh, rfl⟩ (.inl rfl)
      · intro fault hh
        exact .inr ⟨fault, rfl, HeapM.change_then_error hh⟩
    | .literal .., hc, _ | .this .., hc, _ | .binary .., hc, _ | .logical .., hc, _ | .unary .., hc, _
    | .assign .., hc, _ | .call .., hc, _ | .object .., hc, _ | .group .., hc, _ | .function .., hc, _ =>
      simp only [expr] at hc
      exact absurd hc throw_ne_ok
  | .object members span, p, f, m, l, hc, hf, hm => by
    simp only [expr, bind_eq_ok, pure_eq_ok] at hc
    obtain ⟨b, hb, rfl⟩ := hc
    simp only [Expr.meaning?, bind, Option.bind_eq_some_iff, Option.some.injEq] at hm
    obtain ⟨fill, hfill, rfl⟩ := hm
    have hrest := hf.right
    rw [Place.after_one] at hrest
    rw [Place.after_append, Place.after_one]
    have hnew : frame.Computes p.address l p.next.address (fun a => l ++ [.object a])
        (modifyGet (·.allocObject (.of .plain))) :=
      .simple hf.left.one (fun _ _ => rfl) fun e h _ =>
        .bind (.modifyGet (.push ⟨_, _, rfl, rfl⟩ (.inl rfl)))
    refine hnew.bind fun a => ?_
    exact (members_compute members l (.object a) hb hrest hfill).bind fun _ => .pure rfl
  | .group inner _, p, f, m, l, hc, hf, hm => by
    simp only [expr] at hc
    exact expr_computes inner l hc hf hm
  | .index target key span, p, f, m, l, hc, hf, hm => by
    simp only [expr, bind_eq_ok, pure_eq_ok] at hc
    obtain ⟨a, ha, b, hb, rfl⟩ := hc
    simp only [Expr.meaning?, bind, Option.bind_eq_some_iff, Option.some.injEq] at hm
    obtain ⟨ma, hma, mb, hmb, rfl⟩ := hm
    have hi := hf.right.one
    rw [Place.after_append] at hi
    rw [Place.after_append, Place.after_append, Place.after_one]
    refine (expr_computes target l ha hf.left.left hma).bind fun x => ?_
    refine (expr_computes key (l ++ [x]) hb hf.left.right hmb).bind fun y => ?_
    refine .simple hi (fun _ _ => rfl) fun e h _ =>
      .bind (.popped (.bind (.popped (.get (.bind (.ask ?_ ?_))))))
    · intro v hv
      exact .push ⟨v, h, HeapM.ask_ok (f := (·.getProperty x (h.display y))) hv, rfl⟩ (.inl rfl)
    · intro fault hfault
      exact .inr ⟨fault, rfl, HeapM.ask_error (f := (·.getProperty x (h.display y))) hfault⟩
  | .field target n span, p, f, m, l, hc, hf, hm => by
    simp only [expr, bind_eq_ok, pure_eq_ok] at hc
    obtain ⟨a, ha, rfl⟩ := hc
    simp only [Expr.meaning?, bind, Option.bind_eq_some_iff, Option.some.injEq] at hm
    obtain ⟨ma, hma, rfl⟩ := hm
    rw [Place.after_append, Place.after_one]
    refine (expr_computes target l ha hf.left hma).bind fun x => ?_
    refine .simple hf.right.one (fun _ _ => rfl) fun e h _ => .bind (.popped (.bind (.ask ?_ ?_)))
    · intro v hv
      exact .push ⟨v, h, HeapM.ask_ok hv, rfl⟩ (.inl rfl)
    · intro fault hfault
      exact .inr ⟨fault, rfl, HeapM.ask_error hfault⟩
  | .call .., _, _, _, _, _, _, hm => by simp [Expr.meaning?] at hm
  | .function .., _, _, _, _, _, _, hm => by simp [Expr.meaning?] at hm

theorem members_compute : ∀ (xs : List (String × Expr)) {p : Place} {f : Fragment}
    {fill : Value → HeapM Unit} (l : List Value) (target : Value),
    entries st xs p = .ok f → f.PartOf frame.unit p → Expr.members? frame.scene xs = some fill →
      frame.Computes p.address (l ++ [target]) (p.after f).address (fun _ => l ++ [target]) (fill target)
  | [], p, f, fill, l, target, hc, hf, hm => by
    simp only [entries, pure_eq_ok] at hc
    subst hc
    obtain rfl := Option.some.inj hm
    exact .pure rfl
  | (n, value) :: rest, p, f, fill, l, target, hc, hf, hm => by
    simp only [entries, bind_eq_ok, pure_eq_ok] at hc
    obtain ⟨a, ha, b, hb, rfl⟩ := hc
    simp only [Expr.members?, bind, Option.bind_eq_some_iff, Option.some.injEq] at hm
    obtain ⟨ma, hma, fill', hfill, rfl⟩ := hm
    have hrest := hf.right
    rw [Place.after_append, Place.after_one] at hrest
    rw [Place.after_append, Place.after_append, Place.after_one]
    refine (expr_computes value (l ++ [target]) ha hf.left.left hma).bind fun v => ?_
    have hset : frame.Computes (p.after a).address (l ++ [target] ++ [v]) (p.after a).next.address
        (fun _ => l ++ [target]) (.change (·.setProperty target n v)) := by
      refine .simple hf.left.right.one (fun _ _ => rfl) fun e h _ =>
        .bind (.popped (.bind (.peek (.change ?_ ?_))))
      · intro h' hh
        exact ⟨(), h', HeapM.change_ok hh, rfl⟩
      · intro fault hh
        exact .inr ⟨fault, rfl, HeapM.change_error hh⟩
    exact hset.bind fun _ => members_compute rest l target hb hrest hfill

end

theorem bindings_compute {span : Span} : ∀ (bs : List (String × Option Expr)) {p : Place} {f : Fragment}
    {m : HeapM Unit} (l : List Value),
    bindings st span bs p = .ok f → f.PartOf frame.unit p → Stmt.bindings? frame.scene bs = some m →
      frame.Computes p.address l (p.after f).address (fun _ => l) m
  | [], p, f, m, l, hc, hf, hm => by
    simp only [bindings, pure_eq_ok] at hc
    subst hc
    obtain rfl := Option.some.inj hm
    exact .pure rfl
  | (name, some value) :: rest, p, f, m, l, hc, hf, hm => by
    simp only [bindings, bind_eq_ok, pure_eq_ok] at hc
    obtain ⟨_, _, a, ha, b, hb, rfl⟩ := hc
    simp only [Stmt.bindings?, bind, Option.bind_eq_some_iff, Option.some.injEq] at hm
    obtain ⟨ma, hma, mb, hmb, rfl⟩ := hm
    have hrest := hf.right
    rw [Place.after_append, Place.after_one] at hrest
    rw [Place.after_append, Place.after_append, Place.after_one]
    refine (expr_computes value l ha hf.left.left hma).bind fun v => ?_
    have hdef : frame.Computes (p.after a).address (l ++ [v]) (p.after a).next.address (fun _ => l)
        (.change (Environment.define · frame.scene.env name v)) := by
      refine .simple hf.left.right.one (fun _ _ => rfl) fun e h _ => .bind (.popped (.change ?_ ?_))
      · intro h' hh
        exact ⟨(), h', HeapM.change_ok hh, rfl⟩
      · intro fault hh
        exact .inr ⟨fault, rfl, HeapM.change_error hh⟩
    exact hdef.bind fun _ => bindings_compute rest l hb hrest hmb
  | (name, none) :: rest, p, f, m, l, hc, hf, hm => by
    simp only [bindings, bind_eq_ok, pure_eq_ok] at hc
    obtain ⟨_, _, b, hb, rfl⟩ := hc
    simp only [Stmt.bindings?, bind, Option.bind_eq_some_iff, Option.some.injEq] at hm
    obtain ⟨mb, hmb, rfl⟩ := hm
    have hrest := hf.right
    rw [Place.after_one] at hrest
    rw [Place.after_append, Place.after_one]
    have hdecl : frame.Computes p.address l p.next.address (fun _ => l)
        (.change (Environment.declare · frame.scene.env name)) := by
      refine .simple hf.left.one (fun _ _ => rfl) fun e h _ =>
        .change (f := (Environment.declare · frame.scope name)) ?_ ?_
      · intro h' hh
        exact ⟨(), h', HeapM.change_ok hh, rfl⟩
      · intro fault hh
        exact .inr ⟨fault, rfl, HeapM.change_error hh⟩
    exact hdecl.bind fun _ => bindings_compute rest l hb hrest hmb

end

end Compiler

end ScriptEngine
