import ScriptEngine.Proofs.Machine.Evaluation

namespace ScriptEngine

open Compiler

inductive CodeUnit.Clause (u : CodeUnit) (a c x : Nat) (name : String) : Prop
  | intro {st : Setting} {script : Bool} {body handler : List Stmt} {span : Span} {p : Place} {f : Fragment} :
      stmt st script (.try body name handler span) p = .ok f → f.PartOf u p → p.address = a →
        u.code[a]? = some (.try c x) → u.code[c]? = some (.enterCatch name) → Clause u a c x name

namespace Compiler

namespace Fragment

def Clauses (u : CodeUnit) (p : Place) (f : Fragment) : Prop :=
  ∀ i c x, f.instrs[i]? = some (.try c x) → ∃ name, u.Clause (p.address + i) c x name

variable {u : CodeUnit} {p : Place} {a b : Fragment}

theorem clauses_empty : Clauses u p .empty := by
  intro i c x hi
  simp [instrs, empty] at hi

theorem clauses_one {instr : Instr} {line : Nat} (h : ∀ c x, instr ≠ .try c x) : Clauses u p (.one instr line) := by
  intro i c x hi
  cases i with
  | zero => exact absurd (Option.some.inj hi) (h c x)
  | succ i => cases hi

theorem Clauses.append (ha : a.Clauses u p) (hb : b.Clauses u (p.after a)) : (a ++ b).Clauses u p := by
  intro i c x hi
  rw [instrs_append] at hi
  rcases Nat.lt_or_ge i a.instrs.length with hlt | hge
  · rw [List.getElem?_append_left hlt] at hi
    exact ha i c x hi
  · rw [List.getElem?_append_right hge] at hi
    have hx := hb _ c x hi
    rw [length_instrs] at hx hge
    have haddr : (p.after a).address + (i - a.size) = p.address + i := by
      simp only [Place.after]
      omega
    rwa [haddr] at hx

theorem clauses_closure {span : Span} {v : CodeUnit} : (Compiler.closure p span v).Clauses u p := by
  have hone : Clauses u p (.one (.closure p.function) span.line) := clauses_one (by simp)
  exact hone

end Fragment

open Fragment

variable {st : Setting} {script : Bool} {u : CodeUnit}

mutual

theorem expr_clauses : ∀ (x : Expr) {p : Place} {f : Fragment}, expr st x p = .ok f → f.Clauses u p
  | .literal value span, p, f, h => by
    simp only [expr, pure_eq_ok] at h
    subst h
    exact clauses_one (by cases value <;> simp [literal])
  | .name name span, p, f, h | .this span, p, f, h => by
    simp only [expr, pure_eq_ok] at h
    subst h
    exact clauses_one (by simp)
  | .binary op left right span, p, f, h => by
    simp only [expr, bind_eq_ok, pure_eq_ok] at h
    obtain ⟨a, ha, b, hb, rfl⟩ := h
    exact ((expr_clauses left ha).append (expr_clauses right hb)).append (clauses_one (by simp))
  | .logical op left right span, p, f, h => by
    simp only [expr, bind_eq_ok, pure_eq_ok] at h
    obtain ⟨a, ha, b, hb, rfl⟩ := h
    refine ((expr_clauses left ha).append (clauses_one ?_)).append ?_
    · cases op <;> simp [shortCircuit]
    · rw [Place.after_append, Place.after_one]
      exact expr_clauses right hb
  | .unary op operand span, p, f, h => by
    simp only [expr, bind_eq_ok, pure_eq_ok] at h
    obtain ⟨a, ha, rfl⟩ := h
    exact (expr_clauses operand ha).append (clauses_one (by cases op <;> simp [operator]))
  | .assign target value span, p, f, h => by
    match target, h with
    | .name name place, h =>
      simp only [expr, bind_eq_ok, pure_eq_ok] at h
      obtain ⟨_, _, a, ha, rfl⟩ := h
      exact (expr_clauses value ha).append (clauses_one (by simp))
    | .field object name _, h =>
      simp only [expr, bind_eq_ok, pure_eq_ok] at h
      obtain ⟨a, ha, b, hb, rfl⟩ := h
      exact ((expr_clauses object ha).append (expr_clauses value hb)).append (clauses_one (by simp))
    | .index object index _, h =>
      simp only [expr, bind_eq_ok, pure_eq_ok] at h
      obtain ⟨a, ha, b, hb, c, hc, rfl⟩ := h
      rw [← Place.after_append] at hc
      exact (((expr_clauses object ha).append (expr_clauses index hb)).append (expr_clauses value hc)).append
        (clauses_one (by simp))
    | .literal .., h | .this .., h | .binary .., h | .logical .., h | .unary .., h
    | .assign .., h | .call .., h | .object .., h | .group .., h | .function .., h =>
      simp only [expr] at h
      exact absurd h throw_ne_ok
  | .call callee args span, p, f, h => by
    simp only [expr] at h
    split at h
    · exact absurd h throw_ne_ok
    have finish {a b : Fragment} (ha : a.Clauses u p) (hb : exprs st args (p.after a) = .ok b) :
        (a ++ b ++ .one (.call args.length) span.line).Clauses u p :=
      (ha.append (exprs_clauses args hb)).append (clauses_one (by simp))
    match callee, h with
    | .field target name _, h =>
      simp only [bind_eq_ok, pure_eq_ok] at h
      obtain ⟨a, ha, _, rfl, b, hb, rfl⟩ := h
      exact finish ((expr_clauses target ha).append (clauses_one (by simp))) hb
    | .literal .., h | .name .., h | .this .., h | .binary .., h | .logical .., h | .unary .., h
    | .assign .., h | .call .., h | .object .., h | .group .., h | .index .., h | .function .., h =>
      simp only [bind_eq_ok, pure_eq_ok] at h
      obtain ⟨a, ha, _, rfl, b, hb, rfl⟩ := h
      exact finish ((expr_clauses _ ha).append (clauses_one (by simp))) hb
  | .object members span, p, f, h => by
    simp only [expr, bind_eq_ok, pure_eq_ok] at h
    obtain ⟨b, hb, rfl⟩ := h
    exact Clauses.append (clauses_one (by simp)) (entries_clauses members hb)
  | .group inner _, p, f, h => by
    simp only [expr] at h
    exact expr_clauses inner h
  | .index target index span, p, f, h => by
    simp only [expr, bind_eq_ok, pure_eq_ok] at h
    obtain ⟨a, ha, b, hb, rfl⟩ := h
    exact ((expr_clauses target ha).append (expr_clauses index hb)).append (clauses_one (by simp))
  | .field target name span, p, f, h => by
    simp only [expr, bind_eq_ok, pure_eq_ok] at h
    obtain ⟨a, ha, rfl⟩ := h
    exact (expr_clauses target ha).append (clauses_one (by simp))
  | .function decl, p, f, h => by
    simp only [expr, bind_eq_ok, pure_eq_ok] at h
    obtain ⟨v, hv, rfl⟩ := h
    exact clauses_closure

theorem exprs_clauses : ∀ (xs : List Expr) {p : Place} {f : Fragment}, exprs st xs p = .ok f → f.Clauses u p
  | [], p, f, h => by
    simp only [exprs, pure_eq_ok] at h
    subst h
    exact clauses_empty
  | x :: xs, p, f, h => by
    simp only [exprs, bind_eq_ok, pure_eq_ok] at h
    obtain ⟨a, ha, b, hb, rfl⟩ := h
    exact (expr_clauses x ha).append (exprs_clauses xs hb)

theorem entries_clauses : ∀ (xs : List (String × Expr)) {p : Place} {f : Fragment},
    entries st xs p = .ok f → f.Clauses u p
  | [], p, f, h => by
    simp only [entries, pure_eq_ok] at h
    subst h
    exact clauses_empty
  | (name, value) :: rest, p, f, h => by
    simp only [entries, bind_eq_ok, pure_eq_ok] at h
    obtain ⟨a, ha, b, hb, rfl⟩ := h
    refine ((expr_clauses value ha).append (clauses_one (by simp))).append ?_
    rw [Place.after_append, Place.after_one]
    exact entries_clauses rest hb

end

theorem declaration_clauses {p : Place} {decl : FunctionDecl} {v : CodeUnit} : (declaration p decl v).Clauses u p :=
  clauses_closure.append (clauses_one (by simp))

theorem bindings_clauses {span : Span} : ∀ (xs : List (String × Option Expr)) {p : Place} {f : Fragment},
    bindings st span xs p = .ok f → f.Clauses u p
  | [], p, f, h => by
    simp only [bindings, pure_eq_ok] at h
    subst h
    exact clauses_empty
  | (name, some value) :: rest, p, f, h => by
    simp only [bindings, bind_eq_ok, pure_eq_ok] at h
    obtain ⟨_, _, a, ha, b, hb, rfl⟩ := h
    refine ((expr_clauses value ha).append (clauses_one (by simp))).append ?_
    rw [Place.after_append, Place.after_one]
    exact bindings_clauses rest hb
  | (name, none) :: rest, p, f, h => by
    simp only [bindings, bind_eq_ok, pure_eq_ok] at h
    obtain ⟨_, _, b, hb, rfl⟩ := h
    exact Clauses.append (clauses_one (by simp)) (bindings_clauses rest hb)

theorem try_code {body handler : List Stmt} {name : String} {span : Span} {p : Place} {f : Fragment}
    (hc : stmt st script (.try body name handler span) p = .ok f) (hf : f.PartOf u p) :
    ∃ c x, u.Clause p.address c x name ∧ f.instrs[0]? = some (.try c x) := by
  have hcode := hc
  simp only [stmt, bind_eq_ok, pure_eq_ok] at hcode
  obtain ⟨_, _, a, ha, b, hb, rfl⟩ := hcode
  have htry := hf.left.left.left.left.left.one
  have henter := hf.left.left.right.one
  rw [Place.after_append, Place.after_append] at henter
  exact ⟨_, _, .intro hc hf rfl htry henter, rfl⟩

mutual

theorem stmt_clauses : ∀ (x : Stmt) {p : Place} {f : Fragment}, stmt st script x p = .ok f → f.PartOf u p → f.Clauses u p
  | .var names span, p, f, h, _ => by
    simp only [stmt] at h
    exact bindings_clauses names h
  | .function decl, p, f, h, _ => by
    simp only [stmt, bind_eq_ok, pure_eq_ok] at h
    obtain ⟨_, _, v, hv, rfl⟩ := h
    exact declaration_clauses
  | .expr value, p, f, h, _ => by
    simp only [stmt, bind_eq_ok, pure_eq_ok] at h
    obtain ⟨a, ha, rfl⟩ := h
    exact (expr_clauses value ha).append (clauses_one (by cases script <;> simp [discard]))
  | .block items _, p, f, h, hf => by
    simp only [stmt] at h
    exact stmts_clauses items h hf
  | .cond test yes none span, p, f, h, hf => by
    simp only [stmt, bind_eq_ok, pure_eq_ok] at h
    obtain ⟨a, ha, b, hb, rfl⟩ := h
    have hyes := hf.right
    simp only [Place.after_append, Place.after_one] at hyes
    refine ((expr_clauses test ha).append (clauses_one (by simp))).append ?_
    rw [Place.after_append, Place.after_one]
    exact stmt_clauses yes hb hyes
  | .cond test yes (some no) span, p, f, h, hf => by
    simp only [stmt, bind_eq_ok, pure_eq_ok] at h
    obtain ⟨a, ha, b, hb, c, hc, rfl⟩ := h
    have hyes := hf.left.left.right
    have hno := hf.right
    simp only [Place.after_append, Place.after_one] at hyes hno
    refine ((((expr_clauses test ha).append (clauses_one (by simp))).append ?_).append (clauses_one (by simp))).append ?_
    · rw [Place.after_append, Place.after_one]
      exact stmt_clauses yes hb hyes
    · simp only [Place.after_append, Place.after_one]
      exact stmt_clauses no hc hno
  | .loop test body span, p, f, h, hf => by
    simp only [stmt, bind_eq_ok, pure_eq_ok] at h
    obtain ⟨a, ha, b, hb, rfl⟩ := h
    have hbody := hf.left.right
    simp only [Place.after_append, Place.after_one] at hbody
    refine (((expr_clauses test ha).append (clauses_one (by simp))).append ?_).append (clauses_one (by simp))
    rw [Place.after_append, Place.after_one]
    exact stmt_clauses body hb hbody
  | .return value span, p, f, h, _ => by
    cases value with
    | some value =>
      rw [stmt] at h
      split at h
      · exact absurd h throw_ne_ok
      · simp only [bind_eq_ok, pure_eq_ok] at h
        obtain ⟨a, ha, rfl⟩ := h
        exact (expr_clauses value ha).append (clauses_one (by simp))
    | none =>
      rw [stmt] at h
      split at h
      · exact absurd h throw_ne_ok
      · simp only [bind_eq_ok, pure_eq_ok] at h
        obtain ⟨a, rfl, rfl⟩ := h
        exact Clauses.append (clauses_one (by simp)) (clauses_one (by simp))
  | .throw value span, p, f, h, _ => by
    simp only [stmt, bind_eq_ok, pure_eq_ok] at h
    obtain ⟨a, ha, rfl⟩ := h
    exact (expr_clauses value ha).append (clauses_one (by simp))
  | .try body name handler span, p, f, h, hf => by
    obtain ⟨c, x, hclause, hfirst⟩ := try_code h hf
    simp only [stmt, bind_eq_ok, pure_eq_ok] at h
    obtain ⟨_, _, a, ha, b, hb, rfl⟩ := h
    have hbody := hf.left.left.left.left.right
    have hhandler := hf.left.right
    simp only [Place.after_append, Place.after_one] at hbody hhandler
    -- The first instruction is the statement's own; those behind it come from its two blocks.
    have htry : Clauses u p (.one (.try (p.next.after a).next.address
        ((p.next.after a).next.next.after b).next.address) span.line) := by
      intro i c' x' hi
      cases i with
      | succ i => cases hi
      | zero =>
        obtain ⟨rfl, rfl⟩ : c = c' ∧ x = x' := by
          simpa using hfirst.symm.trans hi
        exact ⟨name, hclause⟩
    refine ((((htry.append ?_).append (clauses_one (by simp))).append (clauses_one (by simp))).append ?_).append
      (clauses_one (by simp))
    · exact stmts_clauses body ha hbody
    · simp only [Place.after_append, Place.after_one]
      exact stmts_clauses handler hb hhandler
  | .empty _, p, f, h, _ => by
    simp only [stmt, pure_eq_ok] at h
    subst h
    exact clauses_empty

theorem stmts_clauses : ∀ (xs : List Stmt) {p : Place} {f : Fragment},
    stmts st script xs p = .ok f → f.PartOf u p → f.Clauses u p
  | [], p, f, h, _ => by
    simp only [stmts, pure_eq_ok] at h
    subst h
    exact clauses_empty
  | x :: xs, p, f, h, hf => by
    simp only [stmts, bind_eq_ok, pure_eq_ok] at h
    obtain ⟨a, ha, b, hb, rfl⟩ := h
    exact (stmt_clauses x ha hf.left).append (stmts_clauses xs hb hf.right)

end

theorem hoisted_clauses : ∀ (xs : List Stmt) {p : Place} {f : Fragment}, hoisted st xs p = .ok f → f.Clauses u p
  | [], p, f, h => by
    simp only [hoisted, pure_eq_ok] at h
    subst h
    exact clauses_empty
  | x :: xs, p, f, h => by
    cases x with
    | function decl =>
      simp only [hoisted, bind_eq_ok, pure_eq_ok] at h
      obtain ⟨_, _, v, hv, b, hb, rfl⟩ := h
      exact declaration_clauses.append (hoisted_clauses xs hb)
    | _ =>
      simp only [hoisted] at h
      exact hoisted_clauses xs h

theorem remaining_clauses : ∀ (xs : List Stmt) {p : Place} {f : Fragment},
    remaining st script xs p = .ok f → f.PartOf u p → f.Clauses u p
  | [], p, f, h, _ => by
    simp only [remaining, pure_eq_ok] at h
    subst h
    exact clauses_empty
  | x :: xs, p, f, h, hf => by
    cases x with
    | function decl =>
      simp only [remaining] at h
      exact remaining_clauses xs h hf
    | _ =>
      simp only [remaining, bind_eq_ok, pure_eq_ok] at h
      obtain ⟨a, ha, b, hb, rfl⟩ := h
      exact (stmt_clauses _ ha hf.left).append (remaining_clauses xs hb hf.right)

theorem finish_partOf (st : Setting) (name : String) (line : Nat) (params : List String) (script : Bool) (f : Fragment) :
    f.PartOf (finish st name line params script f) .start := by
  intro i instr hi
  simpa [finish, instrs, Place.start] using hi

theorem finish_clause {st : Setting} {name : String} {line : Nat} {params : List String} {script : Bool} {f : Fragment}
    {a c x : Nat} (hf : f.Clauses (finish st name line params script f) .start)
    (ha : (finish st name line params script f).code[a]? = some (.try c x)) :
    ∃ bound, (finish st name line params script f).Clause a c x bound := by
  have hx := hf a c x (by simpa [finish, instrs] using ha)
  simpa [Place.start] using hx

end Compiler

theorem CodeUnit.Compiled.clause {u : CodeUnit} (hu : u.Compiled) {a c x : Nat} (ha : u.code[a]? = some (.try c x)) :
    ∃ name, u.Clause a c x name := by
  cases hu with
  | @script st items u h =>
    simp only [Compiler.script, bind_eq_ok, pure_eq_ok] at h
    obtain ⟨f, hf, g, hg, rfl⟩ := h
    have hpart := finish_partOf st "script" 1 [] true (f ++ g)
    exact finish_clause ((hoisted_clauses items hf).append (remaining_clauses items hg hpart.right)) ha
  | @function st decl u h =>
    obtain ⟨name, params, body, span⟩ := decl
    simp only [Compiler.function] at h
    split at h
    · exact absurd h throw_ne_ok
    · simp only [bind_eq_ok, pure_eq_ok] at h
      obtain ⟨_, _, f, hf, g, hg, rfl⟩ := h
      have hpart := finish_partOf st (name.getD "") span.line params false
        (f ++ g ++ (.one .undefined span.line ++ .one .return span.line))
      refine finish_clause ?_ ha
      exact ((hoisted_clauses body hf).append (remaining_clauses body hg hpart.left.right)).append
        (Fragment.Clauses.append (Fragment.clauses_one (by simp)) (Fragment.clauses_one (by simp)))

end ScriptEngine
