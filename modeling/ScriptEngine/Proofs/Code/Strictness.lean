import ScriptEngine.Proofs.Code.Legality

namespace ScriptEngine

mutual

def CodeUnit.under (strict : Bool) : CodeUnit → CodeUnit
  | ⟨name, file, line, params, code, lines, functions, isScript, _⟩ =>
    ⟨name, file, line, params, code, lines, CodeUnit.allUnder strict functions, isScript, strict⟩

def CodeUnit.allUnder (strict : Bool) : List CodeUnit → List CodeUnit
  | [] => []
  | u :: us => u.under strict :: CodeUnit.allUnder strict us

end

theorem CodeUnit.allUnder_append (strict : Bool) (us vs : List CodeUnit) :
    allUnder strict (us ++ vs) = allUnder strict us ++ allUnder strict vs := by
  induction us with
  | nil => rfl
  | cons u us ih => rw [List.cons_append, allUnder, allUnder, ih, List.cons_append]

theorem CodeUnit.length_allUnder (strict : Bool) (us : List CodeUnit) : (allUnder strict us).length = us.length := by
  induction us with
  | nil => rfl
  | cons u us ih => rw [allUnder, List.length_cons, List.length_cons, ih]

namespace Compiler

variable {strict : Bool}

def Fragment.under (strict : Bool) (f : Fragment) : Fragment :=
  { f with functions := CodeUnit.allUnder strict f.functions }

@[simp] theorem Fragment.under_append (a b : Fragment) :
    (a ++ b).under strict = a.under strict ++ b.under strict := by
  show Fragment.under strict (a.append b) = (a.under strict).append (b.under strict)
  simp only [append, under, CodeUnit.allUnder_append]

@[simp] theorem Fragment.under_one (i : Instr) (line : Nat) : (one i line).under strict = one i line := rfl

@[simp] theorem Place.after_under (p : Place) (f : Fragment) : p.after (f.under strict) = p.after f := by
  simp only [after, Fragment.under, Fragment.size, CodeUnit.length_allUnder]

def Carries {α β : Type} (g : α → β) (x : CompileM α) (y : CompileM β) : Prop :=
  ∀ a, x = .ok a → y = .ok (g a)

namespace Carries

variable {α β γ δ : Type} {g : α → β} {g' : γ → δ} {x : CompileM α} {y : CompileM β} {f : α → CompileM γ}
  {f' : β → CompileM δ}

theorem pure {a : α} {b : β} (h : g a = b) : Carries g (pure a) (pure b) := by
  rintro _ ⟨⟩
  exact congrArg _ h.symm

theorem bind (hx : Carries g x y) (hf : ∀ a, Carries g' (f a) (f' (g a))) : Carries g' (x >>= f) (y >>= f') := by
  intro c hc
  obtain ⟨a, ha, hfa⟩ := bind_eq_ok.mp hc
  exact bind_eq_ok.mpr ⟨g a, hx a ha, hf a c hfa⟩

theorem map {h : α → γ} {h' : β → δ} (hx : Carries g x y) (hh : ∀ a, g' (h a) = h' (g a)) :
    Carries g' (x >>= fun a => Pure.pure (h a)) (y >>= fun b => Pure.pure (h' b)) :=
  hx.bind fun a => pure (hh a)

theorem refusal {c c' : Prop} [Decidable c] [Decidable c'] {e e' : CompileError} {z : CompileM γ} {z' : CompileM δ}
    (hc : c' → c) (hz : Carries g' z z') :
    Carries g' (if c then throw e else z) (if c' then throw e' else z') := by
  intro d hd
  by_cases h : c
  · rw [if_pos h] at hd
    cases hd
  · rw [if_neg h] at hd
    rw [if_neg (h ∘ hc)]
    exact hz d hd

theorem guard {c c' : Prop} [Decidable c] [Decidable c'] {e e' : CompileError} {k : α → CompileM γ} {k' : β → CompileM δ}
    {z : CompileM γ} {z' : CompileM δ} (hc : c' → c) (hz : Carries g' z z') :
    Carries g' (if c then throw e >>= k else z) (if c' then throw e' >>= k' else z') :=
  refusal hc hz

end Carries

variable {file : String}

theorem checkName_carries (name : String) (span : Span) :
    Carries id (checkName ⟨file, true⟩ name span) (checkName ⟨file, strict⟩ name span) :=
  Carries.refusal (fun h => ⟨rfl, h.2⟩) (.pure rfl)

theorem checkParams_carries (span : Span) : ∀ (names seen : List String),
    Carries id (checkParams ⟨file, true⟩ span seen names) (checkParams ⟨file, strict⟩ span seen names)
  | [], seen => .pure rfl
  | name :: names, seen => by
    rw [checkParams, checkParams]
    exact (checkName_carries name span).bind fun _ =>
      .guard (fun h => ⟨rfl, h.2⟩) (checkParams_carries span names (name :: seen))

@[simp] theorem under_closure (p : Place) (span : Span) (u : CodeUnit) :
    (closure p span u).under strict = closure p span (u.under strict) := rfl

@[simp] theorem under_declaration (p : Place) (x : FunctionDecl) (u : CodeUnit) :
    (declaration p x u).under strict = declaration p x (u.under strict) := rfl

@[simp] theorem under_finish (name : String) (line : Nat) (params : List String) (isScript : Bool) (f : Fragment) :
    (finish ⟨file, true⟩ name line params isScript f).under strict =
      finish ⟨file, strict⟩ name line params isScript (f.under strict) := rfl

mutual

theorem expr_carries : ∀ (x : Expr) (p : Place),
    Carries (Fragment.under strict) (expr ⟨file, true⟩ x p) (expr ⟨file, strict⟩ x p)
  | .literal value span, p => by
    rw [expr, expr]
    exact .pure rfl
  | .name name span, p => by
    rw [expr, expr]
    exact .pure rfl
  | .this span, p => by
    rw [expr, expr]
    exact .pure rfl
  | .binary op left right span, p => by
    rw [expr, expr]
    refine (expr_carries left p).bind fun a => ?_
    rw [Place.after_under]
    exact (expr_carries right _).map fun b => by simp
  | .logical op left right span, p => by
    rw [expr, expr]
    refine (expr_carries left p).bind fun a => ?_
    rw [Place.after_under]
    exact (expr_carries right _).map fun b => by simp
  | .unary op operand span, p => by
    rw [expr, expr]
    exact (expr_carries operand p).map fun a => by simp
  | .assign target value span, p => by
    match target with
    | .name name place =>
      rw [expr, expr]
      exact (checkName_carries name place).bind fun _ => (expr_carries value p).map fun a => by simp
    | .field object name _ =>
      rw [expr, expr]
      refine (expr_carries object p).bind fun a => ?_
      rw [Place.after_under]
      exact (expr_carries value _).map fun b => by simp
    | .index object index _ =>
      rw [expr, expr]
      refine (expr_carries object p).bind fun a => ?_
      rw [Place.after_under]
      refine (expr_carries index _).bind fun b => ?_
      rw [Place.after_under]
      exact (expr_carries value _).map fun c => by simp
    | .literal .. | .this .. | .binary .. | .logical .. | .unary .. | .assign .. | .call .. | .object ..
    | .group .. | .function .. =>
      rw [expr]
      · rintro _ ⟨⟩
      all_goals simp
  | .call callee args span, p => by
    have finish (x : Expr) (i : Instr)
        (hx : Carries (Fragment.under strict) (expr ⟨file, true⟩ x p) (expr ⟨file, strict⟩ x p)) :
        Carries (Fragment.under strict)
          (do
            let a ← expr ⟨file, true⟩ x p
            let b ← exprs ⟨file, true⟩ args (p.after (a ++ .one i span.line))
            pure (a ++ .one i span.line ++ b ++ .one (.call args.length) span.line))
          (do
            let a ← expr ⟨file, strict⟩ x p
            let b ← exprs ⟨file, strict⟩ args (p.after (a ++ .one i span.line))
            pure (a ++ .one i span.line ++ b ++ .one (.call args.length) span.line)) := by
      refine hx.bind fun a => ?_
      rw [← Fragment.under_one i, ← Fragment.under_append, Place.after_under]
      exact (exprs_carries args _).map fun b => by simp
    match callee with
    | .field target name place =>
      rw [expr, expr]
      exact .guard id (finish target (.getMethod name) (expr_carries target p))
    | .literal .. | .name .. | .this .. | .binary .. | .logical .. | .unary .. | .assign .. | .call .. | .object ..
    | .group .. | .index .. | .function .. =>
      rw [expr, expr]
      exact .guard id (finish _ .undefined (expr_carries _ p))
  | .object members span, p => by
    rw [expr, expr]
    exact (entries_carries members p.next).map fun b => by simp
  | .group inner span, p => by
    rw [expr, expr]
    exact expr_carries inner p
  | .index target index span, p => by
    rw [expr, expr]
    refine (expr_carries target p).bind fun a => ?_
    rw [Place.after_under]
    exact (expr_carries index _).map fun b => by simp
  | .field target name span, p => by
    rw [expr, expr]
    exact (expr_carries target p).map fun a => by simp
  | .function x, p => by
    rw [expr, expr]
    exact (function_carries x).map fun u => by simp

theorem exprs_carries : ∀ (xs : List Expr) (p : Place),
    Carries (Fragment.under strict) (exprs ⟨file, true⟩ xs p) (exprs ⟨file, strict⟩ xs p)
  | [], p => .pure rfl
  | x :: xs, p => by
    rw [exprs, exprs]
    refine (expr_carries x p).bind fun a => ?_
    rw [Place.after_under]
    exact (exprs_carries xs _).map fun b => by simp

theorem entries_carries : ∀ (members : List (String × Expr)) (p : Place),
    Carries (Fragment.under strict) (entries ⟨file, true⟩ members p) (entries ⟨file, strict⟩ members p)
  | [], p => .pure rfl
  | (name, value) :: rest, p => by
    rw [entries, entries]
    refine (expr_carries value p).bind fun a => ?_
    rw [Place.after_under]
    exact (entries_carries rest _).map fun b => by simp

theorem function_carries : ∀ (x : FunctionDecl),
    Carries (CodeUnit.under strict) (function ⟨file, true⟩ x) (function ⟨file, strict⟩ x)
  | ⟨name, params, body, span⟩ => by
    rw [function, function]
    refine .guard id ((checkParams_carries span params []).bind fun _ => (hoisted_carries body .start).bind fun a => ?_)
    rw [Place.after_under]
    exact (remaining_carries false body _).map fun b => by simp

theorem hoisted_carries : ∀ (items : List Stmt) (p : Place),
    Carries (Fragment.under strict) (hoisted ⟨file, true⟩ items p) (hoisted ⟨file, strict⟩ items p)
  | [], p => .pure rfl
  | item :: rest, p => by
    match item with
    | .function x =>
      rw [hoisted, hoisted]
      refine (checkName_carries (boundName x) x.span).bind fun _ => (function_carries x).bind fun u => ?_
      rw [← under_declaration]
      dsimp only
      rw [Place.after_under]
      exact (hoisted_carries rest _).map fun b => by simp
    | .var .. | .expr .. | .block .. | .cond .. | .loop .. | .return .. | .throw .. | .try .. | .empty .. =>
      rw [hoisted, hoisted]
      · exact hoisted_carries rest p
      all_goals simp

theorem remaining_carries (script : Bool) : ∀ (items : List Stmt) (p : Place),
    Carries (Fragment.under strict) (remaining ⟨file, true⟩ script items p) (remaining ⟨file, strict⟩ script items p)
  | [], p => .pure rfl
  | item :: rest, p => by
    match item with
    | .function x =>
      rw [remaining, remaining]
      exact remaining_carries script rest p
    | .var .. | .expr .. | .block .. | .cond .. | .loop .. | .return .. | .throw .. | .try .. | .empty .. =>
      rw [remaining, remaining]
      · refine (stmt_carries script _ p).bind fun a => ?_
        rw [Place.after_under]
        exact (remaining_carries script rest _).map fun b => by simp
      all_goals simp

theorem stmts_carries (script : Bool) : ∀ (items : List Stmt) (p : Place),
    Carries (Fragment.under strict) (stmts ⟨file, true⟩ script items p) (stmts ⟨file, strict⟩ script items p)
  | [], p => .pure rfl
  | item :: rest, p => by
    rw [stmts, stmts]
    refine (stmt_carries script item p).bind fun a => ?_
    rw [Place.after_under]
    exact (stmts_carries script rest _).map fun b => by simp

theorem bindings_carries (span : Span) : ∀ (bs : List (String × Option Expr)) (p : Place),
    Carries (Fragment.under strict) (bindings ⟨file, true⟩ span bs p) (bindings ⟨file, strict⟩ span bs p)
  | [], p => .pure rfl
  | (name, some value) :: rest, p => by
    rw [bindings, bindings]
    refine (checkName_carries name span).bind fun _ => (expr_carries value p).bind fun a => ?_
    rw [Place.after_under]
    exact (bindings_carries span rest _).map fun b => by simp
  | (name, none) :: rest, p => by
    rw [bindings, bindings]
    exact (checkName_carries name span).bind fun _ => (bindings_carries span rest _).map fun b => by simp

theorem stmt_carries (script : Bool) : ∀ (x : Stmt) (p : Place),
    Carries (Fragment.under strict) (stmt ⟨file, true⟩ script x p) (stmt ⟨file, strict⟩ script x p)
  | .var names span, p => by
    rw [stmt, stmt]
    exact bindings_carries span names p
  | .function x, p => by
    rw [stmt, stmt]
    exact (checkName_carries (boundName x) x.span).bind fun _ => (function_carries x).map fun u => by simp
  | .expr value, p => by
    rw [stmt, stmt]
    exact (expr_carries value p).map fun a => by simp
  | .block items span, p => by
    rw [stmt, stmt]
    exact stmts_carries script items p
  | .cond test yes none span, p => by
    rw [stmt, stmt]
    refine (expr_carries test p).bind fun a => ?_
    rw [Place.after_under]
    exact (stmt_carries script yes _).map fun b => by simp
  | .cond test yes (some no) span, p => by
    rw [stmt, stmt]
    refine (expr_carries test p).bind fun a => ?_
    rw [Place.after_under]
    refine (stmt_carries script yes _).bind fun b => ?_
    rw [Place.after_under]
    exact (stmt_carries script no _).map fun c => by simp
  | .loop test body span, p => by
    rw [stmt, stmt]
    refine (expr_carries test p).bind fun a => ?_
    rw [Place.after_under]
    exact (stmt_carries script body _).map fun b => by simp
  | .return value span, p => by
    rw [stmt, stmt]
    cases value with
    | none => exact .guard id (.pure rfl)
    | some value => exact .guard id ((expr_carries value p).map fun a => by simp)
  | .throw value span, p => by
    rw [stmt, stmt]
    exact (expr_carries value p).map fun a => by simp
  | .try body name handler span, p => by
    rw [stmt, stmt]
    refine (checkName_carries name span).bind fun _ => (stmts_carries script body _).bind fun a => ?_
    rw [Place.after_under]
    exact (stmts_carries script handler _).map fun b => by simp
  | .empty span, p => by
    rw [stmt, stmt]
    exact .pure rfl

end

theorem script_carries (items : List Stmt) :
    Carries (CodeUnit.under strict) (script ⟨file, true⟩ items) (script ⟨file, strict⟩ items) := by
  rw [script, script]
  refine (hoisted_carries items .start).bind fun a => ?_
  rw [Place.after_under]
  exact (remaining_carries true items _).map fun b => by simp

end Compiler

namespace SyntaxTree

open Compiler

theorem compile_under {tree : SyntaxTree} {u : CodeUnit} (h : tree.compile true = .ok u) (strict : Bool) :
    tree.compile strict = .ok (u.under strict) := by
  unfold compile at h ⊢
  split at h
  · next v hv =>
    cases h
    rw [script_carries tree.items _ hv]
  · cases h

/-- A tree is refused if and only if a node in it breaks a rule. What strict mode accepts is accepted
without it, and the code differs in no unit but for the mode that the units are for. -/
theorem compiling_decided (tree : SyntaxTree) (strict : Bool) :
    ((∃ d, tree.compile strict = .error d) ↔ ∃ n fault, tree.Contains n ∧ n.Breaks strict fault) ∧
      ∀ u, tree.compile true = .ok u → u.under true = u ∧ tree.compile false = .ok (u.under false) := by
  refine ⟨⟨?_, ?_⟩, ?_⟩
  · rintro ⟨d, hd⟩
    obtain ⟨n, e, hn, hw, -⟩ := breaks_of_compile hd
    exact ⟨n, e.fault, hn, hw.1⟩
  · rintro ⟨n, fault, hn, hb⟩
    exact compile_of_breaks hn hb
  · intro u hu
    have htrue := (compile_under hu true).symm.trans hu
    exact ⟨Except.ok.inj htrue, compile_under hu false⟩

def shadowing : SyntaxTree :=
  ⟨"shadowing", [.block [.expr (.function ⟨none, ["eval"], [.return none ⟨20, 26, 2⟩], ⟨4, 30, 1⟩⟩)] ⟨0, 32, 1⟩]⟩

theorem compiling_decided_of_shadowing :
    (∃ d, shadowing.compile true = .error d) ∧ ∃ u, shadowing.compile false = .ok u := by
  refine ⟨(compiling_decided shadowing true).1.mpr ?_, _, rfl⟩
  refine ⟨_, _, ⟨_, List.mem_singleton.mpr rfl, ?_⟩,
    .restrictedName (n := .decl ⟨none, ["eval"], [.return none ⟨20, 26, 2⟩], ⟨4, 30, 1⟩⟩) rfl
      (List.mem_singleton.mpr rfl) (.inl rfl)⟩
  exact (((Node.Within.self _).deeper (List.mem_singleton.mpr rfl)).deeper (List.mem_singleton.mpr rfl)).deeper
    (List.mem_singleton.mpr rfl)

end SyntaxTree

end ScriptEngine
