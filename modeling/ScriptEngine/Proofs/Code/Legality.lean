import Mathlib.Data.List.Duplicate
import ScriptEngine.Code.Compiler
import ScriptEngine.Proofs.Outcome
import ScriptEngine.Proofs.Tree.Grammar
import ScriptEngine.Proofs.Tree.Node

namespace ScriptEngine

def Restricted (name : String) : Prop :=
  name = "eval" ∨ name = "arguments"

namespace Node

def names : Node → List String
  | .expr (.assign (.name name _) _ _) => [name]
  | .stmt _ (.var bindings _) => bindings.map (·.1)
  | .stmt _ (.function x) => x.name.toList
  | .stmt _ (.try _ name _ _) => [name]
  | .decl x => x.params
  | _ => []

inductive Breaks (strict : Bool) : Node → CompileFault → Prop
  | returnOutside {value : Option Expr} {s : Span} : Breaks strict (.stmt false (.return value s)) .returnOutside
  | tooManyParameters {x : FunctionDecl} : 255 < x.params.length → Breaks strict (.decl x) .tooManyParameters
  | tooManyArguments {callee : Expr} {args : List Expr} {s : Span} :
      255 < args.length → Breaks strict (.expr (.call callee args s)) .tooManyArguments
  | invalidTarget {target value : Expr} {s : Span} :
      ¬ target.Assignable → Breaks strict (.expr (.assign target value s)) .invalidTarget
  | restrictedName {n : Node} {name : String} :
      strict = true → name ∈ n.names → Restricted name → Breaks strict n (.restrictedName name)
  | duplicateParameter {x : FunctionDecl} {name : String} :
      strict = true → x.params.Duplicate name → Breaks strict (.decl x) (.duplicateParameter name)

def place : Node → Span
  | .expr (.assign target _ _) => target.span
  | n => n.span

def Wrong (strict : Bool) (n : Node) (e : CompileError) : Prop :=
  n.Breaks strict e.fault ∧ e.span = n.place

def Faulty (strict : Bool) (n : Node) (e : CompileError) : Prop :=
  ∃ m : Node, m.Within n ∧ m.Wrong strict e

def isPlain : Node → Bool
  | .expr (.assign ..) | .expr (.call ..) | .stmt _ (.var ..) | .stmt _ (.function _) | .stmt _ (.return ..)
  | .stmt _ (.try ..) | .decl _ => false
  | _ => true

variable {strict : Bool} {n : Node} {e : CompileError}

theorem faulty_iff : n.Faulty strict e ↔ n.Wrong strict e ∨ ∃ c ∈ n.children, c.Faulty strict e := by
  constructor
  · rintro ⟨m, hm, hw⟩
    cases hm with
    | self => exact .inl hw
    | deeper hm hc => exact .inr ⟨_, hc, m, hm, hw⟩
  · rintro (hw | ⟨c, hc, m, hm, hw⟩)
    · exact ⟨n, .self n, hw⟩
    · exact ⟨m, .deeper hm hc, hw⟩

theorem names_of_isPlain (h : n.isPlain = true) : n.names = [] := by
  cases n with
  | decl x => cases h
  | expr x => cases x with
    | assign | call => cases h
    | _ => rfl
  | stmt b x => cases x with
    | var | function | «return» | «try» => cases h
    | _ => rfl

theorem not_wrong_of_isPlain (h : n.isPlain = true) : ¬ n.Wrong strict e := by
  obtain ⟨fault, span⟩ := e
  rintro ⟨hb, -⟩
  cases hb with
  | restrictedName _ hmem _ => simp [names_of_isPlain h] at hmem
  | returnOutside | tooManyParameters | tooManyArguments | invalidTarget | duplicateParameter => cases h

theorem wrong_of_names (h : ∀ fault, n.Breaks strict fault → ∃ name, fault = .restrictedName name) :
    n.Wrong strict e ↔ strict = true ∧ ∃ name ∈ n.names, Restricted name ∧ e = ⟨.restrictedName name, n.place⟩ := by
  obtain ⟨fault, span⟩ := e
  constructor
  · rintro ⟨hb, rfl⟩
    obtain ⟨name, rfl⟩ := h _ hb
    cases hb with
    | restrictedName hs hmem hname => exact ⟨hs, name, hmem, hname, rfl⟩
  · rintro ⟨hs, name, hmem, hname, ⟨⟩⟩
    exact ⟨.restrictedName hs hmem hname, rfl⟩

theorem wrong_var {inFunction : Bool} {bindings : List (String × Option Expr)} {s : Span} :
    (Node.stmt inFunction (.var bindings s)).Wrong strict e ↔
      strict = true ∧ ∃ b ∈ bindings, Restricted b.1 ∧ e = ⟨.restrictedName b.1, s⟩ := by
  rw [wrong_of_names (by rintro _ ⟨⟩; exact ⟨_, rfl⟩)]
  simp only [names, List.mem_map, exists_exists_and_eq_and]
  rfl

theorem wrong_function {inFunction : Bool} {x : FunctionDecl} :
    (Node.stmt inFunction (.function x)).Wrong strict e ↔
      strict = true ∧ ∃ name ∈ x.name, Restricted name ∧ e = ⟨.restrictedName name, x.span⟩ := by
  rw [wrong_of_names (by rintro _ ⟨⟩; exact ⟨_, rfl⟩)]
  simp only [names, Option.mem_toList]
  rfl

theorem wrong_try {inFunction : Bool} {body handler : List Stmt} {name : String} {s : Span} :
    (Node.stmt inFunction (.try body name handler s)).Wrong strict e ↔
      strict = true ∧ Restricted name ∧ e = ⟨.restrictedName name, s⟩ := by
  rw [wrong_of_names (by rintro _ ⟨⟩; exact ⟨_, rfl⟩)]
  simp only [names, List.mem_singleton, exists_eq_left]
  rfl

theorem wrong_assign {target value : Expr} {s : Span} :
    (Node.expr (.assign target value s)).Wrong strict e ↔
      ¬ target.Assignable ∧ e = ⟨.invalidTarget, target.span⟩ ∨
        strict = true ∧ ∃ name ∈ (Node.expr (.assign target value s)).names,
          Restricted name ∧ e = ⟨.restrictedName name, target.span⟩ := by
  obtain ⟨fault, span⟩ := e
  constructor
  · rintro ⟨hb, rfl⟩
    cases hb with
    | invalidTarget ht => exact .inl ⟨ht, rfl⟩
    | restrictedName hs hmem hname => exact .inr ⟨hs, _, hmem, hname, rfl⟩
  · rintro (⟨ht, ⟨⟩⟩ | ⟨hs, name, hmem, hname, ⟨⟩⟩)
    · exact ⟨.invalidTarget ht, rfl⟩
    · exact ⟨.restrictedName hs hmem hname, rfl⟩

theorem wrong_call {callee : Expr} {args : List Expr} {s : Span} :
    (Node.expr (.call callee args s)).Wrong strict e ↔ 255 < args.length ∧ e = ⟨.tooManyArguments, s⟩ := by
  obtain ⟨fault, span⟩ := e
  constructor
  · rintro ⟨hb, rfl⟩
    cases hb with
    | tooManyArguments h => exact ⟨h, rfl⟩
    | restrictedName _ hmem _ => cases hmem
  · rintro ⟨h, ⟨⟩⟩
    exact ⟨.tooManyArguments h, rfl⟩

theorem wrong_return {inFunction : Bool} {value : Option Expr} {s : Span} :
    (Node.stmt inFunction (.return value s)).Wrong strict e ↔ inFunction = false ∧ e = ⟨.returnOutside, s⟩ := by
  obtain ⟨fault, span⟩ := e
  constructor
  · rintro ⟨hb, rfl⟩
    cases hb with
    | returnOutside => exact ⟨rfl, rfl⟩
    | restrictedName _ hmem _ => cases hmem
  · rintro ⟨rfl, ⟨⟩⟩
    exact ⟨.returnOutside, rfl⟩

theorem wrong_decl {x : FunctionDecl} :
    (Node.decl x).Wrong strict e ↔
      255 < x.params.length ∧ e = ⟨.tooManyParameters, x.span⟩ ∨
        strict = true ∧ ((∃ name ∈ x.params, Restricted name ∧ e = ⟨.restrictedName name, x.span⟩) ∨
          ∃ name, x.params.Duplicate name ∧ e = ⟨.duplicateParameter name, x.span⟩) := by
  obtain ⟨fault, span⟩ := e
  constructor
  · rintro ⟨hb, rfl⟩
    cases hb with
    | tooManyParameters h => exact .inl ⟨h, rfl⟩
    | restrictedName hs hmem hname => exact .inr ⟨hs, .inl ⟨_, hmem, hname, rfl⟩⟩
    | duplicateParameter hs hd => exact .inr ⟨hs, .inr ⟨_, hd, rfl⟩⟩
  · rintro (⟨h, ⟨⟩⟩ | ⟨hs, ⟨name, hmem, hname, ⟨⟩⟩ | ⟨name, hd, ⟨⟩⟩⟩)
    · exact ⟨.tooManyParameters h, rfl⟩
    · exact ⟨.restrictedName hs hmem hname, rfl⟩
    · exact ⟨.duplicateParameter hs hd, rfl⟩

theorem faulty_of_isPlain (h : n.isPlain = true) :
    n.Faulty strict e ↔ ∃ c ∈ n.children, c.Faulty strict e := by
  rw [faulty_iff]
  exact or_iff_right (not_wrong_of_isPlain h)

end Node

namespace Compiler

/-- A computation succeeds if there is no error of the kind, and fails with one of them otherwise. -/
def Judges {α : Type} (W : CompileError → Prop) : CompileM α → Prop
  | .ok _ => ∀ e, ¬ W e
  | .error e => W e

namespace Judges

variable {α β : Type} {V W : CompileError → Prop} {x : CompileM α} {f : α → CompileM β}

theorem congr (h : Judges V x) (hvw : ∀ e, W e ↔ V e) : Judges W x := by
  cases x with
  | ok a => exact fun e he => h e ((hvw e).mp he)
  | error e => exact (hvw e).mpr h

theorem pure (a : α) : Judges (fun _ => False) (pure a) :=
  fun _ => id

theorem bind (hx : Judges V x) (hf : ∀ a, Judges W (f a)) : Judges (fun e => V e ∨ W e) (x >>= f) := by
  cases x with
  | error e => exact .inl hx
  | ok a =>
    have ha := hf a
    show Judges _ (f a)
    cases hfa : f a with
    | ok b =>
      rw [hfa] at ha
      exact fun e he => he.elim (hx e) (ha e)
    | error e =>
      rw [hfa] at ha
      exact .inr ha

theorem map {g : α → β} (hx : Judges V x) : Judges V (x >>= fun a => Pure.pure (g a)) :=
  (hx.bind fun a => pure (g a)).congr fun _ => by simp

theorem guard {c : Prop} [Decidable c] {e : CompileError} {k : CompileM β} (hk : Judges W k) :
    Judges (fun e' => (c ∧ e' = e) ∨ W e') (if c then throw e >>= f else k) := by
  by_cases hc : c
  · rw [if_pos hc]
    exact .inl ⟨hc, rfl⟩
  · rw [if_neg hc]
    exact hk.congr fun _ => or_iff_right fun h => hc h.1

end Judges

variable {s : Setting}

theorem checkName_judges (name : String) (span : Span) :
    Judges (fun e => (s.strict = true ∧ Restricted name) ∧ e = ⟨.restrictedName name, span⟩) (checkName s name span) :=
  (Judges.guard (f := pure) (Judges.pure ())).congr fun _ => by simp [Restricted]

theorem checkParams_judges (span : Span) : ∀ (names seen : List String),
    Judges (fun e => s.strict = true ∧
      ((∃ name ∈ names, Restricted name ∧ e = ⟨.restrictedName name, span⟩) ∨
        ∃ name, (name ∈ seen ∧ name ∈ names ∨ names.Duplicate name) ∧ e = ⟨.duplicateParameter name, span⟩))
      (checkParams s span seen names)
  | [], seen => (Judges.pure ()).congr fun e => by simp
  | name :: names, seen => by
    rw [checkParams]
    refine ((checkName_judges name span).bind fun _ =>
      Judges.guard (checkParams_judges span names (name :: seen))).congr fun e => ?_
    simp only [List.mem_cons, List.duplicate_cons_iff]
    grind

theorem Judges.plain {α : Type} {W : CompileError → Prop} {x : CompileM α} {n : Node} (h : n.isPlain = true)
    (hx : Judges W x) (hw : ∀ e, W e ↔ ∃ c ∈ n.children, c.Faulty s.strict e) : Judges (n.Faulty s.strict) x :=
  hx.congr fun e => (Node.faulty_of_isPlain h).trans (hw e).symm

theorem faulty_function (inFunction : Bool) (x : FunctionDecl) (e : CompileError) :
    (Node.stmt inFunction (.function x)).Faulty s.strict e ↔
      (s.strict = true ∧ Restricted (boundName x)) ∧ e = ⟨.restrictedName (boundName x), x.span⟩ ∨
        (Node.decl x).Faulty s.strict e := by
  rw [Node.faulty_iff, Node.wrong_function, boundName]
  cases x.name with
  | none => simp [Node.children, Restricted]
  | some name => simp [Node.children, and_assoc]

theorem exists_item {items : List Stmt} {P : Stmt → Prop} :
    (∃ item ∈ items, P item) ↔
      (∃ x, .function x ∈ items ∧ P (.function x)) ∨ ∃ item ∈ items, (∀ x, item ≠ .function x) ∧ P item := by
  constructor
  · rintro ⟨item, hmem, hp⟩
    by_cases hx : ∃ x, item = .function x
    · obtain ⟨x, rfl⟩ := hx
      exact .inl ⟨x, hmem, hp⟩
    · exact .inr ⟨item, hmem, not_exists.mp hx, hp⟩
  · rintro (⟨x, hmem, hp⟩ | ⟨item, hmem, -, hp⟩)
    · exact ⟨_, hmem, hp⟩
    · exact ⟨item, hmem, hp⟩

theorem body_judges {α : Type} {inFunction : Bool} {items : List Stmt} {x : CompileM Fragment}
    {f : Fragment → CompileM Fragment} {g : Fragment → Fragment → α}
    (hx : Judges (fun e => ∃ x, .function x ∈ items ∧ (Node.stmt inFunction (.function x)).Faulty s.strict e) x)
    (hf : ∀ a, Judges (fun e => ∃ item ∈ items, (∀ x, item ≠ .function x) ∧
      (Node.stmt inFunction item).Faulty s.strict e) (f a)) :
    Judges (fun e => ∃ item ∈ items, (Node.stmt inFunction item).Faulty s.strict e)
      (do let a ← x; let b ← f a; pure (g a b)) :=
  (hx.bind fun a => (hf a).map).congr fun _ => exists_item

mutual

theorem expr_judges : ∀ (x : Expr) (p : Place), Judges ((Node.expr x).Faulty s.strict) (expr s x p)
  | .literal value span, p => by
    rw [expr]
    exact .plain rfl (.pure _) fun e => by simp [Node.children]
  | .name name span, p => by
    rw [expr]
    exact .plain rfl (.pure _) fun e => by simp [Node.children]
  | .this span, p => by
    rw [expr]
    exact .plain rfl (.pure _) fun e => by simp [Node.children]
  | .binary op left right span, p => by
    rw [expr]
    exact .plain rfl ((expr_judges left p).bind fun a => (expr_judges right (p.after a)).map) fun e => by
      simp [Node.children]
  | .logical op left right span, p => by
    rw [expr]
    exact .plain rfl ((expr_judges left p).bind fun a => (expr_judges right (p.after a).next).map) fun e => by
      simp [Node.children]
  | .unary op operand span, p => by
    rw [expr]
    exact .plain rfl (expr_judges operand p).map fun e => by simp [Node.children]
  | .assign target value span, p => by
    match target with
    | .name name place =>
      rw [expr]
      refine ((checkName_judges name place).bind fun _ => (expr_judges value p).map).congr fun e => ?_
      have hname : ¬ (Node.expr (.name name place)).Faulty s.strict e := by
        simp [Node.faulty_of_isPlain (n := .expr (.name name place)) rfl, Node.children]
      rw [Node.faulty_iff, Node.wrong_assign]
      simp [Node.children, Node.names, hname, Expr.Assignable.name, Expr.span, and_assoc]
    | .field object name place =>
      rw [expr]
      refine ((expr_judges object p).bind fun a => (expr_judges value (p.after a)).map).congr fun e => ?_
      have hfield : (Node.expr (.field object name place)).Faulty s.strict e ↔ (Node.expr object).Faulty s.strict e := by
        simp [Node.faulty_of_isPlain (n := .expr (.field object name place)) rfl, Node.children]
      rw [Node.faulty_iff, Node.wrong_assign]
      simp [Node.children, Node.names, hfield, Expr.Assignable.field]
    | .index object index place =>
      rw [expr]
      refine ((expr_judges object p).bind fun a => (expr_judges index (p.after a)).bind fun b =>
        (expr_judges value ((p.after a).after b)).map).congr fun e => ?_
      have hindex : (Node.expr (.index object index place)).Faulty s.strict e ↔
          (Node.expr object).Faulty s.strict e ∨ (Node.expr index).Faulty s.strict e := by
        simp [Node.faulty_of_isPlain (n := .expr (.index object index place)) rfl, Node.children]
      rw [Node.faulty_iff, Node.wrong_assign]
      simp [Node.children, Node.names, hindex, Expr.Assignable.index, or_assoc]
    | .literal .. | .this .. | .binary .. | .logical .. | .unary .. | .assign .. | .call .. | .object ..
    | .group .. | .function .. =>
      rw [expr]
      · exact Node.faulty_iff.mpr (.inl (Node.wrong_assign.mpr (.inl ⟨by rintro ⟨⟩, rfl⟩)))
      all_goals simp
  | .call callee args span, p => by
    have finish (x : Expr) (hx : ∀ e, (Node.expr callee).Faulty s.strict e ↔ (Node.expr x).Faulty s.strict e)
        (hj : Judges ((Node.expr x).Faulty s.strict) (expr s x p)) (q : Fragment → Place)
        (g : Fragment → Fragment → Fragment) :
        Judges ((Node.expr (.call callee args span)).Faulty s.strict)
          (if maxArguments < args.length then throw ⟨.tooManyArguments, span⟩
          else do
            let a ← expr s x p
            let b ← exprs s args (q a)
            pure (g a b)) := by
      refine (Judges.guard (f := pure) (hj.bind fun a => (exprs_judges args (q a)).map)).congr fun e => ?_
      rw [Node.faulty_iff, Node.wrong_call]
      simp [Node.children, maxArguments, hx]
    match callee with
    | .field target name place =>
      rw [expr]
      refine finish target (fun e => ?_) (expr_judges target p) _ _
      simp [Node.faulty_of_isPlain (n := .expr (.field target name place)) rfl, Node.children]
    | .literal .. | .name .. | .this .. | .binary .. | .logical .. | .unary .. | .assign .. | .call .. | .object ..
    | .group .. | .index .. | .function .. =>
      rw [expr]
      exact finish _ (fun _ => .rfl) (expr_judges _ p) _ _
  | .object members span, p => by
    rw [expr]
    exact .plain rfl (entries_judges members p.next).map fun e => by simp [Node.children]
  | .group inner span, p => by
    rw [expr]
    exact .plain rfl (expr_judges inner p) fun e => by simp [Node.children]
  | .index target index span, p => by
    rw [expr]
    exact .plain rfl ((expr_judges target p).bind fun a => (expr_judges index (p.after a)).map) fun e => by
      simp [Node.children]
  | .field target name span, p => by
    rw [expr]
    exact .plain rfl (expr_judges target p).map fun e => by simp [Node.children]
  | .function x, p => by
    rw [expr]
    exact .plain rfl (function_judges x).map fun e => by simp [Node.children]

theorem exprs_judges : ∀ (xs : List Expr) (p : Place),
    Judges (fun e => ∃ x ∈ xs, (Node.expr x).Faulty s.strict e) (exprs s xs p)
  | [], p => (Judges.pure _).congr fun e => by simp
  | x :: xs, p => by
    rw [exprs]
    exact ((expr_judges x p).bind fun a => (exprs_judges xs (p.after a)).map).congr fun e => by simp

theorem entries_judges : ∀ (members : List (String × Expr)) (p : Place),
    Judges (fun e => ∃ member ∈ members, (Node.expr member.2).Faulty s.strict e) (entries s members p)
  | [], p => (Judges.pure _).congr fun e => by simp
  | (name, value) :: rest, p => by
    rw [entries]
    exact ((expr_judges value p).bind fun a => (entries_judges rest (p.after a).next).map).congr fun e => by simp

theorem function_judges : ∀ (x : FunctionDecl), Judges ((Node.decl x).Faulty s.strict) (function s x)
  | ⟨name, params, body, span⟩ => by
    rw [function]
    refine (Judges.guard ((checkParams_judges span params []).bind fun _ =>
      body_judges (hoisted_judges true body .start) fun a => remaining_judges false body _)).congr fun e => ?_
    rw [Node.faulty_iff, Node.wrong_decl]
    simp [Node.children, maxArguments, or_assoc]

theorem hoisted_judges (inFunction : Bool) : ∀ (items : List Stmt) (p : Place),
    Judges (fun e => ∃ x, .function x ∈ items ∧ (Node.stmt inFunction (.function x)).Faulty s.strict e) (hoisted s items p)
  | [], p => (Judges.pure _).congr fun e => by simp
  | item :: rest, p => by
    match item with
    | .function x =>
      rw [hoisted]
      refine ((checkName_judges (boundName x) x.span).bind fun _ => (function_judges x).bind fun u =>
        (hoisted_judges inFunction rest _).map).congr fun e => ?_
      rw [← or_assoc, ← faulty_function inFunction]
      simp [or_and_right, exists_or]
    | .var .. | .expr .. | .block .. | .cond .. | .loop .. | .return .. | .throw .. | .try .. | .empty .. =>
      rw [hoisted]
      · exact (hoisted_judges inFunction rest p).congr fun e => by simp
      · simp

theorem remaining_judges (script : Bool) : ∀ (items : List Stmt) (p : Place),
    Judges (fun e => ∃ item ∈ items, (∀ x, item ≠ .function x) ∧ (Node.stmt (!script) item).Faulty s.strict e)
      (remaining s script items p)
  | [], p => (Judges.pure _).congr fun e => by simp
  | item :: rest, p => by
    match item with
    | .function x =>
      rw [remaining]
      exact (remaining_judges script rest p).congr fun e => by simp
    | .var .. | .expr .. | .block .. | .cond .. | .loop .. | .return .. | .throw .. | .try .. | .empty .. =>
      rw [remaining]
      · exact ((stmt_judges script _ p).bind fun a => (remaining_judges script rest (p.after a)).map).congr fun e => by
          simp
      · simp

theorem stmts_judges (script : Bool) : ∀ (items : List Stmt) (p : Place),
    Judges (fun e => ∃ item ∈ items, (Node.stmt (!script) item).Faulty s.strict e) (stmts s script items p)
  | [], p => (Judges.pure _).congr fun e => by simp
  | item :: rest, p => by
    rw [stmts]
    exact ((stmt_judges script item p).bind fun a => (stmts_judges script rest (p.after a)).map).congr fun e => by simp

theorem bindings_judges (span : Span) : ∀ (bs : List (String × Option Expr)) (p : Place),
    Judges (fun e => (s.strict = true ∧ ∃ b ∈ bs, Restricted b.1 ∧ e = ⟨.restrictedName b.1, span⟩) ∨
      ∃ b ∈ bs, ∃ x ∈ b.2, (Node.expr x).Faulty s.strict e) (bindings s span bs p)
  | [], p => (Judges.pure _).congr fun e => by simp
  | (name, some value) :: rest, p => by
    rw [bindings]
    refine ((checkName_judges name span).bind fun _ => (expr_judges value p).bind fun a =>
      (bindings_judges span rest (p.after a).next).map).congr fun e => ?_
    simp
    grind
  | (name, none) :: rest, p => by
    rw [bindings]
    refine ((checkName_judges name span).bind fun _ => (bindings_judges span rest p.next).map).congr fun e => ?_
    simp
    grind

theorem stmt_judges (script : Bool) : ∀ (x : Stmt) (p : Place),
    Judges ((Node.stmt (!script) x).Faulty s.strict) (stmt s script x p)
  | .var names span, p => by
    rw [stmt]
    refine (bindings_judges span names p).congr fun e => ?_
    rw [Node.faulty_iff, Node.wrong_var]
    simp [Node.children]
  | .function x, p => by
    rw [stmt]
    exact ((checkName_judges (boundName x) x.span).bind fun _ => (function_judges x).map).congr
      (faulty_function (!script) x)
  | .expr value, p => by
    rw [stmt]
    exact .plain rfl (expr_judges value p).map fun e => by simp [Node.children]
  | .block items span, p => by
    rw [stmt]
    exact .plain rfl (stmts_judges script items p) fun e => by simp [Node.children]
  | .cond test yes none span, p => by
    rw [stmt]
    exact .plain rfl ((expr_judges test p).bind fun a => (stmt_judges script yes (p.after a).next).map) fun e => by
      simp [Node.children]
  | .cond test yes (some no) span, p => by
    rw [stmt]
    exact .plain rfl ((expr_judges test p).bind fun a => (stmt_judges script yes (p.after a).next).bind fun b =>
      (stmt_judges script no ((p.after a).next.after b).next).map) fun e => by simp [Node.children]
  | .loop test body span, p => by
    rw [stmt]
    exact .plain rfl ((expr_judges test p).bind fun a => (stmt_judges script body (p.after a).next).map) fun e => by
      simp [Node.children]
  | .return value span, p => by
    rw [stmt]
    cases value with
    | none =>
      refine (Judges.guard (Judges.pure _)).congr fun e => ?_
      rw [Node.faulty_iff, Node.wrong_return]
      simp [Node.children]
    | some value =>
      refine (Judges.guard (expr_judges value p).map).congr fun e => ?_
      rw [Node.faulty_iff, Node.wrong_return]
      simp [Node.children]
  | .throw value span, p => by
    rw [stmt]
    exact .plain rfl (expr_judges value p).map fun e => by simp [Node.children]
  | .try body name handler span, p => by
    rw [stmt]
    refine ((checkName_judges name span).bind fun _ => (stmts_judges script body p.next).bind fun a =>
      (stmts_judges script handler (p.next.after a).next.next).map).congr fun e => ?_
    rw [Node.faulty_iff, Node.wrong_try]
    simp only [Node.children, List.mem_append, List.mem_map, or_and_right, exists_or, and_assoc, exists_exists_and_eq_and]
  | .empty span, p => by
    rw [stmt]
    exact .plain rfl (.pure _) fun e => by simp [Node.children]

end

theorem script_judges (items : List Stmt) :
    Judges (fun e => ∃ item ∈ items, (Node.stmt false item).Faulty s.strict e) (script s items) := by
  rw [script]
  exact body_judges (hoisted_judges false items .start) fun a => remaining_judges true items _

end Compiler

namespace SyntaxTree

open Compiler

variable {tree : SyntaxTree} {strict : Bool}

theorem breaks_of_compile {d : Diagnostic} (h : tree.compile strict = .error d) :
    ∃ n e, tree.Contains n ∧ n.Wrong strict e ∧ d = e.diagnostic.inFile tree.name := by
  have hj := script_judges (s := ⟨tree.name, strict⟩) tree.items
  unfold compile at h
  split at h
  · cases h
  · next e he =>
    rw [he] at hj
    obtain ⟨item, hmem, n, hn, hw⟩ := hj
    cases h
    exact ⟨n, e, ⟨item, hmem, hn⟩, hw, rfl⟩

theorem compile_of_breaks {n : Node} {fault : CompileFault} (hn : tree.Contains n) (hb : n.Breaks strict fault) :
    ∃ d, tree.compile strict = .error d := by
  have hj := script_judges (s := ⟨tree.name, strict⟩) tree.items
  obtain ⟨item, hmem, hn⟩ := hn
  unfold compile
  split
  · next u hu =>
    rw [hu] at hj
    exact (hj ⟨fault, n.place⟩ ⟨item, hmem, n, hn, hb, rfl⟩).elim
  · exact ⟨_, rfl⟩

end SyntaxTree

end ScriptEngine
