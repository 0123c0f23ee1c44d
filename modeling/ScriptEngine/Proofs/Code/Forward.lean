import ScriptEngine.Proofs.Code.WellFormed

namespace ScriptEngine

mutual

def Expr.isLoopFree : Expr → Bool
  | .literal .. | .name .. | .this .. => true
  | .unary _ x _ | .group x _ | .field x _ _ => x.isLoopFree
  | .binary _ x y _ | .logical _ x y _ | .assign x y _ | .index x y _ => x.isLoopFree && y.isLoopFree
  | .call callee args _ => callee.isLoopFree && Expr.allLoopFree args
  | .object members _ => Expr.membersLoopFree members
  | .function decl => decl.isLoopFree

def Expr.allLoopFree : List Expr → Bool
  | [] => true
  | x :: xs => x.isLoopFree && Expr.allLoopFree xs

def Expr.membersLoopFree : List (String × Expr) → Bool
  | [] => true
  | (_, x) :: rest => x.isLoopFree && Expr.membersLoopFree rest

def Stmt.isLoopFree : Stmt → Bool
  | .var names _ => Stmt.bindingsLoopFree names
  | .function decl => decl.isLoopFree
  | .expr x | .throw x _ => x.isLoopFree
  | .block items _ => Stmt.allLoopFree items
  | .cond test yes none _ => test.isLoopFree && yes.isLoopFree
  | .cond test yes (some no) _ => test.isLoopFree && yes.isLoopFree && no.isLoopFree
  | .loop .. => false
  | .return none _ | .empty _ => true
  | .return (some x) _ => x.isLoopFree
  | .try body _ handler _ => Stmt.allLoopFree body && Stmt.allLoopFree handler

def Stmt.bindingsLoopFree : List (String × Option Expr) → Bool
  | [] => true
  | (_, none) :: rest => Stmt.bindingsLoopFree rest
  | (_, some x) :: rest => x.isLoopFree && Stmt.bindingsLoopFree rest

def Stmt.allLoopFree : List Stmt → Bool
  | [] => true
  | x :: xs => x.isLoopFree && Stmt.allLoopFree xs

def FunctionDecl.isLoopFree : FunctionDecl → Bool
  | ⟨_, _, body, _⟩ => Stmt.allLoopFree body

end

def Onward (lo : Nat) (code : List Instr) : Prop :=
  ∀ (i : Nat) (instr : Instr), code[i]? = some instr → ∀ t ∈ instr.targets, lo + i < t

namespace Onward

variable {lo : Nat} {a b : List Instr}

theorem nil : Onward lo [] := by
  intro i instr h
  cases h

theorem one {instr : Instr} (h : ∀ t ∈ instr.targets, lo < t) : Onward lo [instr] := by
  intro i instr' hi
  cases i with
  | zero =>
    obtain rfl := Option.some.inj hi
    exact h
  | succ i => cases hi

theorem append (ha : Onward lo a) (hb : Onward (lo + a.length) b) : Onward lo (a ++ b) := by
  intro i instr hi
  obtain hi | ⟨j, rfl, hj⟩ := Bracketed.getElem?_append_cases hi
  · exact ha i instr hi
  · rw [← Nat.add_assoc]
    exact hb j instr hj

end Onward

structure CodeUnit.Advances (u : CodeUnit) : Prop where
  targets : ∀ (a : Nat) (instr : Instr), u.code[a]? = some instr → ∀ t ∈ instr.targets, a < t
  tries : ∀ (a c x : Nat), u.code[a]? = some (.try c x) → c < x

namespace Compiler

namespace Fragment

def Forward (st : Setting) (p : Place) (f : Fragment) : Prop :=
  Onward p.address f.instrs ∧ ∀ v ∈ f.functions, ∃ decl, decl.isLoopFree = true ∧ function st decl = .ok v

variable {st : Setting} {p : Place} {a b : Fragment}

theorem forward_empty : Forward st p .empty :=
  ⟨.nil, by simp [empty]⟩

theorem forward_one {instr : Instr} {line : Nat} (h : ∀ t ∈ instr.targets, p.address < t) :
    Forward st p (.one instr line) :=
  ⟨.one h, by simp [one]⟩

theorem forward_plain {instr : Instr} {line : Nat} (h : instr.targets = []) : Forward st p (.one instr line) :=
  forward_one (by simp [h])

theorem forward_closure {span : Span} {decl : FunctionDecl} {v : CodeUnit} (hd : decl.isLoopFree = true)
    (hv : function st decl = .ok v) : Forward st p (Compiler.closure p span v) :=
  ⟨.one (by simp [Instr.targets]), by simpa [Compiler.closure] using ⟨decl, hd, hv⟩⟩

theorem Forward.append (ha : a.Forward st p) (hb : b.Forward st (p.after a)) : (a ++ b).Forward st p := by
  refine ⟨?_, ?_⟩
  · rw [instrs_append]
    exact ha.1.append (length_instrs a ▸ hb.1)
  · intro v hv
    rcases List.mem_append.mp hv with hv | hv
    · exact ha.2 v hv
    · exact hb.2 v hv

theorem Forward.snoc {instr : Instr} {line : Nat} (ha : a.Forward st p) (h : instr.targets = []) :
    (a ++ .one instr line).Forward st p :=
  ha.append (forward_plain h)

theorem Forward.jump {instr : Instr} {line : Nat} (ha : a.Forward st p) (b : Fragment)
    (h : instr.targets = [((p.after a).next.after b).address]) : (a ++ .one instr line).Forward st p := by
  refine ha.append (forward_one ?_)
  rw [h]
  simp only [List.mem_singleton, forall_eq, Place.after, Place.next]
  omega

end Fragment

open Fragment

variable {st : Setting} {script : Bool}

mutual

theorem expr_forward : ∀ (x : Expr) {p : Place} {f : Fragment}, x.isLoopFree = true → expr st x p = .ok f →
    f.Forward st p
  | .literal value span, p, f, _, h => by
    simp only [expr, pure_eq_ok] at h
    subst h
    exact forward_plain (by cases value <;> rfl)
  | .name name span, p, f, _, h | .this span, p, f, _, h => by
    simp only [expr, pure_eq_ok] at h
    subst h
    exact forward_plain rfl
  | .binary op left right span, p, f, hl, h => by
    simp only [Expr.isLoopFree, Bool.and_eq_true] at hl
    simp only [expr, bind_eq_ok, pure_eq_ok] at h
    obtain ⟨a, ha, b, hb, rfl⟩ := h
    exact ((expr_forward left hl.1 ha).append (expr_forward right hl.2 hb)).snoc rfl
  | .logical op left right span, p, f, hl, h => by
    simp only [Expr.isLoopFree, Bool.and_eq_true] at hl
    simp only [expr, bind_eq_ok, pure_eq_ok] at h
    obtain ⟨a, ha, b, hb, rfl⟩ := h
    refine ((expr_forward left hl.1 ha).jump b ?_).append ?_
    · cases op <;> rfl
    · rw [Place.after_append, Place.after_one]
      exact expr_forward right hl.2 hb
  | .unary op operand span, p, f, hl, h => by
    rw [Expr.isLoopFree] at hl
    simp only [expr, bind_eq_ok, pure_eq_ok] at h
    obtain ⟨a, ha, rfl⟩ := h
    exact (expr_forward operand hl ha).snoc (by cases op <;> rfl)
  | .assign target value span, p, f, hl, h => by
    match target, hl, h with
    | .name name place, hl, h =>
      simp only [Expr.isLoopFree, Bool.and_eq_true] at hl
      simp only [expr, bind_eq_ok, pure_eq_ok] at h
      obtain ⟨_, _, a, ha, rfl⟩ := h
      exact (expr_forward value hl.2 ha).snoc rfl
    | .field object name _, hl, h =>
      simp only [Expr.isLoopFree, Bool.and_eq_true] at hl
      simp only [expr, bind_eq_ok, pure_eq_ok] at h
      obtain ⟨a, ha, b, hb, rfl⟩ := h
      exact ((expr_forward object hl.1 ha).append (expr_forward value hl.2 hb)).snoc rfl
    | .index object index _, hl, h =>
      simp only [Expr.isLoopFree, Bool.and_eq_true] at hl
      simp only [expr, bind_eq_ok, pure_eq_ok] at h
      obtain ⟨a, ha, b, hb, c, hc, rfl⟩ := h
      rw [← Place.after_append] at hc
      exact (((expr_forward object hl.1.1 ha).append (expr_forward index hl.1.2 hb)).append
        (expr_forward value hl.2 hc)).snoc rfl
    | .literal .., _, h | .this .., _, h | .binary .., _, h | .logical .., _, h | .unary .., _, h
    | .assign .., _, h | .call .., _, h | .object .., _, h | .group .., _, h | .function .., _, h =>
      simp only [expr] at h
      exact absurd h throw_ne_ok
  | .call callee args span, p, f, hl, h => by
    simp only [Expr.isLoopFree, Bool.and_eq_true] at hl
    obtain ⟨hcallee, hargs⟩ := hl
    simp only [expr] at h
    split at h
    · exact absurd h throw_ne_ok
    have finish {a b : Fragment} (ha : a.Forward st p) (hb : exprs st args (p.after a) = .ok b) :
        (a ++ b ++ .one (.call args.length) span.line).Forward st p :=
      (ha.append (exprs_forward args hargs hb)).snoc rfl
    match callee, hcallee, h with
    | .field target name _, hcallee, h =>
      rw [Expr.isLoopFree] at hcallee
      simp only [bind_eq_ok, pure_eq_ok] at h
      obtain ⟨a, ha, _, rfl, b, hb, rfl⟩ := h
      exact finish ((expr_forward target hcallee ha).snoc rfl) hb
    | .literal .., hcallee, h | .name .., hcallee, h | .this .., hcallee, h | .binary .., hcallee, h
    | .logical .., hcallee, h | .unary .., hcallee, h | .assign .., hcallee, h | .call .., hcallee, h
    | .object .., hcallee, h | .group .., hcallee, h | .index .., hcallee, h | .function .., hcallee, h =>
      simp only [bind_eq_ok, pure_eq_ok] at h
      obtain ⟨a, ha, _, rfl, b, hb, rfl⟩ := h
      exact finish ((expr_forward _ hcallee ha).snoc rfl) hb
  | .object members span, p, f, hl, h => by
    rw [Expr.isLoopFree] at hl
    simp only [expr, bind_eq_ok, pure_eq_ok] at h
    obtain ⟨b, hb, rfl⟩ := h
    exact Forward.append (forward_plain rfl) (entries_forward members hl hb)
  | .group inner _, p, f, hl, h => by
    rw [Expr.isLoopFree] at hl
    simp only [expr] at h
    exact expr_forward inner hl h
  | .index target index span, p, f, hl, h => by
    simp only [Expr.isLoopFree, Bool.and_eq_true] at hl
    simp only [expr, bind_eq_ok, pure_eq_ok] at h
    obtain ⟨a, ha, b, hb, rfl⟩ := h
    exact ((expr_forward target hl.1 ha).append (expr_forward index hl.2 hb)).snoc rfl
  | .field target name span, p, f, hl, h => by
    rw [Expr.isLoopFree] at hl
    simp only [expr, bind_eq_ok, pure_eq_ok] at h
    obtain ⟨a, ha, rfl⟩ := h
    exact (expr_forward target hl ha).snoc rfl
  | .function decl, p, f, hl, h => by
    rw [Expr.isLoopFree] at hl
    simp only [expr, bind_eq_ok, pure_eq_ok] at h
    obtain ⟨v, hv, rfl⟩ := h
    exact forward_closure hl hv

theorem exprs_forward : ∀ (xs : List Expr) {p : Place} {f : Fragment}, Expr.allLoopFree xs = true →
    exprs st xs p = .ok f → f.Forward st p
  | [], p, f, _, h => by
    simp only [exprs, pure_eq_ok] at h
    subst h
    exact forward_empty
  | x :: xs, p, f, hl, h => by
    simp only [Expr.allLoopFree, Bool.and_eq_true] at hl
    simp only [exprs, bind_eq_ok, pure_eq_ok] at h
    obtain ⟨a, ha, b, hb, rfl⟩ := h
    exact (expr_forward x hl.1 ha).append (exprs_forward xs hl.2 hb)

theorem entries_forward : ∀ (xs : List (String × Expr)) {p : Place} {f : Fragment},
    Expr.membersLoopFree xs = true → entries st xs p = .ok f → f.Forward st p
  | [], p, f, _, h => by
    simp only [entries, pure_eq_ok] at h
    subst h
    exact forward_empty
  | (name, value) :: rest, p, f, hl, h => by
    simp only [Expr.membersLoopFree, Bool.and_eq_true] at hl
    simp only [entries, bind_eq_ok, pure_eq_ok] at h
    obtain ⟨a, ha, b, hb, rfl⟩ := h
    refine ((expr_forward value hl.1 ha).snoc rfl).append ?_
    rw [Place.after_append, Place.after_one]
    exact entries_forward rest hl.2 hb

end

theorem declaration_forward {p : Place} {decl : FunctionDecl} {v : CodeUnit} (hd : decl.isLoopFree = true)
    (hv : function st decl = .ok v) : (declaration p decl v).Forward st p :=
  (forward_closure hd hv).snoc rfl

theorem bindings_forward {span : Span} : ∀ (xs : List (String × Option Expr)) {p : Place} {f : Fragment},
    Stmt.bindingsLoopFree xs = true → bindings st span xs p = .ok f → f.Forward st p
  | [], p, f, _, h => by
    simp only [bindings, pure_eq_ok] at h
    subst h
    exact forward_empty
  | (name, some value) :: rest, p, f, hl, h => by
    simp only [Stmt.bindingsLoopFree, Bool.and_eq_true] at hl
    simp only [bindings, bind_eq_ok, pure_eq_ok] at h
    obtain ⟨_, _, a, ha, b, hb, rfl⟩ := h
    refine ((expr_forward value hl.1 ha).snoc rfl).append ?_
    rw [Place.after_append, Place.after_one]
    exact bindings_forward rest hl.2 hb
  | (name, none) :: rest, p, f, hl, h => by
    rw [Stmt.bindingsLoopFree] at hl
    simp only [bindings, bind_eq_ok, pure_eq_ok] at h
    obtain ⟨_, _, b, hb, rfl⟩ := h
    exact Forward.append (forward_plain rfl) (bindings_forward rest hl hb)

mutual

theorem stmt_forward : ∀ (x : Stmt) {p : Place} {f : Fragment}, x.isLoopFree = true →
    stmt st script x p = .ok f → f.Forward st p
  | .var names span, p, f, hl, h => by
    rw [Stmt.isLoopFree] at hl
    simp only [stmt] at h
    exact bindings_forward names hl h
  | .function decl, p, f, hl, h => by
    rw [Stmt.isLoopFree] at hl
    simp only [stmt, bind_eq_ok, pure_eq_ok] at h
    obtain ⟨_, _, v, hv, rfl⟩ := h
    exact declaration_forward hl hv
  | .expr value, p, f, hl, h => by
    rw [Stmt.isLoopFree] at hl
    simp only [stmt, bind_eq_ok, pure_eq_ok] at h
    obtain ⟨a, ha, rfl⟩ := h
    exact (expr_forward value hl ha).snoc (by cases script <;> rfl)
  | .block items _, p, f, hl, h => by
    rw [Stmt.isLoopFree] at hl
    simp only [stmt] at h
    exact stmts_forward items hl h
  | .cond test yes none span, p, f, hl, h => by
    simp only [Stmt.isLoopFree, Bool.and_eq_true] at hl
    simp only [stmt, bind_eq_ok, pure_eq_ok] at h
    obtain ⟨a, ha, b, hb, rfl⟩ := h
    refine ((expr_forward test hl.1 ha).jump b rfl).append ?_
    rw [Place.after_append, Place.after_one]
    exact stmt_forward yes hl.2 hb
  | .cond test yes (some no) span, p, f, hl, h => by
    simp only [Stmt.isLoopFree, Bool.and_eq_true] at hl
    simp only [stmt, bind_eq_ok, pure_eq_ok] at h
    obtain ⟨a, ha, b, hb, c, hc, rfl⟩ := h
    have htest : (a ++ .one (.jumpIfFalse ((p.after a).next.after b).next.address) span.line).Forward st p := by
      refine (expr_forward test hl.1.1 ha).append (forward_one ?_)
      simp only [Instr.targets, List.mem_singleton, forall_eq, Place.after, Place.next]
      omega
    have hyes :
        b.Forward st (p.after (a ++ .one (.jumpIfFalse ((p.after a).next.after b).next.address) span.line)) := by
      rw [Place.after_append, Place.after_one]
      exact stmt_forward yes hl.1.2 hb
    refine ((htest.append hyes).jump c ?_).append ?_
    · simp only [Instr.targets, Place.after_append, Place.after_one]
    · simp only [Place.after_append, Place.after_one]
      exact stmt_forward no hl.2 hc
  | .loop .., p, f, hl, _ => by cases hl
  | .return value span, p, f, hl, h => by
    cases value with
    | some value =>
      rw [Stmt.isLoopFree] at hl
      rw [stmt] at h
      split at h
      · exact absurd h throw_ne_ok
      · simp only [bind_eq_ok, pure_eq_ok] at h
        obtain ⟨a, ha, rfl⟩ := h
        exact (expr_forward value hl ha).snoc rfl
    | none =>
      rw [stmt] at h
      split at h
      · exact absurd h throw_ne_ok
      · simp only [bind_eq_ok, pure_eq_ok] at h
        obtain ⟨a, rfl, rfl⟩ := h
        exact (forward_plain rfl).snoc rfl
  | .throw value span, p, f, hl, h => by
    rw [Stmt.isLoopFree] at hl
    simp only [stmt, bind_eq_ok, pure_eq_ok] at h
    obtain ⟨a, ha, rfl⟩ := h
    exact (expr_forward value hl ha).snoc rfl
  | .try body name handler span, p, f, hl, h => by
    simp only [Stmt.isLoopFree, Bool.and_eq_true] at hl
    simp only [stmt, bind_eq_ok, pure_eq_ok] at h
    obtain ⟨_, _, a, ha, b, hb, rfl⟩ := h
    have hopen : Forward st p
        (.one (.try (p.next.after a).next.address ((p.next.after a).next.next.after b).next.address) span.line) := by
      refine forward_one ?_
      simp only [Instr.targets, List.mem_cons, List.not_mem_nil, or_false, forall_eq_or_imp, forall_eq, Place.after,
        Place.next]
      omega
    refine ((((hopen.append ?_).snoc rfl).snoc rfl).append ?_).snoc rfl
    · exact stmts_forward body hl.1 ha
    · simp only [Place.after_append, Place.after_one]
      exact stmts_forward handler hl.2 hb
  | .empty _, p, f, _, h => by
    simp only [stmt, pure_eq_ok] at h
    subst h
    exact forward_empty

theorem stmts_forward : ∀ (xs : List Stmt) {p : Place} {f : Fragment}, Stmt.allLoopFree xs = true →
    stmts st script xs p = .ok f → f.Forward st p
  | [], p, f, _, h => by
    simp only [stmts, pure_eq_ok] at h
    subst h
    exact forward_empty
  | x :: xs, p, f, hl, h => by
    simp only [Stmt.allLoopFree, Bool.and_eq_true] at hl
    simp only [stmts, bind_eq_ok, pure_eq_ok] at h
    obtain ⟨a, ha, b, hb, rfl⟩ := h
    exact (stmt_forward x hl.1 ha).append (stmts_forward xs hl.2 hb)

end

theorem hoisted_forward : ∀ (xs : List Stmt) {p : Place} {f : Fragment}, Stmt.allLoopFree xs = true →
    hoisted st xs p = .ok f → f.Forward st p
  | [], p, f, _, h => by
    simp only [hoisted, pure_eq_ok] at h
    subst h
    exact forward_empty
  | x :: xs, p, f, hl, h => by
    simp only [Stmt.allLoopFree, Bool.and_eq_true] at hl
    cases x with
    | function decl =>
      rw [Stmt.isLoopFree] at hl
      simp only [hoisted, bind_eq_ok, pure_eq_ok] at h
      obtain ⟨_, _, v, hv, b, hb, rfl⟩ := h
      exact (declaration_forward hl.1 hv).append (hoisted_forward xs hl.2 hb)
    | _ =>
      simp only [hoisted] at h
      exact hoisted_forward xs hl.2 h

theorem remaining_forward : ∀ (xs : List Stmt) {p : Place} {f : Fragment}, Stmt.allLoopFree xs = true →
    remaining st script xs p = .ok f → f.Forward st p
  | [], p, f, _, h => by
    simp only [remaining, pure_eq_ok] at h
    subst h
    exact forward_empty
  | x :: xs, p, f, hl, h => by
    simp only [Stmt.allLoopFree, Bool.and_eq_true] at hl
    cases x with
    | function decl =>
      simp only [remaining] at h
      exact remaining_forward xs hl.2 h
    | _ =>
      simp only [remaining, bind_eq_ok, pure_eq_ok] at h
      obtain ⟨a, ha, b, hb, rfl⟩ := h
      exact (stmt_forward _ hl.1 ha).append (remaining_forward xs hl.2 hb)

def UnitForward (st : Setting) (u : CodeUnit) : Prop :=
  u.Advances ∧ ∀ v ∈ u.functions, ∃ decl, decl.isLoopFree = true ∧ function st decl = .ok v

variable {u : CodeUnit}

theorem finish_forward {name : String} {line : Nat} {params names : List String} {f : Fragment}
    (hf : f.Forward st .start) (hw : (finish st name line params script f).WellFormed names) :
    UnitForward st (finish st name line params script f) := by
  have hcode : (finish st name line params script f).code.toList = f.instrs := by simp [finish, instrs]
  refine ⟨⟨fun a instr ha t ht => ?_, fun a c x ha => ?_⟩, hf.2⟩
  · rw [← Array.getElem?_toList, hcode] at ha
    have hlt := hf.1 a instr ha t ht
    rwa [Place.start, Nat.zero_add] at hlt
  · obtain ⟨bound, htry⟩ := hw.tries a c x ha
    have horder := htry.order
    omega

theorem script_forward {items : List Stmt} (hl : Stmt.allLoopFree items = true)
    (h : Compiler.script st items = .ok u) : UnitForward st u := by
  have hwell := (script_wellFormed h).2.1
  simp only [Compiler.script, bind_eq_ok, pure_eq_ok] at h
  obtain ⟨a, ha, b, hb, rfl⟩ := h
  exact finish_forward ((hoisted_forward items hl ha).append (remaining_forward items hl hb)) hwell

theorem function_forward {decl : FunctionDecl} (hl : decl.isLoopFree = true) (h : function st decl = .ok u) :
    UnitForward st u := by
  have hwell := (function_wellFormed h).2.1
  obtain ⟨name, params, body, span⟩ := decl
  rw [FunctionDecl.isLoopFree] at hl
  simp only [Compiler.function] at h
  split at h
  · exact absurd h throw_ne_ok
  · simp only [bind_eq_ok, pure_eq_ok] at h
    obtain ⟨_, _, a, ha, b, hb, rfl⟩ := h
    have hab := (hoisted_forward body hl ha).append (remaining_forward body hl hb)
    have hending (p : Place) : Forward st p (.one .undefined span.line ++ .one .return span.line) :=
      (forward_plain rfl).snoc rfl
    exact finish_forward (hab.append (hending _)) hwell

end Compiler

namespace CodeUnit

mutual

def longest : CodeUnit → Nat
  | ⟨_, _, _, _, code, _, functions, _, _⟩ => max code.size (longestOf functions)

def longestOf : List CodeUnit → Nat
  | [] => 0
  | u :: us => max u.longest (longestOf us)

end

variable {u v : CodeUnit}

theorem size_le_longest (u : CodeUnit) : u.code.size ≤ u.longest := by
  cases u
  rw [longest]
  exact Nat.le_max_left _ _

theorem longest_le_longestOf {us : List CodeUnit} (h : u ∈ us) : u.longest ≤ longestOf us := by
  induction h with
  | head us =>
    rw [longestOf]
    exact Nat.le_max_left _ _
  | tail v _ ih =>
    rw [longestOf]
    exact Nat.le_trans ih (Nat.le_max_right _ _)

namespace Contains

theorem longest_le (h : u.Contains v) : v.longest ≤ u.longest := by
  induction h with
  | self => exact Nat.le_refl _
  | @function v w _ hw ih =>
    refine Nat.le_trans ?_ ih
    cases v
    rw [longest]
    exact Nat.le_trans (longest_le_longestOf hw) (Nat.le_max_right _ _)

theorem size_le (h : u.Contains v) : v.code.size ≤ u.longest :=
  Nat.le_trans v.size_le_longest h.longest_le

theorem advances {tree : SyntaxTree} {strict : Bool} (hv : u.Contains v) (hl : Stmt.allLoopFree tree.items = true)
    (h : tree.compile strict = .ok u) : v.Advances := by
  have hscript : Compiler.script ⟨tree.name, strict⟩ tree.items = .ok u := by
    unfold SyntaxTree.compile at h
    split at h
    · cases h
      assumption
    · cases h
  have hforward : Compiler.UnitForward ⟨tree.name, strict⟩ v := by
    induction hv with
    | self => exact Compiler.script_forward hl hscript
    | function _ hw ih =>
      obtain ⟨decl, hd, hdecl⟩ := ih.2 _ hw
      exact Compiler.function_forward hd hdecl
  exact hforward.1

end Contains

end CodeUnit

end ScriptEngine
