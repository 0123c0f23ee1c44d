import ScriptEngine.Proofs.Code.Compiled

namespace ScriptEngine

def Instr.targets : Instr → List Nat
  | .jump t | .jumpIfFalse t | .jumpIfFalseKeep t | .jumpIfTrueKeep t => [t]
  | .try c x => [c, x]
  | _ => []

def Instr.isBracket : Instr → Bool
  | .try _ _ | .leave | .enterCatch _ | .exitCatch => true
  | _ => false

mutual

def Stmt.clauseNames : Stmt → List String
  | .block items _ => Stmt.allClauseNames items
  | .cond _ yes none _ => yes.clauseNames
  | .cond _ yes (some no) _ => yes.clauseNames ++ no.clauseNames
  | .loop _ body _ => body.clauseNames
  | .try body name handler _ => name :: (Stmt.allClauseNames body ++ Stmt.allClauseNames handler)
  | .var .. | .function .. | .expr .. | .return .. | .throw .. | .empty .. => []

def Stmt.allClauseNames : List Stmt → List String
  | [] => []
  | item :: rest => item.clauseNames ++ Stmt.allClauseNames rest

end

/-- Code for the given address in which the try statements are nested, with the names that their clauses
bind. -/
inductive Bracketed : Nat → List Instr → List String → Prop
  | nil {lo : Nat} : Bracketed lo [] []
  | cons {lo : Nat} {instr : Instr} {rest : List Instr} {names : List String} :
      instr.isBracket = false → Bracketed (lo + 1) rest names → Bracketed lo (instr :: rest) names
  | clause {lo c x : Nat} {body handler rest : List Instr} (name : String) {bs hs rs : List String} :
      Bracketed (lo + 1) body bs → Bracketed (c + 1) handler hs → Bracketed x rest rs →
      c = lo + body.length + 2 → x = c + handler.length + 2 →
      Bracketed lo (.try c x :: (body ++ .leave :: .enterCatch name :: (handler ++ .exitCatch :: rest)))
        (name :: (bs ++ (hs ++ rs)))

namespace Bracketed

variable {lo : Nat} {code a b : List Instr} {names ns ms : List String}

theorem append (ha : Bracketed lo a ns) (hb : Bracketed (lo + a.length) b ms) : Bracketed lo (a ++ b) (ns ++ ms) := by
  induction ha with
  | nil => exact hb
  | cons hi _ ih =>
    refine .cons hi (ih ?_)
    rwa [List.length_cons, Nat.add_comm _ 1, ← Nat.add_assoc] at hb
  | @clause lo c x body handler rest name bs hs rs hbody hhandler _ hc hx _ _ ih =>
    have hend : lo + (Instr.try c x :: (body ++ .leave :: .enterCatch name :: (handler ++ .exitCatch :: rest))).length
        = x + rest.length := by
      simp only [List.length_cons, List.length_append]
      omega
    simp only [List.cons_append, List.append_assoc]
    exact .clause name hbody hhandler (ih (hend ▸ hb)) hc hx

def Encloses (lo : Nat) (code : List Instr) (i c x : Nat) : Prop :=
  ∃ before body name handler after bs hs,
    code = before ++ (.try c x :: (body ++ .leave :: .enterCatch name :: (handler ++ .exitCatch :: after))) ∧
    before.length = i ∧ c = lo + i + body.length + 2 ∧ x = c + handler.length + 2 ∧
    Bracketed (lo + i + 1) body bs ∧ Bracketed (c + 1) handler hs

theorem Encloses.widen {lo' i c x : Nat} (h : Encloses lo' code i c x) (lo : Nat) (a b : List Instr)
    (hlo : lo' = lo + a.length) : Encloses lo (a ++ (code ++ b)) (a.length + i) c x := by
  obtain ⟨before, body, name, handler, after, bs, hs, rfl, rfl, hc, hx, hbody, hhandler⟩ := h
  subst hlo
  refine ⟨a ++ before, body, name, handler, after ++ b, bs, hs, by simp, by simp, by omega, hx, ?_, hhandler⟩
  rwa [← Nat.add_assoc lo]

theorem getElem?_append_cases {i : Nat} {instr : Instr} (h : (a ++ b)[i]? = some instr) :
    a[i]? = some instr ∨ ∃ j, i = a.length + j ∧ b[j]? = some instr := by
  rcases Nat.lt_or_ge i a.length with hlt | hge
  · exact .inl (List.getElem?_append_left hlt ▸ h)
  · exact .inr ⟨i - a.length, by omega, List.getElem?_append_right hge ▸ h⟩

theorem encloses {i c x : Nat} (h : Bracketed lo code names) (hi : code[i]? = some (.try c x)) :
    Encloses lo code i c x := by
  induction h generalizing i with
  | nil => cases hi
  | @cons lo instr rest names hplain _ ih =>
    cases i with
    | zero =>
      obtain rfl := Option.some.inj hi
      cases hplain
    | succ i =>
      have hx := (ih hi).widen lo [instr] [] rfl
      simpa [Nat.add_comm] using hx
  | @clause lo c' x' body handler rest name bs hs rs hbody hhandler hrest hc hx ihb ihh ihr =>
    cases i with
    | zero =>
      obtain ⟨rfl, rfl⟩ : c' = c ∧ x' = x := by simpa using hi
      exact ⟨[], body, name, handler, rest, bs, hs, rfl, rfl, hc, hx, hbody, hhandler⟩
    | succ i =>
      rw [List.getElem?_cons_succ] at hi
      obtain hj | ⟨j, rfl, hj⟩ := getElem?_append_cases hi
      · have hb := (ihb hj).widen lo [.try c' x'] (.leave :: .enterCatch name :: (handler ++ .exitCatch :: rest)) rfl
        simpa [Nat.add_comm] using hb
      match j with
      | 0 | 1 => cases hj
      | j + 2 =>
      obtain hk | ⟨k, rfl, hk⟩ := getElem?_append_cases (a := handler) (b := .exitCatch :: rest) hj
      · have hh := (ihh hk).widen lo (.try c' x' :: (body ++ [.leave, .enterCatch name])) (.exitCatch :: rest)
          (by simp; omega)
        simpa [Nat.add_comm, Nat.add_left_comm, Nat.add_assoc] using hh
      match k with
      | 0 => cases hk
      | k + 1 =>
      have hr := (ihr hk).widen lo
        (.try c' x' :: (body ++ .leave :: .enterCatch name :: (handler ++ [.exitCatch]))) [] (by simp; omega)
      simpa [Nat.add_comm, Nat.add_left_comm, Nat.add_assoc] using hr

end Bracketed

namespace Compiler

namespace Fragment

def Nested (st : Setting) (p : Place) (f : Fragment) (names : List String) : Prop :=
  Bracketed p.address f.instrs names ∧ ∀ v ∈ f.functions, ∃ decl, function st decl = .ok v

variable {st : Setting} {p : Place} {a b : Fragment} {ns ms : List String}

theorem instrs_one (instr : Instr) (line : Nat) : (one instr line).instrs = [instr] := rfl

theorem nested_empty : Nested st p .empty [] :=
  ⟨.nil, by simp [empty]⟩

theorem nested_one {instr : Instr} {line : Nat} (h : instr.isBracket = false) : Nested st p (.one instr line) [] :=
  ⟨.cons h .nil, by simp [one]⟩

theorem nested_closure {span : Span} {decl : FunctionDecl} {v : CodeUnit} (hv : function st decl = .ok v) :
    Nested st p (Compiler.closure p span v) [] :=
  ⟨.cons rfl .nil, by simpa [Compiler.closure] using ⟨decl, hv⟩⟩

theorem Nested.append (ha : a.Nested st p ns) (hb : b.Nested st (p.after a) ms) : (a ++ b).Nested st p (ns ++ ms) := by
  refine ⟨?_, ?_⟩
  · rw [instrs_append]
    exact ha.1.append (length_instrs a ▸ hb.1)
  · intro v hv
    rcases List.mem_append.mp hv with hv | hv
    · exact ha.2 v hv
    · exact hb.2 v hv

theorem Nested.snoc {instr : Instr} {line : Nat} (ha : a.Nested st p ns) (h : instr.isBracket = false) :
    (a ++ .one instr line).Nested st p ns :=
  List.append_nil ns ▸ ha.append (nested_one h)

theorem Nested.clause {q x : Place} {name : String} {line : Nat} (ha : a.Nested st p.next ns)
    (hq : q = (p.next.after a).next) (hb : b.Nested st q.next ms) (hx : x = (q.next.after b).next) :
    Nested st p (.one (.try q.address x.address) line ++ a ++ .one .leave line ++ .one (.enterCatch name) line ++ b
      ++ .one .exitCatch line) (name :: (ns ++ ms)) := by
  subst hq hx
  refine ⟨?_, ?_⟩
  · have hc : (p.next.after a).next.address = p.address + a.instrs.length + 2 := by
      simp only [Place.next, Place.after, length_instrs]
      omega
    have hx : ((p.next.after a).next.next.after b).next.address
        = (p.next.after a).next.address + b.instrs.length + 2 := by
      simp only [Place.next, Place.after, length_instrs]
      omega
    have hall := Bracketed.clause name ha.1 hb.1 .nil hc hx
    rw [List.append_nil] at hall
    simpa [instrs_append, instrs_one] using hall
  · intro v hv
    have hv : v ∈ a.functions ++ b.functions := by simpa [functions_append, one] using hv
    rcases List.mem_append.mp hv with hv | hv
    · exact ha.2 v hv
    · exact hb.2 v hv

end Fragment

open Fragment

variable {st : Setting} {script : Bool}

mutual

theorem expr_nested : ∀ (x : Expr) {p : Place} {f : Fragment}, expr st x p = .ok f → f.Nested st p []
  | .literal value span, p, f, h => by
    simp only [expr, pure_eq_ok] at h
    subst h
    exact nested_one (by cases value <;> rfl)
  | .name name span, p, f, h | .this span, p, f, h => by
    simp only [expr, pure_eq_ok] at h
    subst h
    exact nested_one rfl
  | .binary op left right span, p, f, h => by
    simp only [expr, bind_eq_ok, pure_eq_ok] at h
    obtain ⟨a, ha, b, hb, rfl⟩ := h
    exact ((expr_nested left ha).append (expr_nested right hb)).snoc rfl
  | .logical op left right span, p, f, h => by
    simp only [expr, bind_eq_ok, pure_eq_ok] at h
    obtain ⟨a, ha, b, hb, rfl⟩ := h
    refine ((expr_nested left ha).snoc ?_).append ?_
    · cases op <;> rfl
    · rw [Place.after_append, Place.after_one]
      exact expr_nested right hb
  | .unary op operand span, p, f, h => by
    simp only [expr, bind_eq_ok, pure_eq_ok] at h
    obtain ⟨a, ha, rfl⟩ := h
    exact (expr_nested operand ha).snoc (by cases op <;> rfl)
  | .assign target value span, p, f, h => by
    match target, h with
    | .name name place, h =>
      simp only [expr, bind_eq_ok, pure_eq_ok] at h
      obtain ⟨_, _, a, ha, rfl⟩ := h
      exact (expr_nested value ha).snoc rfl
    | .field object name _, h =>
      simp only [expr, bind_eq_ok, pure_eq_ok] at h
      obtain ⟨a, ha, b, hb, rfl⟩ := h
      exact ((expr_nested object ha).append (expr_nested value hb)).snoc rfl
    | .index object index _, h =>
      simp only [expr, bind_eq_ok, pure_eq_ok] at h
      obtain ⟨a, ha, b, hb, c, hc, rfl⟩ := h
      rw [← Place.after_append] at hc
      exact (((expr_nested object ha).append (expr_nested index hb)).append (expr_nested value hc)).snoc rfl
    | .literal .., h | .this .., h | .binary .., h | .logical .., h | .unary .., h
    | .assign .., h | .call .., h | .object .., h | .group .., h | .function .., h =>
      simp only [expr] at h
      exact absurd h throw_ne_ok
  | .call callee args span, p, f, h => by
    simp only [expr] at h
    split at h
    · exact absurd h throw_ne_ok
    have finish {a b : Fragment} (ha : a.Nested st p []) (hb : exprs st args (p.after a) = .ok b) :
        (a ++ b ++ .one (.call args.length) span.line).Nested st p [] :=
      (ha.append (exprs_nested args hb)).snoc rfl
    match callee, h with
    | .field target name _, h =>
      simp only [bind_eq_ok, pure_eq_ok] at h
      obtain ⟨a, ha, _, rfl, b, hb, rfl⟩ := h
      exact finish ((expr_nested target ha).snoc rfl) hb
    | .literal .., h | .name .., h | .this .., h | .binary .., h | .logical .., h | .unary .., h
    | .assign .., h | .call .., h | .object .., h | .group .., h | .index .., h | .function .., h =>
      simp only [bind_eq_ok, pure_eq_ok] at h
      obtain ⟨a, ha, _, rfl, b, hb, rfl⟩ := h
      exact finish ((expr_nested _ ha).snoc rfl) hb
  | .object members span, p, f, h => by
    simp only [expr, bind_eq_ok, pure_eq_ok] at h
    obtain ⟨b, hb, rfl⟩ := h
    exact Nested.append (nested_one rfl) (entries_nested members hb)
  | .group inner _, p, f, h => by
    simp only [expr] at h
    exact expr_nested inner h
  | .index target index span, p, f, h => by
    simp only [expr, bind_eq_ok, pure_eq_ok] at h
    obtain ⟨a, ha, b, hb, rfl⟩ := h
    exact ((expr_nested target ha).append (expr_nested index hb)).snoc rfl
  | .field target name span, p, f, h => by
    simp only [expr, bind_eq_ok, pure_eq_ok] at h
    obtain ⟨a, ha, rfl⟩ := h
    exact (expr_nested target ha).snoc rfl
  | .function decl, p, f, h => by
    simp only [expr, bind_eq_ok, pure_eq_ok] at h
    obtain ⟨v, hv, rfl⟩ := h
    exact nested_closure hv

theorem exprs_nested : ∀ (xs : List Expr) {p : Place} {f : Fragment}, exprs st xs p = .ok f → f.Nested st p []
  | [], p, f, h => by
    simp only [exprs, pure_eq_ok] at h
    subst h
    exact nested_empty
  | x :: xs, p, f, h => by
    simp only [exprs, bind_eq_ok, pure_eq_ok] at h
    obtain ⟨a, ha, b, hb, rfl⟩ := h
    exact (expr_nested x ha).append (exprs_nested xs hb)

theorem entries_nested : ∀ (xs : List (String × Expr)) {p : Place} {f : Fragment},
    entries st xs p = .ok f → f.Nested st p []
  | [], p, f, h => by
    simp only [entries, pure_eq_ok] at h
    subst h
    exact nested_empty
  | (name, value) :: rest, p, f, h => by
    simp only [entries, bind_eq_ok, pure_eq_ok] at h
    obtain ⟨a, ha, b, hb, rfl⟩ := h
    refine ((expr_nested value ha).snoc rfl).append ?_
    rw [Place.after_append, Place.after_one]
    exact entries_nested rest hb

end

theorem declaration_nested {p : Place} {decl : FunctionDecl} {v : CodeUnit} (hv : function st decl = .ok v) :
    (declaration p decl v).Nested st p [] :=
  (nested_closure hv).snoc rfl

theorem bindings_nested {span : Span} : ∀ (xs : List (String × Option Expr)) {p : Place} {f : Fragment},
    bindings st span xs p = .ok f → f.Nested st p []
  | [], p, f, h => by
    simp only [bindings, pure_eq_ok] at h
    subst h
    exact nested_empty
  | (name, some value) :: rest, p, f, h => by
    simp only [bindings, bind_eq_ok, pure_eq_ok] at h
    obtain ⟨_, _, a, ha, b, hb, rfl⟩ := h
    refine ((expr_nested value ha).snoc rfl).append ?_
    rw [Place.after_append, Place.after_one]
    exact bindings_nested rest hb
  | (name, none) :: rest, p, f, h => by
    simp only [bindings, bind_eq_ok, pure_eq_ok] at h
    obtain ⟨_, _, b, hb, rfl⟩ := h
    exact Nested.append (nested_one rfl) (bindings_nested rest hb)

mutual

theorem stmt_nested : ∀ (x : Stmt) {p : Place} {f : Fragment},
    stmt st script x p = .ok f → f.Nested st p x.clauseNames
  | .var names span, p, f, h => by
    simp only [stmt] at h
    rw [Stmt.clauseNames]
    exact bindings_nested names h
  | .function decl, p, f, h => by
    simp only [stmt, bind_eq_ok, pure_eq_ok] at h
    obtain ⟨_, _, v, hv, rfl⟩ := h
    rw [Stmt.clauseNames]
    exact declaration_nested hv
  | .expr value, p, f, h => by
    simp only [stmt, bind_eq_ok, pure_eq_ok] at h
    obtain ⟨a, ha, rfl⟩ := h
    rw [Stmt.clauseNames]
    exact (expr_nested value ha).snoc (by cases script <;> rfl)
  | .block items _, p, f, h => by
    simp only [stmt] at h
    rw [Stmt.clauseNames]
    exact stmts_nested items h
  | .cond test yes none span, p, f, h => by
    simp only [stmt, bind_eq_ok, pure_eq_ok] at h
    obtain ⟨a, ha, b, hb, rfl⟩ := h
    rw [Stmt.clauseNames]
    refine ((expr_nested test ha).snoc rfl).append ?_
    rw [Place.after_append, Place.after_one]
    exact stmt_nested yes hb
  | .cond test yes (some no) span, p, f, h => by
    simp only [stmt, bind_eq_ok, pure_eq_ok] at h
    obtain ⟨a, ha, b, hb, c, hc, rfl⟩ := h
    rw [Stmt.clauseNames]
    refine ((((expr_nested test ha).snoc rfl).append ?_).snoc rfl).append ?_
    · rw [Place.after_append, Place.after_one]
      exact stmt_nested yes hb
    · simp only [Place.after_append, Place.after_one]
      exact stmt_nested no hc
  | .loop test body span, p, f, h => by
    simp only [stmt, bind_eq_ok, pure_eq_ok] at h
    obtain ⟨a, ha, b, hb, rfl⟩ := h
    rw [Stmt.clauseNames]
    refine (((expr_nested test ha).snoc rfl).append ?_).snoc rfl
    rw [Place.after_append, Place.after_one]
    exact stmt_nested body hb
  | .return value span, p, f, h => by
    rw [Stmt.clauseNames]
    cases value with
    | some value =>
      rw [stmt] at h
      split at h
      · exact absurd h throw_ne_ok
      · simp only [bind_eq_ok, pure_eq_ok] at h
        obtain ⟨a, ha, rfl⟩ := h
        exact (expr_nested value ha).snoc rfl
    | none =>
      rw [stmt] at h
      split at h
      · exact absurd h throw_ne_ok
      · simp only [bind_eq_ok, pure_eq_ok] at h
        obtain ⟨a, rfl, rfl⟩ := h
        exact (nested_one rfl).snoc rfl
  | .throw value span, p, f, h => by
    simp only [stmt, bind_eq_ok, pure_eq_ok] at h
    obtain ⟨a, ha, rfl⟩ := h
    rw [Stmt.clauseNames]
    exact (expr_nested value ha).snoc rfl
  | .try body name handler span, p, f, h => by
    simp only [stmt, bind_eq_ok, pure_eq_ok] at h
    obtain ⟨_, _, a, ha, b, hb, rfl⟩ := h
    rw [Stmt.clauseNames]
    exact (stmts_nested body ha).clause rfl (stmts_nested handler hb) rfl
  | .empty _, p, f, h => by
    simp only [stmt, pure_eq_ok] at h
    subst h
    rw [Stmt.clauseNames]
    exact nested_empty

theorem stmts_nested : ∀ (xs : List Stmt) {p : Place} {f : Fragment},
    stmts st script xs p = .ok f → f.Nested st p (Stmt.allClauseNames xs)
  | [], p, f, h => by
    simp only [stmts, pure_eq_ok] at h
    subst h
    rw [Stmt.allClauseNames]
    exact nested_empty
  | x :: xs, p, f, h => by
    simp only [stmts, bind_eq_ok, pure_eq_ok] at h
    obtain ⟨a, ha, b, hb, rfl⟩ := h
    rw [Stmt.allClauseNames]
    exact (stmt_nested x ha).append (stmts_nested xs hb)

end

theorem hoisted_nested : ∀ (xs : List Stmt) {p : Place} {f : Fragment}, hoisted st xs p = .ok f → f.Nested st p []
  | [], p, f, h => by
    simp only [hoisted, pure_eq_ok] at h
    subst h
    exact nested_empty
  | x :: xs, p, f, h => by
    cases x with
    | function decl =>
      simp only [hoisted, bind_eq_ok, pure_eq_ok] at h
      obtain ⟨_, _, v, hv, b, hb, rfl⟩ := h
      exact (declaration_nested hv).append (hoisted_nested xs hb)
    | _ =>
      simp only [hoisted] at h
      exact hoisted_nested xs h

theorem remaining_nested : ∀ (xs : List Stmt) {p : Place} {f : Fragment},
    remaining st script xs p = .ok f → f.Nested st p (Stmt.allClauseNames xs)
  | [], p, f, h => by
    simp only [remaining, pure_eq_ok] at h
    subst h
    rw [Stmt.allClauseNames]
    exact nested_empty
  | x :: xs, p, f, h => by
    rw [Stmt.allClauseNames]
    cases x with
    | function decl =>
      simp only [remaining] at h
      rw [Stmt.clauseNames]
      exact remaining_nested xs h
    | _ =>
      simp only [remaining, bind_eq_ok, pure_eq_ok] at h
      obtain ⟨a, ha, b, hb, rfl⟩ := h
      exact (stmt_nested _ ha).append (remaining_nested xs hb)

end Compiler

namespace CodeUnit

inductive Contains (u : CodeUnit) : CodeUnit → Prop
  | self : Contains u u
  | function {v w : CodeUnit} : Contains u v → w ∈ v.functions → Contains u w

/-- The code of a try statement stands at address `a`. The body ends with the statement's own instruction to leave
it, just before the catch clause, and the clause with its own instruction to leave its scope, just before `x`. -/
structure TryAt (u : CodeUnit) (a c x : Nat) (name : String) : Prop where
  order : a + 1 < c ∧ c + 1 < x ∧ x ≤ u.code.size
  leave : u.code[c - 1]? = some .leave
  enter : u.code[c]? = some (.enterCatch name)
  exit : u.code[x - 1]? = some .exitCatch
  body : ∃ names, Bracketed (a + 1) (u.code.toList.extract (a + 1) (c - 1)) names
  handler : ∃ names, Bracketed (c + 1) (u.code.toList.extract (c + 1) (x - 1)) names

/-- A unit that the machine can run without looking at its code first; `names` are the names that its catch clauses
bind. -/
structure WellFormed (u : CodeUnit) (names : List String) : Prop where
  lines : u.lines.size = u.code.size
  closures : ∀ (a i : Nat), u.code[a]? = some (.closure i) → i < u.functions.length
  targets : ∀ (a : Nat) (instr : Instr), u.code[a]? = some instr → ∀ t ∈ instr.targets, t ≤ u.code.size
  tries : ∀ (a c x : Nat), u.code[a]? = some (.try c x) → ∃ name, u.TryAt a c x name
  nested : Bracketed 0 u.code.toList names
  shaped : ∃ σ, u.Shaped σ ∧ ∀ (a : Nat) (instr : Instr), u.code[a]? = some instr → instr.operands ≤ (σ a).height
  ending : u.isScript = false → ∃ body, u.code.toList = body ++ [.undefined, .return]
  completion : u.isScript = false → .setCompletion ∉ u.code.toList
  returns : u.isScript = true → .return ∉ u.code.toList

variable {u v : CodeUnit} {σ : Nat → Shape} {names : List String}

theorem getElem?_of_split {a : List Instr} {instr : Instr} {b : List Instr} {i : Nat}
    (h : u.code.toList = a ++ instr :: b) (hi : i = a.length) : u.code[i]? = some instr := by
  rw [← Array.getElem?_toList, h, hi]
  simp

theorem extract_of_split {a m b : List Instr} {i j : Nat} (h : u.code.toList = a ++ (m ++ b)) (hi : i = a.length)
    (hj : j = a.length + m.length) : u.code.toList.extract i j = m := by
  rw [h, hi, hj]
  simp

theorem tryAt_of_encloses {a c x : Nat} (h : Bracketed.Encloses 0 u.code.toList a c x) :
    ∃ name, u.TryAt a c x name := by
  obtain ⟨before, body, name, handler, after, bs, hs, hcode, rfl, hc, hx, hbody, hhandler⟩ := h
  rw [Nat.zero_add] at hbody hc
  have htobody : u.code.toList = (before ++ [.try c x]) ++
      (body ++ .leave :: .enterCatch name :: (handler ++ .exitCatch :: after)) := by simp [hcode]
  have htoleave : u.code.toList = (before ++ .try c x :: body) ++
      .leave :: .enterCatch name :: (handler ++ .exitCatch :: after) := by simp [hcode]
  have htoclause : u.code.toList = (before ++ .try c x :: (body ++ [.leave])) ++
      .enterCatch name :: (handler ++ .exitCatch :: after) := by simp [hcode]
  have htohandler : u.code.toList = (before ++ .try c x :: (body ++ [.leave, .enterCatch name])) ++
      (handler ++ .exitCatch :: after) := by simp [hcode]
  have htoexit : u.code.toList = (before ++ .try c x :: (body ++ .leave :: .enterCatch name :: handler)) ++
      .exitCatch :: after := by simp [hcode]
  have hsize : x ≤ u.code.size := by
    rw [← Array.length_toList, htoexit]
    simp only [List.length_append, List.length_cons]
    omega
  refine ⟨name, ⟨by omega, by omega, hsize⟩, getElem?_of_split htoleave ?_, getElem?_of_split htoclause ?_,
    getElem?_of_split htoexit ?_, ⟨bs, ?_⟩, ⟨hs, ?_⟩⟩
  · simp only [List.length_append, List.length_cons]
    omega
  · simp only [List.length_append, List.length_cons, List.length_nil]
    omega
  · simp only [List.length_append, List.length_cons]
    omega
  · rwa [extract_of_split htobody (by simp) (by simp; omega)]
  · rwa [extract_of_split htohandler (by simp; omega) (by simp; omega)]

theorem Shaped.closure_lt (h : u.Shaped σ) {a i : Nat} (ha : u.code[a]? = some (.closure i)) : i < u.functions.length :=
  (h.flows a _ ha).1

theorem Shaped.not_setCompletion (h : u.Shaped σ) (hu : u.isScript = false) : .setCompletion ∉ u.code.toList := by
  intro hmem
  obtain ⟨a, ha⟩ := List.getElem?_of_mem hmem
  have hflow := h.flows a .setCompletion (by simpa using ha)
  simp [Instr.Flows, hu] at hflow

theorem Shaped.not_return (h : u.Shaped σ) (hu : u.isScript = true) : .return ∉ u.code.toList := by
  intro hmem
  obtain ⟨a, ha⟩ := List.getElem?_of_mem hmem
  have hflow := h.flows a .return (by simpa using ha)
  simp [Instr.Flows, hu] at hflow

theorem Shaped.target_le (h : u.Shaped σ)
    (htry : ∀ (a c x : Nat), u.code[a]? = some (.try c x) → ∃ name, u.TryAt a c x name) {a t : Nat} {instr : Instr}
    (ha : u.code[a]? = some instr) (ht : t ∈ instr.targets) : t ≤ u.code.size := by
  have hflow := h.flows a instr ha
  cases instr with
  | «try» c x =>
    obtain ⟨name, hat⟩ := htry a c x ha
    have horder := hat.order
    simp only [Instr.targets, List.mem_cons, List.not_mem_nil, or_false] at ht
    omega
  | jump t' =>
    obtain rfl := List.mem_singleton.mp ht
    exact hflow.1
  | jumpIfFalse t' | jumpIfFalseKeep t' | jumpIfTrueKeep t' =>
    obtain rfl := List.mem_singleton.mp ht
    exact hflow.2.1.1
  | _ => cases ht

end CodeUnit

namespace Compiler

open Fragment

variable {st : Setting} {u : CodeUnit}

theorem finish_wellFormed {name : String} {line : Nat} {params names : List String} {script : Bool} {f : Fragment}
    (hu : (finish st name line params script f).Compiled) (hf : f.Nested st .start names)
    (hending : script = false → ∃ body, f.instrs = body ++ [.undefined, .return]) :
    (finish st name line params script f).WellFormed names := by
  have hcode : (finish st name line params script f).code.toList = f.instrs := by simp [finish, instrs]
  obtain ⟨σ, hσ⟩ := hu.shaped
  have hnested : Bracketed 0 (finish st name line params script f).code.toList names := by
    rw [hcode]
    exact hf.1
  have htries (a c x : Nat) (ha : (finish st name line params script f).code[a]? = some (.try c x)) :
      ∃ bound, (finish st name line params script f).TryAt a c x bound :=
    CodeUnit.tryAt_of_encloses (hnested.encloses (by simpa using ha))
  refine ⟨by simp [finish], fun _ _ => hσ.closure_lt, fun _ _ ha _ => hσ.target_le htries ha, htries, hnested,
    ⟨σ, hσ, fun a instr ha => (hσ.flows a instr ha).operands_le⟩, ?_, hσ.not_setCompletion, hσ.not_return⟩
  rw [hcode]
  exact hending

theorem script_wellFormed {items : List Stmt} (h : Compiler.script st items = .ok u) :
    u.isScript = true ∧ u.WellFormed (Stmt.allClauseNames items) ∧
      ∀ w ∈ u.functions, ∃ decl, function st decl = .ok w := by
  have hu := CodeUnit.Compiled.script h
  simp only [Compiler.script, bind_eq_ok, pure_eq_ok] at h
  obtain ⟨a, ha, b, hb, rfl⟩ := h
  have hab := (hoisted_nested items ha).append (remaining_nested items hb)
  exact ⟨rfl, finish_wellFormed hu hab (by simp), hab.2⟩

theorem function_wellFormed {decl : FunctionDecl} (h : function st decl = .ok u) :
    u.isScript = false ∧ u.WellFormed (Stmt.allClauseNames decl.body) ∧
      ∀ w ∈ u.functions, ∃ decl, function st decl = .ok w := by
  have hu := CodeUnit.Compiled.function h
  obtain ⟨name, params, body, span⟩ := decl
  simp only [Compiler.function] at h
  split at h
  · exact absurd h throw_ne_ok
  · simp only [bind_eq_ok, pure_eq_ok] at h
    obtain ⟨_, _, a, ha, b, hb, rfl⟩ := h
    have hab := (hoisted_nested body ha).append (remaining_nested body hb)
    have hending (p : Place) : Nested st p (.one .undefined span.line ++ .one .return span.line) [] :=
      (nested_one rfl).snoc rfl
    have hall := hab.append (hending _)
    rw [List.append_nil] at hall
    exact ⟨rfl, finish_wellFormed hu hall fun _ => ⟨_, instrs_append ..⟩, hall.2⟩

end Compiler

/-- The unit of a script and all functions inside it are well formed, and each of these functions comes from a
declaration in the script's setting. -/
theorem compiled_units_well_formed {tree : SyntaxTree} {strict : Bool} {u v : CodeUnit}
    (h : tree.compile strict = .ok u) (hv : u.Contains v) :
    (v = u ∧ v.isScript = true ∧ v.WellFormed (Stmt.allClauseNames tree.items)) ∨
      ∃ decl, Compiler.function ⟨tree.name, strict⟩ decl = .ok v ∧ v.isScript = false ∧
        v.WellFormed (Stmt.allClauseNames decl.body) := by
  have hscript : Compiler.script ⟨tree.name, strict⟩ tree.items = .ok u := by
    unfold SyntaxTree.compile at h
    split at h
    · cases h
      assumption
    · cases h
  cases hv with
  | self =>
    obtain ⟨hkind, hwell, _⟩ := Compiler.script_wellFormed hscript
    exact .inl ⟨rfl, hkind, hwell⟩
  | @function outer _ hv hw =>
    -- a function inside a unit of the setting is itself one of the setting, by induction on the way to it
    have hfrom : ∀ w ∈ outer.functions, ∃ decl, Compiler.function ⟨tree.name, strict⟩ decl = .ok w := by
      clear hw
      induction hv with
      | self => exact (Compiler.script_wellFormed hscript).2.2
      | function _ hw ih =>
        obtain ⟨decl, hdecl⟩ := ih _ hw
        exact (Compiler.function_wellFormed hdecl).2.2
    obtain ⟨decl, hdecl⟩ := hfrom v hw
    obtain ⟨hkind, hwell, _⟩ := Compiler.function_wellFormed hdecl
    exact .inr ⟨decl, hdecl, hkind, hwell⟩

def relay (place : Span) : FunctionDecl :=
  ⟨some "relay", ["job"],
    [.try [.try [.expr (.call (.name "job" place) [] place)] "inner" [.empty place] place] "outer"
      [.throw (.name "outer" place) place] place], place⟩

theorem compiled_units_well_formed_of_relay :
    ∃ u v, SyntaxTree.compile ⟨"relay", [.function (relay ⟨0, 0, 1⟩)]⟩ true = .ok u ∧ u.Contains v ∧
      v.code[0]? = some (.try 10 14) ∧ v.code[1]? = some (.try 7 9) ∧ ∃ names, v.WellFormed names := by
  have hu : ∃ u, SyntaxTree.compile ⟨"relay", [.function (relay ⟨0, 0, 1⟩)]⟩ true = .ok u ∧
      ∃ v ∈ u.functions, v.code[0]? = some (.try 10 14) ∧ v.code[1]? = some (.try 7 9) :=
    ⟨_, rfl, _, List.mem_singleton.mpr rfl, rfl, rfl⟩
  obtain ⟨u, hu, v, hv, htries⟩ := hu
  refine ⟨u, v, hu, .function .self hv, htries.1, htries.2, ?_⟩
  obtain ⟨_, _, hwell⟩ | ⟨decl, _, _, hwell⟩ := compiled_units_well_formed hu (.function .self hv)
  · exact ⟨_, hwell⟩
  · exact ⟨_, hwell⟩

end ScriptEngine
