import ScriptEngine.Proofs.Code.Compiled
import ScriptEngine.Proofs.Tree.Node

namespace ScriptEngine

namespace Node

def meddles : Node → Bool
  | .expr (.call ..) | .expr (.assign (.field ..) ..) | .expr (.assign (.index ..) ..) => true
  | _ => false

def Harmless (n : Node) : Prop :=
  n.Throughout fun m => m.meddles = false

end Node

inductive Operand where
  | value | literal
deriving DecidableEq, Repr

namespace Instr

def isMild : Instr → Bool
  | .jump _ | .jumpIfFalse _ | .jumpIfFalseKeep _ | .jumpIfTrueKeep _ | .return | .throw | .try _ _ | .leave
  | .enterCatch _ | .exitCatch | .setCompletion | .newObject | .initProp _ | .setProp _ | .setIndex | .getMethod _
  | .call _ => false
  | _ => true

/-- An instruction at address `a` of a script finds the operands `s`, the topmost first, and all that may come
next is in `E`. A literal that is finished is a value like any other. Statements begin and end without operands,
and so does what an error leads to, but for the value of the error. -/
def Handles (a : Nat) (s : List Operand) (E : Nat → List Operand → Prop) : Instr → Prop
  | .jump t => E t s
  | .jumpIfFalse t => ∃ o r, s = o :: r ∧ E t r ∧ E (a + 1) r
  | .jumpIfFalseKeep t | .jumpIfTrueKeep t => ∃ r, s = .value :: r ∧ E t s ∧ E (a + 1) r
  | .throw => True
  | .try c x => s = [] ∧ E c [.value] ∧ E x [] ∧ E (a + 1) []
  | .leave => s = []
  | .enterCatch _ | .setCompletion => s = [.value] ∧ E (a + 1) []
  | .exitCatch => s = [] ∧ E (a + 1) []
  | .newObject => ∃ o, E (a + 1) (o :: s)
  | .initProp _ => ∃ o o' r, s = o :: .literal :: r ∧ E (a + 1) (o' :: r)
  | instr => instr.isMild = true ∧
      ∃ ops r, s = ops ++ r ∧ ops.length = instr.operands ∧ E (a + 1) (List.replicate instr.results .value ++ r)

theorem handles_of_isMild {a : Nat} {s : List Operand} {E : Nat → List Operand → Prop} {instr : Instr}
    (hm : instr.isMild = true) : instr.Handles a s E ↔
      ∃ ops r, s = ops ++ r ∧ ops.length = instr.operands ∧ E (a + 1) (List.replicate instr.results .value ++ r) := by
  cases instr <;> first | exact and_iff_right rfl | cases hm

theorem handles_monotone : Monotone Handles := by
  intro a s E F instr hEF h
  cases instr with
  | jump t => exact hEF _ _ h
  | jumpIfFalse t =>
    obtain ⟨o, r, hs, ht, hn⟩ := h
    exact ⟨o, r, hs, hEF _ _ ht, hEF _ _ hn⟩
  | jumpIfFalseKeep t | jumpIfTrueKeep t =>
    obtain ⟨r, hs, ht, hn⟩ := h
    exact ⟨r, hs, hEF _ _ ht, hEF _ _ hn⟩
  | throw => trivial
  | «try» c x => exact ⟨h.1, hEF _ _ h.2.1, hEF _ _ h.2.2.1, hEF _ _ h.2.2.2⟩
  | leave => exact h
  | enterCatch | setCompletion | exitCatch => exact ⟨h.1, hEF _ _ h.2⟩
  | newObject =>
    obtain ⟨o, hn⟩ := h
    exact ⟨o, hEF _ _ hn⟩
  | initProp =>
    obtain ⟨o, o', r, hs, hn⟩ := h
    exact ⟨o, o', r, hs, hEF _ _ hn⟩
  | _ =>
    obtain ⟨hm, ops, r, hs, ho, hn⟩ := h
    exact ⟨hm, ops, r, hs, ho, hEF _ _ hn⟩

end Instr

structure CodeUnit.Handled (u : CodeUnit) (σ : Nat → List Operand) : Prop where
  start : σ 0 = []
  handles : ∀ (a : Nat) (instr : Instr), u.code[a]? = some instr → instr.Handles a (σ a) fun t s => σ t = s

namespace Compiler

namespace Fragment

def Handled (X : Nat → List Operand → Prop) (p : Place) (f : Fragment) (s s' : List Operand) : Prop :=
  Course Instr.Handles X p.address f.instrs s s'

namespace Handled

variable {X Y : Nat → List Operand → Prop} {p : Place} {s r s' : List Operand}

theorem empty : Handled X p .empty s s := Course.nil

theorem append {a b : Fragment} (ha : a.Handled X p s r) (hb : b.Handled X (p.after a) r s') :
    (a ++ b).Handled X p s s' := by
  rw [Handled, instrs_append]
  refine Course.append Instr.handles_monotone ha ?_
  rwa [length_instrs]

theorem one {instr : Instr} {line : Nat}
    (h : instr.Handles p.address s fun t r => (t = p.address + 1 ∧ r = s') ∨ X t r) :
    (Fragment.one instr line).Handled X p s s' :=
  Course.one Instr.handles_monotone h

theorem close {f : Fragment} (hf : f.Handled X p s s')
    (h : ∀ t r, X t r → Y t r ∨ (t = p.address ∧ r = s) ∨ (t = (p.after f).address ∧ r = s')) : f.Handled Y p s s' := by
  refine Course.close Instr.handles_monotone hf ?_
  rw [length_instrs]
  exact h

theorem mild (ops s : List Operand) (instr : Instr) (line : Nat) (hm : instr.isMild = true)
    (ho : ops.length = instr.operands) :
    (Fragment.one instr line).Handled X p (ops ++ s) (List.replicate instr.results .value ++ s) :=
  one ((Instr.handles_of_isMild hm).mpr ⟨ops, s, rfl, ho, .inl ⟨rfl, rfl⟩⟩)

theorem closure {span : Span} {u : CodeUnit} : (Compiler.closure p span u).Handled X p s (.value :: s) :=
  mild [] s (.closure p.function) span.line rfl rfl

end Handled

end Fragment

open Fragment

section

variable {st : Setting}

def underway : List (String × Expr) → Operand
  | [] => .value
  | _ :: _ => .literal

mutual

theorem expr_handled : ∀ (x : Expr) {X : Nat → List Operand → Prop} {p : Place} {f : Fragment} (s : List Operand),
    (Node.expr x).Harmless → expr st x p = .ok f → f.Handled X p s (.value :: s)
  | .literal value span, X, p, f, s, hx, h => by
    simp only [expr, pure_eq_ok] at h
    subst h
    cases value <;> exact Handled.mild [] s _ _ rfl rfl
  | .name name span, X, p, f, s, hx, h | .this span, X, p, f, s, hx, h => by
    simp only [expr, pure_eq_ok] at h
    subst h
    exact Handled.mild [] s _ _ rfl rfl
  | .binary op left right span, X, p, f, s, hx, h => by
    simp only [expr, bind_eq_ok, pure_eq_ok] at h
    obtain ⟨a, ha, b, hb, rfl⟩ := h
    have hleft := expr_handled (X := X) left s (hx.child (.head _)) ha
    have hright := expr_handled (X := X) right (.value :: s) (hx.child (.tail _ (.head _))) hb
    exact (hleft.append hright).append (Handled.mild [.value, .value] s _ _ rfl rfl)
  | .logical op left right span, X, p, f, s, hx, h => by
    simp only [expr, bind_eq_ok, pure_eq_ok] at h
    obtain ⟨a, ha, b, hb, rfl⟩ := h
    let finish := ((p.after a).next.after b).address
    have hj : (Fragment.one (shortCircuit finish op) span.line).Handled
        (fun t r => t = finish ∧ r = .value :: s ∨ X t r) (p.after a) (.value :: s) s := by
      refine Handled.one ?_
      cases op <;> exact ⟨s, rfl, .inr (.inl ⟨rfl, rfl⟩), .inl ⟨rfl, rfl⟩⟩
    refine (((expr_handled left s (hx.child (.head _)) ha).append hj).append
      (expr_handled right s (hx.child (.tail _ (.head _))) ?_)).close ?_
    · rw [Place.after_append, Place.after_one]
      exact hb
    · rintro t r (⟨rfl, rfl⟩ | hX)
      · rw [Place.after_append, Place.after_append, Place.after_one]
        exact .inr (.inr ⟨rfl, rfl⟩)
      · exact .inl hX
  | .unary op operand span, X, p, f, s, hx, h => by
    simp only [expr, bind_eq_ok, pure_eq_ok] at h
    obtain ⟨a, ha, rfl⟩ := h
    refine (expr_handled operand s (hx.child (.head _)) ha).append ?_
    cases op <;> exact Handled.mild [.value] s _ _ rfl rfl
  | .assign target value span, X, p, f, s, hx, h => by
    match target, hx, h with
    | .name name place, hx, h =>
      simp only [expr, bind_eq_ok, pure_eq_ok] at h
      obtain ⟨_, _, a, ha, rfl⟩ := h
      exact (expr_handled value s (hx.child (.tail _ (.head _))) ha).append (Handled.mild [.value] s _ _ rfl rfl)
    | .field .., hx, _ | .index .., hx, _ => cases hx _ (.self _)
    | .literal .., _, h | .this .., _, h | .binary .., _, h | .logical .., _, h | .unary .., _, h
    | .assign .., _, h | .call .., _, h | .object .., _, h | .group .., _, h | .function .., _, h =>
      simp only [expr] at h
      exact absurd h throw_ne_ok
  | .call .., X, p, f, s, hx, h => by cases hx _ (.self _)
  | .object members span, X, p, f, s, hx, h => by
    simp only [expr, bind_eq_ok, pure_eq_ok] at h
    obtain ⟨b, hb, rfl⟩ := h
    have hnew : (Fragment.one .newObject span.line).Handled X p s (underway members :: s) :=
      Handled.one ⟨_, .inl ⟨rfl, rfl⟩⟩
    exact hnew.append (entries_handled members s (fun x hmem => hx.child (List.mem_map.mpr ⟨x, hmem, rfl⟩)) hb)
  | .group inner _, X, p, f, s, hx, h => by
    simp only [expr] at h
    exact expr_handled inner s (hx.child (.head _)) h
  | .index target index span, X, p, f, s, hx, h => by
    simp only [expr, bind_eq_ok, pure_eq_ok] at h
    obtain ⟨a, ha, b, hb, rfl⟩ := h
    have htarget := expr_handled (X := X) target s (hx.child (.head _)) ha
    have hindex := expr_handled (X := X) index (.value :: s) (hx.child (.tail _ (.head _))) hb
    exact (htarget.append hindex).append (Handled.mild [.value, .value] s _ _ rfl rfl)
  | .field target name span, X, p, f, s, hx, h => by
    simp only [expr, bind_eq_ok, pure_eq_ok] at h
    obtain ⟨a, ha, rfl⟩ := h
    exact (expr_handled target s (hx.child (.head _)) ha).append (Handled.mild [.value] s _ _ rfl rfl)
  | .function decl, X, p, f, s, hx, h => by
    simp only [expr, bind_eq_ok, pure_eq_ok] at h
    obtain ⟨u, hu, rfl⟩ := h
    exact Handled.closure

theorem entries_handled : ∀ (xs : List (String × Expr)) {X : Nat → List Operand → Prop} {p : Place} {f : Fragment}
    (s : List Operand), (∀ x ∈ xs, (Node.expr x.2).Harmless) → entries st xs p = .ok f →
      f.Handled X p (underway xs :: s) (.value :: s)
  | [], X, p, f, s, hx, h => by
    simp only [entries, pure_eq_ok] at h
    subst h
    exact Handled.empty
  | (name, value) :: rest, X, p, f, s, hx, h => by
    simp only [entries, bind_eq_ok, pure_eq_ok] at h
    obtain ⟨a, ha, b, hb, rfl⟩ := h
    have hvalue := expr_handled (X := X) value (.literal :: s) (hx _ (.head _)) ha
    have hset (p' : Place) : (Fragment.one (.initProp name) value.span.line).Handled X p' (.value :: .literal :: s)
        (underway rest :: s) :=
      Handled.one ⟨_, _, s, rfl, .inl ⟨rfl, rfl⟩⟩
    refine (hvalue.append (hset _)).append (entries_handled rest s (fun x hmem => hx x (.tail _ hmem)) ?_)
    rw [Place.after_append, Place.after_one]
    exact hb

end

theorem declaration_handled {X : Nat → List Operand → Prop} {p : Place} {decl : FunctionDecl} {u : CodeUnit}
    {s : List Operand} : (declaration p decl u).Handled X p s s :=
  Handled.closure.append (Handled.mild [.value] s _ _ rfl rfl)

theorem jumpIfFalse_handled {X : Nat → List Operand → Prop} {p : Place} {line target : Nat} (hX : X target []) :
    (Fragment.one (.jumpIfFalse target) line).Handled X p [.value] [] :=
  Handled.one ⟨_, _, rfl, .inr hX, .inl ⟨rfl, rfl⟩⟩

theorem jump_handled {X : Nat → List Operand → Prop} {p : Place} {line target : Nat} {s s' : List Operand}
    (hX : X target s) : (Fragment.one (.jump target) line).Handled X p s s' :=
  Handled.one (.inr hX)

theorem bindings_handled {span : Span} : ∀ (xs : List (String × Option Expr)) {X : Nat → List Operand → Prop}
    {p : Place} {f : Fragment}, (∀ x ∈ xs, ∀ value ∈ x.2, (Node.expr value).Harmless) →
      bindings st span xs p = .ok f → f.Handled X p [] []
  | [], X, p, f, hx, h => by
    simp only [bindings, pure_eq_ok] at h
    subst h
    exact Handled.empty
  | (name, some value) :: rest, X, p, f, hx, h => by
    simp only [bindings, bind_eq_ok, pure_eq_ok] at h
    obtain ⟨_, _, a, ha, b, hb, rfl⟩ := h
    have hbind : (a ++ .one (.defineVar name) span.line).Handled X p [] [] :=
      (expr_handled value [] (hx _ (.head _) value rfl) ha).append (Handled.mild [.value] [] _ _ rfl rfl)
    have hrest : b.Handled X (p.after (a ++ .one (.defineVar name) span.line)) [] [] := by
      rw [Place.after_append, Place.after_one]
      exact bindings_handled rest (fun x hmem => hx x (.tail _ hmem)) hb
    exact hbind.append hrest
  | (name, none) :: rest, X, p, f, hx, h => by
    simp only [bindings, bind_eq_ok, pure_eq_ok] at h
    obtain ⟨_, _, b, hb, rfl⟩ := h
    exact Handled.append (Handled.mild [] [] (.declareVar name) span.line rfl rfl)
      (bindings_handled rest (fun x hmem => hx x (.tail _ hmem)) hb)

mutual

theorem stmt_handled : ∀ (x : Stmt) {X : Nat → List Operand → Prop} {p : Place} {f : Fragment},
    (Node.stmt false x).Harmless → stmt st true x p = .ok f → f.Handled X p [] []
  | .var names span, X, p, f, hx, h => by
    simp only [stmt] at h
    refine bindings_handled names (fun x hmem value hv => hx.child ?_) h
    exact List.mem_flatMap.mpr ⟨x, hmem, List.mem_map.mpr ⟨value, Option.mem_toList.mpr hv, rfl⟩⟩
  | .function decl, X, p, f, hx, h => by
    simp only [stmt, bind_eq_ok, pure_eq_ok] at h
    obtain ⟨_, _, u, hu, rfl⟩ := h
    exact declaration_handled
  | .expr value, X, p, f, hx, h => by
    simp only [stmt, bind_eq_ok, pure_eq_ok] at h
    obtain ⟨a, ha, rfl⟩ := h
    exact (expr_handled value [] (hx.child (.head _)) ha).append (Handled.one ⟨rfl, .inl ⟨rfl, rfl⟩⟩)
  | .block items _, X, p, f, hx, h => by
    simp only [stmt] at h
    exact stmts_handled items (fun x hmem => hx.child (List.mem_map.mpr ⟨x, hmem, rfl⟩)) h
  | .cond test yes none span, X, p, f, hx, h => by
    simp only [stmt, bind_eq_ok, pure_eq_ok] at h
    obtain ⟨a, ha, b, hb, rfl⟩ := h
    let finish := ((p.after a).next.after b).address
    have hj : (a ++ .one (.jumpIfFalse finish) span.line).Handled (fun t r => t = finish ∧ r = [] ∨ X t r) p [] [] :=
      (expr_handled test [] (hx.child (.head _)) ha).append (jumpIfFalse_handled (.inl ⟨rfl, rfl⟩))
    refine (hj.append (stmt_handled yes (hx.child (.tail _ (.head _))) ?_)).close ?_
    · rw [Place.after_append, Place.after_one]
      exact hb
    · rintro t r (⟨rfl, rfl⟩ | hX)
      · rw [Place.after_append, Place.after_append, Place.after_one]
        exact .inr (.inr ⟨rfl, rfl⟩)
      · exact .inl hX
  | .cond test yes (some no) span, X, p, f, hx, h => by
    simp only [stmt, bind_eq_ok, pure_eq_ok] at h
    obtain ⟨a, ha, b, hb, c, hc, rfl⟩ := h
    let middle := ((p.after a).next.after b).next.address
    let finish := (((p.after a).next.after b).next.after c).address
    let Y (t : Nat) (r : List Operand) : Prop := t = finish ∧ r = [] ∨ X t r
    let Z (t : Nat) (r : List Operand) : Prop := t = middle ∧ r = [] ∨ Y t r
    have hj : (a ++ .one (.jumpIfFalse middle) span.line).Handled Z p [] [] :=
      (expr_handled test [] (hx.child (.head _)) ha).append (jumpIfFalse_handled (.inl ⟨rfl, rfl⟩))
    have hyes : (a ++ .one (.jumpIfFalse middle) span.line ++ b).Handled Z p [] [] := by
      refine hj.append (stmt_handled yes (hx.child (.tail _ (.head _))) ?_)
      rw [Place.after_append, Place.after_one]
      exact hb
    -- the first half ends with a jump, so that what is known at its end can be what the other branch needs
    have hfirst : (a ++ .one (.jumpIfFalse middle) span.line ++ b ++ .one (.jump finish) span.line).Handled Y p [] [] := by
      refine (hyes.append (jump_handled (.inr (.inl ⟨rfl, rfl⟩)))).close ?_
      rintro t r (⟨rfl, rfl⟩ | hY)
      · rw [Place.after_append, Place.after_append, Place.after_append]
        exact .inr (.inr ⟨rfl, rfl⟩)
      · exact .inl hY
    refine (hfirst.append (stmt_handled no (hx.child (.tail _ (.tail _ (.head _)))) ?_)).close ?_
    · simp only [Place.after_append, Place.after_one]
      exact hc
    · rintro t r (⟨rfl, rfl⟩ | hX)
      · rw [Place.after_append, Place.after_append, Place.after_append, Place.after_append]
        exact .inr (.inr ⟨rfl, rfl⟩)
      · exact .inl hX
  | .loop test body span, X, p, f, hx, h => by
    simp only [stmt, bind_eq_ok, pure_eq_ok] at h
    obtain ⟨a, ha, b, hb, rfl⟩ := h
    let finish := ((p.after a).next.after b).next.address
    let Y (t : Nat) (r : List Operand) : Prop := t = p.address ∧ r = [] ∨ t = finish ∧ r = [] ∨ X t r
    have hj : (a ++ .one (.jumpIfFalse finish) span.line).Handled Y p [] [] :=
      (expr_handled test [] (hx.child (.head _)) ha).append (jumpIfFalse_handled (.inr (.inl ⟨rfl, rfl⟩)))
    have hbody : (a ++ .one (.jumpIfFalse finish) span.line ++ b).Handled Y p [] [] := by
      refine hj.append (stmt_handled body (hx.child (.tail _ (.head _))) ?_)
      rw [Place.after_append, Place.after_one]
      exact hb
    refine (hbody.append (jump_handled (.inl ⟨rfl, rfl⟩))).close ?_
    rintro t r (⟨rfl, rfl⟩ | ⟨rfl, rfl⟩ | hX)
    · exact .inr (.inl ⟨rfl, rfl⟩)
    · rw [Place.after_append, Place.after_append, Place.after_append]
      exact .inr (.inr ⟨rfl, rfl⟩)
    · exact .inl hX
  | .return value span, X, p, f, hx, h => by
    rw [stmt, if_pos rfl] at h
    exact absurd h throw_ne_ok
  | .throw value span, X, p, f, hx, h => by
    simp only [stmt, bind_eq_ok, pure_eq_ok] at h
    obtain ⟨a, ha, rfl⟩ := h
    exact (expr_handled value [] (hx.child (.head _)) ha).append (Handled.one trivial)
  | .try body name handler span, X, p, f, hx, h => by
    simp only [stmt, bind_eq_ok, pure_eq_ok] at h
    obtain ⟨_, _, a, ha, b, hb, rfl⟩ := h
    let q := (p.next.after a).next
    let exit := (q.next.after b).next
    let Y (t : Nat) (r : List Operand) : Prop := t = exit.address ∧ r = [] ∨ X t r
    let Z (t : Nat) (r : List Operand) : Prop := t = q.address ∧ r = [.value] ∨ Y t r
    have hopen : (Fragment.one (.try q.address exit.address) span.line).Handled Z p [] [] :=
      Handled.one ⟨rfl, .inr (.inl ⟨rfl, rfl⟩), .inr (.inr (.inl ⟨rfl, rfl⟩)), .inl ⟨rfl, rfl⟩⟩
    have hleave (p' : Place) : (Fragment.one .leave span.line).Handled Z p' [] [.value] := Handled.one rfl
    have hin : ∀ x ∈ body, (Node.stmt false x).Harmless := fun x hmem =>
      hx.child (List.mem_append_left _ (List.mem_map.mpr ⟨x, hmem, rfl⟩))
    -- the body ends with a jump, so that what is known at its end can be what the catch clause needs
    have hbody := ((hopen.append (stmts_handled body hin ha)).append (hleave _)).close (Y := Y) (by
      rintro t r (⟨rfl, rfl⟩ | hY)
      · rw [Place.after_append, Place.after_append]
        exact .inr (.inr ⟨rfl, rfl⟩)
      · exact .inl hY)
    have henter (p' : Place) : (Fragment.one (.enterCatch name) span.line).Handled Y p' [.value] [] :=
      Handled.one ⟨rfl, .inl ⟨rfl, rfl⟩⟩
    have hexit (p' : Place) : (Fragment.one .exitCatch span.line).Handled Y p' [] [] :=
      Handled.one ⟨rfl, .inl ⟨rfl, rfl⟩⟩
    refine (((hbody.append (henter _)).append (stmts_handled handler (fun x hmem => hx.child ?_) ?_)).append
      (hexit _)).close ?_
    · exact List.mem_append_right _ (List.mem_map.mpr ⟨x, hmem, rfl⟩)
    · rw [Place.after_append, Place.after_append, Place.after_append]
      exact hb
    · rintro t r (⟨rfl, rfl⟩ | hX)
      · rw [Place.after_append, Place.after_append, Place.after_append, Place.after_append, Place.after_append]
        exact .inr (.inr ⟨rfl, rfl⟩)
      · exact .inl hX
  | .empty _, X, p, f, hx, h => by
    simp only [stmt, pure_eq_ok] at h
    subst h
    exact Handled.empty

theorem stmts_handled : ∀ (xs : List Stmt) {X : Nat → List Operand → Prop} {p : Place} {f : Fragment},
    (∀ x ∈ xs, (Node.stmt false x).Harmless) → stmts st true xs p = .ok f → f.Handled X p [] []
  | [], X, p, f, hx, h => by
    simp only [stmts, pure_eq_ok] at h
    subst h
    exact Handled.empty
  | x :: xs, X, p, f, hx, h => by
    simp only [stmts, bind_eq_ok, pure_eq_ok] at h
    obtain ⟨a, ha, b, hb, rfl⟩ := h
    exact (stmt_handled x (hx x (.head _)) ha).append (stmts_handled xs (fun y hmem => hx y (.tail _ hmem)) hb)

end

theorem hoisted_handled : ∀ (xs : List Stmt) {X : Nat → List Operand → Prop} {p : Place} {f : Fragment},
    hoisted st xs p = .ok f → f.Handled X p [] []
  | [], X, p, f, h => by
    simp only [hoisted, pure_eq_ok] at h
    subst h
    exact Handled.empty
  | x :: xs, X, p, f, h => by
    cases x with
    | function decl =>
      simp only [hoisted, bind_eq_ok, pure_eq_ok] at h
      obtain ⟨_, _, u, hu, b, hb, rfl⟩ := h
      exact declaration_handled.append (hoisted_handled xs hb)
    | _ =>
      simp only [hoisted] at h
      exact hoisted_handled xs h

theorem remaining_handled : ∀ (xs : List Stmt) {X : Nat → List Operand → Prop} {p : Place} {f : Fragment},
    (∀ x ∈ xs, (Node.stmt false x).Harmless) → remaining st true xs p = .ok f → f.Handled X p [] []
  | [], X, p, f, hx, h => by
    simp only [remaining, pure_eq_ok] at h
    subst h
    exact Handled.empty
  | x :: xs, X, p, f, hx, h => by
    cases x with
    | function decl =>
      simp only [remaining] at h
      exact remaining_handled xs (fun y hmem => hx y (.tail _ hmem)) h
    | _ =>
      simp only [remaining, bind_eq_ok, pure_eq_ok] at h
      obtain ⟨a, ha, b, hb, rfl⟩ := h
      exact (stmt_handled _ (hx _ (.head _)) ha).append (remaining_handled xs (fun y hmem => hx y (.tail _ hmem)) hb)

end

theorem script_frame {st : Setting} {items : List Stmt} {u : CodeUnit} (h : script st items = .ok u) :
    u.isScript = true ∧ u.strict = st.strict := by
  simp only [script, bind_eq_ok, pure_eq_ok] at h
  obtain ⟨a, -, b, -, rfl⟩ := h
  exact ⟨rfl, rfl⟩

theorem script_handled {st : Setting} {items : List Stmt} {u : CodeUnit}
    (hx : ∀ x ∈ items, (Node.stmt false x).Harmless) (h : script st items = .ok u) : ∃ σ, u.Handled σ := by
  simp only [script, bind_eq_ok, pure_eq_ok] at h
  obtain ⟨a, ha, b, hb, rfl⟩ := h
  obtain ⟨σ, hstart, -, hhandles⟩ :=
    (hoisted_handled (X := fun _ _ => False) items ha).append (remaining_handled items hx hb)
  simp only [Place.start, Nat.zero_add] at hstart hhandles
  refine ⟨σ, hstart, fun i instr hi => ?_⟩
  have hinstr : (a ++ b).instrs[i]? = some instr := by simpa [finish, instrs] using hi
  refine Instr.handles_monotone _ _ _ _ _ ?_ (hhandles i instr hinstr)
  rintro t r (⟨-, -, ht⟩ | hX)
  · exact ht
  · exact hX.elim

end Compiler

end ScriptEngine
