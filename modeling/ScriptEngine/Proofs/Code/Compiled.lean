import ScriptEngine.Proofs.Code.Shape
import ScriptEngine.Proofs.Outcome

namespace ScriptEngine

inductive CodeUnit.Compiled : CodeUnit → Prop
  | script {s : Compiler.Setting} {items : List Stmt} {u : CodeUnit} :
      Compiler.script s items = .ok u → Compiled u
  | function {s : Compiler.Setting} {decl : FunctionDecl} {u : CodeUnit} :
      Compiler.function s decl = .ok u → Compiled u

namespace Compiler

namespace Place

theorem after_one (p : Place) (i : Instr) (line : Nat) : p.after (.one i line) = p.next := rfl

theorem after_append (p : Place) (a b : Fragment) : p.after (a ++ b) = (p.after a).after b := by
  show p.after (a.append b) = _
  simp [after, Fragment.append, Fragment.size, Nat.add_assoc]

end Place

namespace Fragment

def instrs (f : Fragment) : List Instr := f.code.map (·.1)

def Sound (script : Bool) (X : Nat → Shape → Prop) (p : Place) (f : Fragment) (s s' : Shape) : Prop :=
  (∀ u ∈ f.functions, u.Compiled) ∧
    ∀ n, p.function + f.functions.length ≤ n → Segment n script X p.address f.instrs s s'

variable {script : Bool} {X Y : Nat → Shape → Prop} {p : Place} {s r s' : Shape}

theorem instrs_append (a b : Fragment) : (a ++ b).instrs = a.instrs ++ b.instrs :=
  List.map_append

theorem functions_append (a b : Fragment) : (a ++ b).functions = a.functions ++ b.functions := rfl

theorem length_instrs (a : Fragment) : a.instrs.length = a.size := List.length_map ..

namespace Sound

theorem empty : Sound script X p .empty s s :=
  ⟨by simp [Fragment.empty], fun _ _ => Segment.nil⟩

theorem append {a b : Fragment} (ha : Sound script X p a s r)
    (hb : Sound script X (p.after a) b r s') : Sound script X p (a ++ b) s s' := by
  refine ⟨?_, ?_⟩
  · intro u hu
    rcases List.mem_append.mp hu with hu | hu
    · exact ha.1 u hu
    · exact hb.1 u hu
  · intro n hn
    rw [functions_append, List.length_append] at hn
    rw [instrs_append]
    refine (ha.2 n (by omega)).append ?_
    rw [length_instrs]
    exact hb.2 n (by simp only [Place.after]; omega)

theorem one {instr : Instr} {line : Nat}
    (h : ∀ n, instr.Flows n script p.address s fun t r => (t = p.address + 1 ∧ r = s') ∨ X t r) :
    Sound script X p (.one instr line) s s' :=
  ⟨by simp [Fragment.one], fun n _ => Segment.one (h n)⟩

theorem close {f : Fragment} (hf : Sound script X p f s s')
    (h : ∀ t r, X t r → Y t r ∨ (t = p.address ∧ r = s) ∨ (t = (p.after f).address ∧ r = s')) :
    Sound script Y p f s s' := by
  refine ⟨hf.1, fun n hn => (hf.2 n hn).close ?_⟩
  rw [length_instrs]
  exact h

theorem closure {span : Span} {u : CodeUnit} (hu : u.Compiled) :
    Sound script X p (Compiler.closure p span u) s (s.push 1) := by
  refine ⟨by simpa [Compiler.closure] using hu, fun n hn => Segment.one ⟨?_, .inl ⟨rfl, rfl⟩⟩⟩
  simp only [Compiler.closure, List.length_singleton] at hn
  omega

theorem plain (s : Shape) (instr : Instr) (line : Nat) (hp : instr.isPlain = true) :
    Sound script X p (.one instr line) (s.push instr.operands) (s.push instr.results) := by
  refine one fun n => (Instr.flows_of_isPlain hp).mpr ⟨by simp [Shape.push], .inl ⟨rfl, ?_⟩⟩
  exact Shape.push_after ..

end Sound

end Fragment

open Fragment

section

variable {st : Setting} {script : Bool}

mutual

theorem expr_sound : ∀ (x : Expr) {X : Nat → Shape → Prop} {p : Place} {f : Fragment} (s : Shape),
    expr st x p = .ok f → f.Sound script X p s (s.push 1)
  | .literal value span, X, p, f, s, h => by
    simp only [expr, pure_eq_ok] at h
    subst h
    cases value <;> exact Sound.plain s _ _ rfl
  | .name name span, X, p, f, s, h => by
    simp only [expr, pure_eq_ok] at h
    subst h
    exact Sound.plain s _ _ rfl
  | .this span, X, p, f, s, h => by
    simp only [expr, pure_eq_ok] at h
    subst h
    exact Sound.plain s _ _ rfl
  | .binary op left right span, X, p, f, s, h => by
    simp only [expr, bind_eq_ok, pure_eq_ok] at h
    obtain ⟨a, ha, b, hb, rfl⟩ := h
    exact ((expr_sound left s ha).append (expr_sound right _ hb)).append (Sound.plain s _ _ rfl)
  | .logical op left right span, X, p, f, s, h => by
    simp only [expr, bind_eq_ok, pure_eq_ok] at h
    obtain ⟨a, ha, b, hb, rfl⟩ := h
    let finish := ((p.after a).next.after b).address
    have hj : Sound script (fun t r => t = finish ∧ r = s.push 1 ∨ X t r) (p.after a)
        (.one (shortCircuit finish op) span.line) (s.push 1) s := by
      refine Sound.one fun n => ?_
      cases op <;> exact ⟨Nat.le_add_left .., .inr (.inl ⟨rfl, rfl⟩), .inl ⟨rfl, rfl⟩⟩
    refine (((expr_sound left s ha).append hj).append (expr_sound right s ?_)).close ?_
    · rw [Place.after_append, Place.after_one]
      exact hb
    · rintro t r (⟨rfl, rfl⟩ | hX)
      · rw [Place.after_append, Place.after_append, Place.after_one]
        exact .inr (.inr ⟨rfl, rfl⟩)
      · exact .inl hX
  | .unary op operand span, X, p, f, s, h => by
    simp only [expr, bind_eq_ok, pure_eq_ok] at h
    obtain ⟨a, ha, rfl⟩ := h
    refine (expr_sound operand s ha).append ?_
    cases op <;> exact Sound.plain s _ _ rfl
  | .assign target value span, X, p, f, s, h => by
    match target, h with
    | .name name place, h =>
      simp only [expr, bind_eq_ok, pure_eq_ok] at h
      obtain ⟨_, _, a, ha, rfl⟩ := h
      exact (expr_sound value s ha).append (Sound.plain s _ _ rfl)
    | .field object name _, h =>
      simp only [expr, bind_eq_ok, pure_eq_ok] at h
      obtain ⟨a, ha, b, hb, rfl⟩ := h
      exact ((expr_sound object s ha).append (expr_sound value _ hb)).append (Sound.plain s _ _ rfl)
    | .index object index _, h =>
      simp only [expr, bind_eq_ok, pure_eq_ok] at h
      obtain ⟨a, ha, b, hb, c, hc, rfl⟩ := h
      have hab := (expr_sound (X := X) object s ha).append (expr_sound index _ hb)
      rw [← Place.after_append] at hc
      exact (hab.append (expr_sound value _ hc)).append (Sound.plain s _ _ rfl)
    | .literal .., h | .this .., h | .binary .., h | .logical .., h | .unary .., h
    | .assign .., h | .call .., h | .object .., h | .group .., h | .function .., h =>
      simp only [expr] at h
      exact absurd h throw_ne_ok
  | .call callee args span, X, p, f, s, h => by
    simp only [expr] at h
    split at h
    · exact absurd h throw_ne_ok
    have finish {a b : Fragment} (ha : a.Sound script X p s (s.push 2))
        (hb : exprs st args (p.after a) = .ok b) :
        (a ++ b ++ .one (.call args.length) span.line).Sound script X p s (s.push 1) := by
      have hab := ha.append (exprs_sound args _ hb)
      rw [Shape.push_push, Nat.add_comm] at hab
      exact hab.append (Sound.plain s _ _ rfl)
    match callee, h with
    | .field target name _, h =>
      simp only [bind_eq_ok, pure_eq_ok] at h
      obtain ⟨a, ha, _, rfl, b, hb, rfl⟩ := h
      exact finish ((expr_sound target s ha).append (Sound.plain s _ _ rfl)) hb
    | .literal .., h | .name .., h | .this .., h | .binary .., h | .logical .., h | .unary .., h
    | .assign .., h | .call .., h | .object .., h | .group .., h | .index .., h | .function .., h =>
      simp only [bind_eq_ok, pure_eq_ok] at h
      obtain ⟨a, ha, _, rfl, b, hb, rfl⟩ := h
      exact finish ((expr_sound _ s ha).append (Sound.plain (s.push 1) _ _ rfl)) hb
  | .object members span, X, p, f, s, h => by
    simp only [expr, bind_eq_ok, pure_eq_ok] at h
    obtain ⟨b, hb, rfl⟩ := h
    exact Sound.append (Sound.plain s .newObject span.line rfl) (entries_sound members s hb)
  | .group inner _, X, p, f, s, h => by
    simp only [expr] at h
    exact expr_sound inner s h
  | .index target index span, X, p, f, s, h => by
    simp only [expr, bind_eq_ok, pure_eq_ok] at h
    obtain ⟨a, ha, b, hb, rfl⟩ := h
    exact ((expr_sound target s ha).append (expr_sound index _ hb)).append (Sound.plain s _ _ rfl)
  | .field target name span, X, p, f, s, h => by
    simp only [expr, bind_eq_ok, pure_eq_ok] at h
    obtain ⟨a, ha, rfl⟩ := h
    exact (expr_sound target s ha).append (Sound.plain s _ _ rfl)
  | .function decl, X, p, f, s, h => by
    simp only [expr, bind_eq_ok, pure_eq_ok] at h
    obtain ⟨u, hu, rfl⟩ := h
    exact Sound.closure (.function hu)

theorem exprs_sound : ∀ (xs : List Expr) {X : Nat → Shape → Prop} {p : Place} {f : Fragment}
    (s : Shape), exprs st xs p = .ok f → f.Sound script X p s (s.push xs.length)
  | [], X, p, f, s, h => by
    simp only [exprs, pure_eq_ok] at h
    subst h
    exact Sound.empty
  | x :: xs, X, p, f, s, h => by
    simp only [exprs, bind_eq_ok, pure_eq_ok] at h
    obtain ⟨a, ha, b, hb, rfl⟩ := h
    have hx := (expr_sound (X := X) x s ha).append (exprs_sound xs _ hb)
    rwa [Shape.push_push, Nat.add_comm] at hx

theorem entries_sound : ∀ (xs : List (String × Expr)) {X : Nat → Shape → Prop} {p : Place}
    {f : Fragment} (s : Shape), entries st xs p = .ok f → f.Sound script X p (s.push 1) (s.push 1)
  | [], X, p, f, s, h => by
    simp only [entries, pure_eq_ok] at h
    subst h
    exact Sound.empty
  | (name, value) :: rest, X, p, f, s, h => by
    simp only [entries, bind_eq_ok, pure_eq_ok] at h
    obtain ⟨a, ha, b, hb, rfl⟩ := h
    have hv := (expr_sound (X := X) value (s.push 1) ha).append
      (Sound.plain s (.initProp name) value.span.line rfl)
    refine hv.append (entries_sound rest s ?_)
    rw [Place.after_append, Place.after_one]
    exact hb

end

theorem declaration_sound {X : Nat → Shape → Prop} {p : Place} {decl : FunctionDecl} {u : CodeUnit}
    {s : Shape} (hu : u.Compiled) : (declaration p decl u).Sound script X p s s :=
  (Sound.closure hu).append (Sound.plain s (.defineVar _) decl.span.line rfl)

theorem discard_sound {X : Nat → Shape → Prop} {p : Place} {line : Nat} {s : Shape} :
    Sound script X p (.one (discard script) line) (s.push 1) s := by
  cases script with
  | false => exact Sound.plain s .pop line rfl
  | true => exact Sound.one fun n => ⟨rfl, Nat.le_add_left .., .inl ⟨rfl, rfl⟩⟩

theorem jumpIfFalse_sound {X : Nat → Shape → Prop} {p : Place} {line target : Nat} {s : Shape}
    (hX : X target s) : Sound script X p (.one (.jumpIfFalse target) line) (s.push 1) s :=
  Sound.one fun _ => ⟨Nat.le_add_left .., .inr hX, .inl ⟨rfl, rfl⟩⟩

theorem jump_sound {X : Nat → Shape → Prop} {p : Place} {line target : Nat} {s s' : Shape}
    (hX : X target s) : Sound script X p (.one (.jump target) line) s s' :=
  Sound.one fun _ => .inr hX

theorem bindings_sound {span : Span} : ∀ (xs : List (String × Option Expr))
    {X : Nat → Shape → Prop} {p : Place} {f : Fragment} (s : Shape),
    bindings st span xs p = .ok f → f.Sound script X p s s
  | [], X, p, f, s, h => by
    simp only [bindings, pure_eq_ok] at h
    subst h
    exact Sound.empty
  | (name, some value) :: rest, X, p, f, s, h => by
    simp only [bindings, bind_eq_ok, pure_eq_ok] at h
    obtain ⟨_, _, a, ha, b, hb, rfl⟩ := h
    have hv : Sound script X p (a ++ .one (.defineVar name) span.line) s s :=
      (expr_sound value s ha).append (Sound.plain s _ _ rfl)
    have hrest : Sound script X (p.after (a ++ .one (.defineVar name) span.line)) b s s := by
      rw [Place.after_append, Place.after_one]
      exact bindings_sound rest s hb
    exact hv.append hrest
  | (name, none) :: rest, X, p, f, s, h => by
    simp only [bindings, bind_eq_ok, pure_eq_ok] at h
    obtain ⟨_, _, b, hb, rfl⟩ := h
    exact Sound.append (Sound.plain s (.declareVar name) span.line rfl) (bindings_sound rest s hb)

mutual

theorem stmt_sound : ∀ (x : Stmt) {X : Nat → Shape → Prop} {p : Place} {f : Fragment} (s : Shape),
    s.Settled → stmt st script x p = .ok f → f.Sound script X p s s
  | .var names span, X, p, f, s, hs, h => by
    simp only [stmt] at h
    exact bindings_sound names s h
  | .function decl, X, p, f, s, hs, h => by
    simp only [stmt, bind_eq_ok, pure_eq_ok] at h
    obtain ⟨_, _, u, hu, rfl⟩ := h
    exact declaration_sound (.function hu)
  | .expr value, X, p, f, s, hs, h => by
    simp only [stmt, bind_eq_ok, pure_eq_ok] at h
    obtain ⟨a, ha, rfl⟩ := h
    exact (expr_sound value s ha).append discard_sound
  | .block items _, X, p, f, s, hs, h => by
    simp only [stmt] at h
    exact stmts_sound items s hs h
  | .cond test yes none span, X, p, f, s, hs, h => by
    simp only [stmt, bind_eq_ok, pure_eq_ok] at h
    obtain ⟨a, ha, b, hb, rfl⟩ := h
    let finish := ((p.after a).next.after b).address
    have hj : Sound script (fun t r => t = finish ∧ r = s ∨ X t r) p
        (a ++ .one (.jumpIfFalse finish) span.line) s s :=
      (expr_sound test s ha).append (jumpIfFalse_sound (.inl ⟨rfl, rfl⟩))
    refine (hj.append (stmt_sound yes s hs ?_)).close ?_
    · rw [Place.after_append, Place.after_one]
      exact hb
    · rintro t r (⟨rfl, rfl⟩ | hX)
      · rw [Place.after_append, Place.after_append, Place.after_one]
        exact .inr (.inr ⟨rfl, rfl⟩)
      · exact .inl hX
  | .cond test yes (some no) span, X, p, f, s, hs, h => by
    simp only [stmt, bind_eq_ok, pure_eq_ok] at h
    obtain ⟨a, ha, b, hb, c, hc, rfl⟩ := h
    let middle := ((p.after a).next.after b).next.address
    let finish := (((p.after a).next.after b).next.after c).address
    let Y (t : Nat) (r : Shape) : Prop := t = finish ∧ r = s ∨ X t r
    let Z (t : Nat) (r : Shape) : Prop := t = middle ∧ r = s ∨ Y t r
    have hj : Sound script Z p (a ++ .one (.jumpIfFalse middle) span.line) s s :=
      (expr_sound test s ha).append (jumpIfFalse_sound (.inl ⟨rfl, rfl⟩))
    have hyes : Sound script Z p (a ++ .one (.jumpIfFalse middle) span.line ++ b) s s := by
      refine hj.append (stmt_sound yes s hs ?_)
      rw [Place.after_append, Place.after_one]
      exact hb
    -- the first half ends with a jump, so that its end can have the shape that the other branch needs
    have hfirst : Sound script Y p (a ++ .one (.jumpIfFalse middle) span.line ++ b
        ++ .one (.jump finish) span.line) s s := by
      refine (hyes.append (jump_sound (.inr (.inl ⟨rfl, rfl⟩)))).close ?_
      rintro t r (⟨rfl, rfl⟩ | hY)
      · rw [Place.after_append, Place.after_append, Place.after_append]
        exact .inr (.inr ⟨rfl, rfl⟩)
      · exact .inl hY
    refine (hfirst.append (stmt_sound no s hs ?_)).close ?_
    · simp only [Place.after_append, Place.after_one]
      exact hc
    · rintro t r (⟨rfl, rfl⟩ | hX)
      · rw [Place.after_append, Place.after_append, Place.after_append, Place.after_append]
        exact .inr (.inr ⟨rfl, rfl⟩)
      · exact .inl hX
  | .loop test body span, X, p, f, s, hs, h => by
    simp only [stmt, bind_eq_ok, pure_eq_ok] at h
    obtain ⟨a, ha, b, hb, rfl⟩ := h
    let finish := ((p.after a).next.after b).next.address
    let Y (t : Nat) (r : Shape) : Prop := t = p.address ∧ r = s ∨ t = finish ∧ r = s ∨ X t r
    have hj : Sound script Y p (a ++ .one (.jumpIfFalse finish) span.line) s s :=
      (expr_sound test s ha).append (jumpIfFalse_sound (.inr (.inl ⟨rfl, rfl⟩)))
    have hbody : Sound script Y p (a ++ .one (.jumpIfFalse finish) span.line ++ b) s s := by
      refine hj.append (stmt_sound body s hs ?_)
      rw [Place.after_append, Place.after_one]
      exact hb
    refine (hbody.append (jump_sound (.inl ⟨rfl, rfl⟩))).close ?_
    rintro t r (⟨rfl, rfl⟩ | ⟨rfl, rfl⟩ | hX)
    · exact .inr (.inl ⟨rfl, rfl⟩)
    · rw [Place.after_append, Place.after_append, Place.after_append]
      exact .inr (.inr ⟨rfl, rfl⟩)
    · exact .inl hX
  | .return value span, X, p, f, s, hs, h => by
    have finish {a : Fragment} (hscript : ¬ script = true) (ha : a.Sound script X p s (s.push 1)) :
        (a ++ .one .return span.line).Sound script X p s s :=
      ha.append (Sound.one fun n => ⟨Nat.le_add_left .., by simpa using hscript⟩)
    cases value with
    | some value =>
      rw [stmt] at h
      split at h
      · exact absurd h throw_ne_ok
      · simp only [bind_eq_ok, pure_eq_ok] at h
        obtain ⟨a, ha, rfl⟩ := h
        exact finish ‹_› (expr_sound value s ha)
    | none =>
      rw [stmt] at h
      split at h
      · exact absurd h throw_ne_ok
      · simp only [bind_eq_ok, pure_eq_ok] at h
        obtain ⟨a, rfl, rfl⟩ := h
        exact finish ‹_› (Sound.plain s _ _ rfl)
  | .throw value span, X, p, f, s, hs, h => by
    simp only [stmt, bind_eq_ok, pure_eq_ok] at h
    obtain ⟨a, ha, rfl⟩ := h
    exact (expr_sound value s ha).append (Sound.one fun n => Nat.le_add_left ..)
  | .try body name handler span, X, p, f, s, hs, h => by
    simp only [stmt, bind_eq_ok, pure_eq_ok] at h
    obtain ⟨_, _, a, ha, b, hb, rfl⟩ := h
    obtain ⟨_, tries, catches⟩ := s
    obtain ⟨rfl, hnested⟩ := hs
    let q := (p.next.after a).next
    let exit := (q.next.after b).next
    let thrown : Shape := ⟨1, tries, catches⟩
    let Y (t : Nat) (r : Shape) : Prop := t = exit.address ∧ r = ⟨0, tries, catches⟩ ∨ X t r
    have htry : Sound script (fun t r => t = q.address ∧ r = thrown ∨ Y t r) p
        (.one (.try q.address exit.address) span.line) ⟨0, tries, catches⟩
        ⟨0, ⟨q.address, exit.address, catches⟩ :: tries, catches⟩ :=
      Sound.one fun n => ⟨rfl, .inr (.inl ⟨rfl, rfl⟩), .inl ⟨rfl, rfl⟩⟩
    have hleave : Sound script (fun t r => t = q.address ∧ r = thrown ∨ Y t r)
        (p.next.after a) (.one .leave span.line)
        ⟨0, ⟨q.address, exit.address, catches⟩ :: tries, catches⟩ thrown :=
      Sound.one fun n => ⟨_, _, rfl, rfl, rfl, .inr (.inr (.inl ⟨rfl, rfl⟩))⟩
    -- the body ends with a jump, so that its end can have the shape of the catch clause
    have hbody := ((htry.append (stmts_sound body _ ⟨rfl, by simpa using hnested⟩ ha)).append
      (by rw [Place.after_append]; exact hleave)).close (Y := Y) (by
        rintro t r (⟨rfl, rfl⟩ | hY)
        · rw [Place.after_append, Place.after_append]
          exact .inr (.inr ⟨rfl, rfl⟩)
        · exact .inl hY)
    have henter (p' : Place) : Sound script Y p' (.one (.enterCatch name) span.line) thrown
        ⟨0, tries, catches + 1⟩ :=
      Sound.one fun n => ⟨Nat.le_refl _, .inl ⟨rfl, rfl⟩⟩
    have hexit (p' : Place) : Sound script Y p' (.one .exitCatch span.line) ⟨0, tries, catches + 1⟩
        ⟨0, tries, catches⟩ :=
      Sound.one fun n => ⟨Nat.le_add_left .., fun t ht => Nat.lt_succ_of_le (hnested t ht),
        .inl ⟨rfl, rfl⟩⟩
    have hcatch : ∀ t ∈ tries, t.catches ≤ catches + 1 := fun t ht =>
      Nat.le_succ_of_le (hnested t ht)
    refine (((hbody.append (henter _)).append (stmts_sound handler _ ⟨rfl, hcatch⟩ ?_)).append (hexit _)).close ?_
    · rw [Place.after_append, Place.after_append, Place.after_append]
      exact hb
    · rintro t r (⟨rfl, rfl⟩ | hX)
      · rw [Place.after_append, Place.after_append, Place.after_append, Place.after_append,
          Place.after_append]
        exact .inr (.inr ⟨rfl, rfl⟩)
      · exact .inl hX
  | .empty _, X, p, f, s, hs, h => by
    simp only [stmt, pure_eq_ok] at h
    subst h
    exact Sound.empty

theorem stmts_sound : ∀ (xs : List Stmt) {X : Nat → Shape → Prop} {p : Place} {f : Fragment}
    (s : Shape), s.Settled → stmts st script xs p = .ok f → f.Sound script X p s s
  | [], X, p, f, s, hs, h => by
    simp only [stmts, pure_eq_ok] at h
    subst h
    exact Sound.empty
  | x :: xs, X, p, f, s, hs, h => by
    simp only [stmts, bind_eq_ok, pure_eq_ok] at h
    obtain ⟨a, ha, b, hb, rfl⟩ := h
    exact (stmt_sound x s hs ha).append (stmts_sound xs s hs hb)

end

theorem hoisted_sound : ∀ (xs : List Stmt) {X : Nat → Shape → Prop} {p : Place} {f : Fragment}
    (s : Shape), hoisted st xs p = .ok f → f.Sound script X p s s
  | [], X, p, f, s, h => by
    simp only [hoisted, pure_eq_ok] at h
    subst h
    exact Sound.empty
  | x :: xs, X, p, f, s, h => by
    match x, h with
    | .function decl, h =>
      simp only [hoisted, bind_eq_ok, pure_eq_ok] at h
      obtain ⟨_, _, u, hu, b, hb, rfl⟩ := h
      exact (declaration_sound (.function hu)).append (hoisted_sound xs s hb)
    | .var .., h | .expr .., h | .block .., h | .cond .., h | .loop .., h | .return .., h
    | .throw .., h | .try .., h | .empty .., h =>
      simp only [hoisted] at h
      exact hoisted_sound xs s h

theorem remaining_sound : ∀ (xs : List Stmt) {X : Nat → Shape → Prop} {p : Place} {f : Fragment}
    (s : Shape), s.Settled → remaining st script xs p = .ok f → f.Sound script X p s s
  | [], X, p, f, s, hs, h => by
    simp only [remaining, pure_eq_ok] at h
    subst h
    exact Sound.empty
  | x :: xs, X, p, f, s, hs, h => by
    match x, h with
    | .function decl, h =>
      simp only [remaining] at h
      exact remaining_sound xs s hs h
    | .var .., h | .expr .., h | .block .., h | .cond .., h | .loop .., h | .return .., h
    | .throw .., h | .try .., h | .empty .., h =>
      simp only [remaining, bind_eq_ok, pure_eq_ok] at h
      obtain ⟨a, ha, b, hb, rfl⟩ := h
      exact (stmt_sound _ s hs ha).append (remaining_sound xs s hs hb)

end

theorem finish_shaped {st : Setting} {name : String} {line : Nat} {params : List String}
    {script : Bool} {f : Fragment} (h : f.Sound script (fun _ _ => False) .start .start .start) :
    ∃ σ, (finish st name line params script f).Shaped σ := by
  obtain ⟨σ, hstart, hfinish, hflows⟩ := h.2 f.functions.length (by simp [Place.start])
  have hsize : (finish st name line params script f).code.size = f.instrs.length := by
    simp [finish, instrs]
  simp only [Place.start, Nat.zero_add, or_false] at hstart hfinish hflows
  refine ⟨σ, hstart, by rw [hsize]; exact hfinish, ?_⟩
  intro a instr ha
  have ha' : f.instrs[a]? = some instr := by simpa [finish, instrs] using ha
  refine (hflows a instr ha').mono ?_
  rintro t r ⟨_, ht, hr⟩
  exact ⟨by rw [hsize]; exact ht, hr⟩

end Compiler

namespace CodeUnit.Compiled

open Compiler

theorem sound {u : CodeUnit} (hu : u.Compiled) : ∃ st name line params script f,
    u = finish st name line params script f ∧ f.Sound script (fun _ _ => False) .start .start .start := by
  cases hu with
  | @script st items u h =>
    simp only [Compiler.script, bind_eq_ok, pure_eq_ok] at h
    obtain ⟨a, ha, b, hb, rfl⟩ := h
    exact ⟨_, _, _, _, _, _, rfl,
      (hoisted_sound items .start ha).append (remaining_sound items .start Shape.settled_start hb)⟩
  | @function st decl u h =>
    obtain ⟨name, params, body, span⟩ := decl
    simp only [Compiler.function] at h
    split at h
    · exact absurd h throw_ne_ok
    · simp only [bind_eq_ok, pure_eq_ok] at h
      obtain ⟨_, _, a, ha, b, hb, rfl⟩ := h
      have hbody : Fragment.Sound false (fun _ _ => False) .start (a ++ b) .start .start :=
        (hoisted_sound body .start ha).append (remaining_sound body .start Shape.settled_start hb)
      have hending (p : Place) : Fragment.Sound false (fun _ _ => False) p
          (.one .undefined span.line ++ .one .return span.line) .start .start :=
        (Fragment.Sound.plain .start _ _ rfl).append (.one fun n => ⟨Nat.le_refl _, rfl⟩)
      exact ⟨_, _, _, _, _, _, rfl, hbody.append (hending _)⟩

theorem shaped {u : CodeUnit} (hu : u.Compiled) : ∃ σ, u.Shaped σ := by
  obtain ⟨st, name, line, params, script, f, rfl, hf⟩ := hu.sound
  exact finish_shaped hf

theorem functions {u g : CodeUnit} (hu : u.Compiled) (hg : g ∈ u.functions) : g.Compiled := by
  obtain ⟨st, name, line, params, script, f, rfl, hf⟩ := hu.sound
  exact hf.1 g hg

end CodeUnit.Compiled

end ScriptEngine
