import ScriptEngine.Code.Compiler
import ScriptEngine.Proofs.Code.Course

/-!
What is known of the machine at each address of a unit: how many operands lie on the stack, which
try statements are open and how many catch clauses. An assignment of shapes to addresses is
consistent if every instruction finds its operands and hands the right shape to each address that
may come next. Compiled units have such an assignment.
-/

namespace ScriptEngine

def Instr.operands : Instr → Nat
  | .undefined | .null | .boolean _ | .number _ | .string _ | .this | .getVar _ | .declareVar _
  | .closure _ | .newObject | .jump _ | .try _ _ | .leave | .exitCatch => 0
  | .setVar _ | .defineVar _ | .getProp _ | .getMethod _ | .pop | .setCompletion | .negate | .not
  | .typeof | .jumpIfFalse _ | .jumpIfFalseKeep _ | .jumpIfTrueKeep _ | .return | .throw
  | .enterCatch _ => 1
  | .initProp _ | .setProp _ | .getIndex | .binary _ => 2
  | .setIndex => 3
  | .call argc => argc + 2

def Instr.results : Instr → Nat
  | .defineVar _ | .declareVar _ | .pop | .setCompletion | .jump _ | .jumpIfFalse _
  | .jumpIfFalseKeep _ | .jumpIfTrueKeep _ | .return | .throw | .try _ _ | .leave | .enterCatch _
  | .exitCatch => 0
  | .getMethod _ => 2
  | .undefined | .null | .boolean _ | .number _ | .string _ | .this | .getVar _ | .setVar _
  | .closure _ | .newObject | .initProp _ | .getProp _ | .setProp _ | .getIndex | .setIndex
  | .call _ | .negate | .not | .typeof | .binary _ => 1

structure OpenTry where
  catchAt : Nat
  exitAt : Nat
  catches : Nat
deriving DecidableEq, Repr

structure Shape where
  height : Nat
  tries : List OpenTry
  catches : Nat
deriving DecidableEq, Repr

namespace Shape

def start : Shape := ⟨0, [], 0⟩

def push (s : Shape) (n : Nat) : Shape :=
  { s with height := s.height + n }

def after (s : Shape) (taken left : Nat) : Shape :=
  { s with height := s.height - taken + left }

structure Settled (s : Shape) : Prop where
  height : s.height = 0
  nested : ∀ t ∈ s.tries, t.catches ≤ s.catches

theorem settled_start : start.Settled := ⟨rfl, by simp [start]⟩

theorem push_push (s : Shape) (m n : Nat) : (s.push m).push n = s.push (m + n) := by
  simp [push, Nat.add_assoc]

theorem push_after (s : Shape) (m n : Nat) : (s.push m).after m n = s.push n := by
  simp [push, after]

end Shape

def Instr.isPlain : Instr → Bool
  | .jump _ | .jumpIfFalse _ | .jumpIfFalseKeep _ | .jumpIfTrueKeep _ | .return | .throw | .try _ _
  | .leave | .enterCatch _ | .exitCatch | .closure _ | .setCompletion => false
  | _ => true

/-- An instruction at address `a` finds shape `s`, and all that may come next is in `E`. A try
statement stands where no operands are. -/
def Instr.Flows (functions : Nat) (script : Bool) (a : Nat) (s : Shape) (E : Nat → Shape → Prop) :
    Instr → Prop
  | .jump t => E t s
  | .jumpIfFalse t => 1 ≤ s.height ∧ E t (s.after 1 0) ∧ E (a + 1) (s.after 1 0)
  | .jumpIfFalseKeep t | .jumpIfTrueKeep t => 1 ≤ s.height ∧ E t s ∧ E (a + 1) (s.after 1 0)
  | .return => 1 ≤ s.height ∧ script = false
  | .throw => 1 ≤ s.height
  | .try c x => s.height = 0 ∧ E c ⟨1, s.tries, s.catches⟩ ∧
      E (a + 1) { s with tries := ⟨c, x, s.catches⟩ :: s.tries }
  | .leave => ∃ t ts, s.tries = t :: ts ∧ s.height = 0 ∧ t.catches = s.catches ∧
      E t.exitAt { s with tries := ts }
  | .enterCatch _ => 1 ≤ s.height ∧ E (a + 1) { s.after 1 0 with catches := s.catches + 1 }
  | .exitCatch => 1 ≤ s.catches ∧ (∀ t ∈ s.tries, t.catches < s.catches) ∧
      E (a + 1) { s with catches := s.catches - 1 }
  | .closure i => i < functions ∧ E (a + 1) (s.after 0 1)
  | .setCompletion => script = true ∧ 1 ≤ s.height ∧ E (a + 1) (s.after 1 0)
  | instr => instr.operands ≤ s.height ∧ E (a + 1) (s.after instr.operands instr.results)

theorem Instr.Flows.mono {n : Nat} {script : Bool} {a : Nat} {s : Shape} {E F : Nat → Shape → Prop}
    (hEF : ∀ t r, E t r → F t r) {instr : Instr} (h : instr.Flows n script a s E) :
    instr.Flows n script a s F := by
  cases instr <;> simp only [Instr.Flows] at h ⊢
  case leave =>
    obtain ⟨t, ts, ht, hh, hc, hE⟩ := h
    exact ⟨t, ts, ht, hh, hc, hEF _ _ hE⟩
  all_goals first
    | exact h
    | exact hEF _ _ h
    | exact ⟨h.1, hEF _ _ h.2⟩
    | exact ⟨h.1, hEF _ _ h.2.1, hEF _ _ h.2.2⟩
    | exact ⟨h.1, h.2.1, hEF _ _ h.2.2⟩

theorem Instr.flows_of_isPlain {n : Nat} {script : Bool} {a : Nat} {s : Shape}
    {E : Nat → Shape → Prop} {instr : Instr} (hp : instr.isPlain = true) :
    instr.Flows n script a s E ↔
      instr.operands ≤ s.height ∧ E (a + 1) (s.after instr.operands instr.results) := by
  cases instr <;> first | exact Iff.rfl | cases hp

theorem Instr.Flows.operands_le {n : Nat} {script : Bool} {a : Nat} {s : Shape}
    {E : Nat → Shape → Prop} {instr : Instr} (h : instr.Flows n script a s E) :
    instr.operands ≤ s.height := by
  cases instr <;> simp only [Instr.Flows, Instr.operands] at h ⊢ <;> omega

structure CodeUnit.Shaped (u : CodeUnit) (σ : Nat → Shape) : Prop where
  start : σ 0 = .start
  finish : σ u.code.size = .start
  flows : ∀ (a : Nat) (instr : Instr), u.code[a]? = some instr →
    instr.Flows u.functions.length u.isScript a (σ a) fun t s => t ≤ u.code.size ∧ σ t = s

def Segment (n : Nat) (script : Bool) (X : Nat → Shape → Prop) (lo : Nat) (code : List Instr)
    (s s' : Shape) : Prop :=
  ∃ σ : Nat → Shape, σ lo = s ∧ σ (lo + code.length) = s' ∧
    ∀ (i : Nat) (instr : Instr), code[i]? = some instr →
      instr.Flows n script (lo + i) (σ (lo + i)) fun t r =>
        (lo ≤ t ∧ t ≤ lo + code.length ∧ σ t = r) ∨ X t r

namespace Segment

variable {n : Nat} {script : Bool} {X Y : Nat → Shape → Prop} {lo : Nat} {s r s' : Shape}

theorem iff_course {code : List Instr} :
    Segment n script X lo code s s' ↔ Course (Instr.Flows n script) X lo code s s' := Iff.rfl

theorem flows_monotone : Instr.Monotone (Instr.Flows n script) := fun _ _ _ _ _ hEF h => h.mono hEF

theorem nil : Segment n script X lo [] s s := iff_course.mpr .nil

theorem one {instr : Instr}
    (h : instr.Flows n script lo s fun t r => (t = lo + 1 ∧ r = s') ∨ X t r) :
    Segment n script X lo [instr] s s' := iff_course.mpr (.one flows_monotone h)

theorem append {c d : List Instr} (hc : Segment n script X lo c s r)
    (hd : Segment n script X (lo + c.length) d r s') : Segment n script X lo (c ++ d) s s' :=
  iff_course.mpr (.append flows_monotone hc hd)

theorem close {c : List Instr} (hc : Segment n script X lo c s s')
    (h : ∀ t r, X t r → Y t r ∨ (t = lo ∧ r = s) ∨ (t = lo + c.length ∧ r = s')) :
    Segment n script Y lo c s s' := iff_course.mpr (.close flows_monotone hc h)

end Segment

end ScriptEngine
