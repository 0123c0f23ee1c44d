namespace ScriptEngine

structure Position where
  offset : Nat
  line : Nat
deriving DecidableEq, Repr

namespace Position

def start : Position := ⟨0, 1⟩

def step (p : Position) (c : Char) : Position :=
  ⟨p.offset + c.utf8Size, if c = '\n' then p.line + 1 else p.line⟩

def byteLength : List Char → Nat
  | [] => 0
  | c :: cs => c.utf8Size + byteLength cs

def past (p : Position) (cs : List Char) : Position :=
  cs.foldl step p

@[simp] theorem past_nil (p : Position) : p.past [] = p := rfl

@[simp] theorem past_cons (p : Position) (c : Char) (cs : List Char) :
    p.past (c :: cs) = (p.step c).past cs := rfl

theorem past_append (p : Position) (cs ds : List Char) :
    p.past (cs ++ ds) = (p.past cs).past ds := by
  simp [past, List.foldl_append]

theorem offset_past (p : Position) (cs : List Char) :
    (p.past cs).offset = p.offset + byteLength cs := by
  induction cs generalizing p with
  | nil => rfl
  | cons c cs ih => rw [past_cons, ih, step, byteLength, Nat.add_assoc]

theorem line_past (p : Position) (cs : List Char) :
    (p.past cs).line = p.line + cs.count '\n' := by
  induction cs generalizing p with
  | nil => rfl
  | cons c cs ih =>
    rw [past_cons, ih, step]
    by_cases hc : c = '\n'
    · simp only [hc, if_true, List.count_cons_self]
      omega
    · simp [hc]

end Position

/-- The bytes from `first` up to `last`, which is not included, and the line of the first. -/
structure Span where
  first : Nat
  last : Nat
  line : Nat
deriving DecidableEq, Repr

namespace Span

def between (p q : Position) : Span :=
  ⟨p.offset, q.offset, p.line⟩

def through (s t : Span) : Span :=
  ⟨s.first, t.last, s.line⟩

end Span

end ScriptEngine
