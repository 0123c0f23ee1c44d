import ScriptEngine.Proofs.Tree.Grammar
import ScriptEngine.Tree.Parser

namespace ScriptEngine

open Grammar (Names NamesProperty)

mutual

def Expr.Graded : Expr → Prop
  | .literal .. | .name .. | .this .. => True
  | .binary op left right _ => left.Graded ∧ right.Graded ∧ op.rank ≤ left.rank ∧ op.rank < right.rank
  | .logical op left right _ => left.Graded ∧ right.Graded ∧ op.rank ≤ left.rank ∧ op.rank < right.rank
  | .unary _ operand _ => operand.Graded ∧ 7 ≤ operand.rank
  | .assign target value _ => target.Graded ∧ value.Graded ∧ target.Assignable
  | .call callee args _ => callee.Graded ∧ callee.rank = 8 ∧ Expr.AllGraded args
  | .object entries _ => Expr.EntriesGraded entries
  | .group inner _ => inner.Graded
  | .index target key _ => target.Graded ∧ target.rank = 8 ∧ key.Graded
  | .field target _ _ => target.Graded ∧ target.rank = 8
  | .function _ => False

def Expr.AllGraded : List Expr → Prop
  | [] => True
  | x :: xs => x.Graded ∧ Expr.AllGraded xs

def Expr.EntriesGraded : List (String × Expr) → Prop
  | [] => True
  | (_, x) :: xs => x.Graded ∧ Expr.EntriesGraded xs

end

def Literal.SpeltBy (t : Token) : Literal → Prop
  | .number x => t.kind = .number ∧ Decimal.read? t.lexeme = some x
  | .string s => t.kind = .string ∧ t.lexeme = s
  | .boolean true => t.kind = .keyword .trueWord
  | .boolean false => t.kind = .keyword .falseWord
  | .null => t.kind = .keyword .nullWord

mutual

def Expr.SpeltBy : Expr → List Token → Prop
  | .literal value _, ts => ∃ t, ts = [t] ∧ value.SpeltBy t
  | .name id _, ts => ∃ t, ts = [t] ∧ Names t id
  | .this _, ts => ∃ t, ts = [t] ∧ t.kind = .keyword .thisWord
  | .binary op left right _, ts => ∃ ls t rs, ts = ls ++ t :: rs ∧ left.SpeltBy ls ∧ t.kind = .mark op.mark ∧
      right.SpeltBy rs
  | .logical op left right _, ts => ∃ ls t rs, ts = ls ++ t :: rs ∧ left.SpeltBy ls ∧ t.kind = .mark op.mark ∧
      right.SpeltBy rs
  | .unary op operand _, ts => ∃ t us, ts = t :: us ∧ t.kind = op.kind ∧ operand.SpeltBy us
  | .assign target value _, ts => ∃ us t vs, ts = us ++ t :: vs ∧ target.SpeltBy us ∧ t.kind = .mark .assign ∧
      value.SpeltBy vs
  | .call callee args _, ts => ∃ us first vs last, ts = us ++ first :: (vs ++ [last]) ∧ callee.SpeltBy us ∧
      first.kind = .mark .parenOpen ∧ Expr.AllSpeltBy args vs ∧ last.kind = .mark .parenClose
  | .object entries _, ts => ∃ first us last, ts = first :: (us ++ [last]) ∧ first.kind = .mark .braceOpen ∧
      Expr.EntriesSpeltBy entries us ∧ last.kind = .mark .braceClose
  | .group inner _, ts => ∃ first us last, ts = first :: (us ++ [last]) ∧ first.kind = .mark .parenOpen ∧
      inner.SpeltBy us ∧ last.kind = .mark .parenClose
  | .index target key _, ts => ∃ us first vs last, ts = us ++ first :: (vs ++ [last]) ∧ target.SpeltBy us ∧
      first.kind = .mark .bracketOpen ∧ key.SpeltBy vs ∧ last.kind = .mark .bracketClose
  | .field target id _, ts => ∃ us dot last, ts = us ++ [dot, last] ∧ target.SpeltBy us ∧ dot.kind = .mark .dot ∧
      NamesProperty last id
  | .function _, _ => False

def Expr.AllSpeltBy : List Expr → List Token → Prop
  | [], ts => ts = []
  | [x], ts => x.SpeltBy ts
  | x :: y :: xs, ts => ∃ us comma vs, ts = us ++ comma :: vs ∧ x.SpeltBy us ∧ comma.kind = .mark .comma ∧
      Expr.AllSpeltBy (y :: xs) vs

def Expr.EntriesSpeltBy : List (String × Expr) → List Token → Prop
  | [], ts => ts = []
  | (id, x) :: xs, ts => ∃ key colon us vs, ts = key :: colon :: (us ++ vs) ∧ NamesProperty key id ∧
      colon.kind = .mark .colon ∧ x.SpeltBy us ∧
      ((vs = [] ∧ xs = []) ∨ ∃ comma ws, vs = comma :: ws ∧ comma.kind = .mark .comma ∧ Expr.EntriesSpeltBy xs ws)

end

namespace Budget

def spent : Nat → Option Nat
  | 0 => none
  | b + 1 => some b

def lent (inner : Nat → Option Nat) (b : Nat) : Option Nat :=
  ((spent b).bind inner).map (· + 1)

theorem lt_of_spent {b b' : Nat} (h : spent b = some b') : b' < b := by
  cases b with
  | zero => cases h
  | succ b =>
    obtain rfl := Option.some.inj h
    exact Nat.lt_succ_self b

theorem le_of_lent {inner : Nat → Option Nat} (hinner : ∀ b b', inner b = some b' → b' ≤ b) {b b' : Nat}
    (h : lent inner b = some b') : b' ≤ b := by
  obtain ⟨b₂, hb₂, rfl⟩ := Option.map_eq_some_iff.mp h
  obtain ⟨b₁, hb₁, hb₂⟩ := Option.bind_eq_some_iff.mp hb₂
  have hlt := lt_of_spent hb₁
  have hle := hinner b₁ b₂ hb₂
  omega

end Budget

open Budget

mutual

/-- The units that are left when the expression was read, if there were enough of them: what stands in
brackets or behind a sign borrows a unit, and each link of a chain keeps one. -/
def Expr.unitsLeft : Expr → Nat → Option Nat
  | .literal .., b | .name .., b | .this .., b => some b
  | .binary _ left right _, b => ((left.unitsLeft b).bind spent).bind right.unitsLeft
  | .logical _ left right _, b => ((left.unitsLeft b).bind spent).bind right.unitsLeft
  | .unary _ operand _, b => lent operand.unitsLeft b
  | .assign target value _, b => (target.unitsLeft b).bind (lent value.unitsLeft)
  | .call callee args _, b => ((callee.unitsLeft b).bind spent).bind (Expr.allUnitsLeft args)
  | .object entries _, b => Expr.entriesUnitsLeft entries b
  | .group inner _, b => lent inner.unitsLeft b
  | .index target key _, b => ((target.unitsLeft b).bind spent).bind (lent key.unitsLeft)
  | .field target _ _, b => (target.unitsLeft b).bind spent
  | .function _, _ => none

def Expr.allUnitsLeft : List Expr → Nat → Option Nat
  | [], b => some b
  | x :: xs, b => (lent x.unitsLeft b).bind (Expr.allUnitsLeft xs)

def Expr.entriesUnitsLeft : List (String × Expr) → Nat → Option Nat
  | [], b => some b
  | (_, x) :: xs, b => (lent x.unitsLeft b).bind (Expr.entriesUnitsLeft xs)

end

mutual

theorem Expr.unitsLeft_le : ∀ (e : Expr) {b b' : Nat}, e.unitsLeft b = some b' → b' ≤ b
  | .literal .., b, b', h | .name .., b, b', h | .this .., b, b', h => by
    rw [unitsLeft] at h
    exact Nat.le_of_eq (Option.some.inj h).symm
  | .binary _ left right _, b, b', h | .logical _ left right _, b, b', h => by
    rw [unitsLeft] at h
    obtain ⟨b₂, hb₂, hright⟩ := Option.bind_eq_some_iff.mp h
    obtain ⟨b₁, hleft, hspent⟩ := Option.bind_eq_some_iff.mp hb₂
    have hlt := lt_of_spent hspent
    have h₁ := left.unitsLeft_le hleft
    have h₂ := right.unitsLeft_le hright
    omega
  | .unary _ inner _, b, b', h | .group inner _, b, b', h => by
    rw [unitsLeft] at h
    exact le_of_lent (fun _ _ => inner.unitsLeft_le) h
  | .assign target value _, b, b', h => by
    rw [unitsLeft] at h
    obtain ⟨b₁, htarget, hvalue⟩ := Option.bind_eq_some_iff.mp h
    exact Nat.le_trans (le_of_lent (fun _ _ => value.unitsLeft_le) hvalue) (target.unitsLeft_le htarget)
  | .call callee args _, b, b', h => by
    rw [unitsLeft] at h
    obtain ⟨b₂, hb₂, hargs⟩ := Option.bind_eq_some_iff.mp h
    obtain ⟨b₁, hcallee, hspent⟩ := Option.bind_eq_some_iff.mp hb₂
    have hlt := lt_of_spent hspent
    have h₁ := callee.unitsLeft_le hcallee
    have h₂ := Expr.allUnitsLeft_le args hargs
    omega
  | .object entries _, b, b', h => by
    rw [unitsLeft] at h
    exact Expr.entriesUnitsLeft_le entries h
  | .index target key _, b, b', h => by
    rw [unitsLeft] at h
    obtain ⟨b₂, hb₂, hkey⟩ := Option.bind_eq_some_iff.mp h
    obtain ⟨b₁, htarget, hspent⟩ := Option.bind_eq_some_iff.mp hb₂
    have hlt := lt_of_spent hspent
    have h₁ := target.unitsLeft_le htarget
    have h₂ := le_of_lent (fun _ _ => key.unitsLeft_le) hkey
    omega
  | .field target _ _, b, b', h => by
    rw [unitsLeft] at h
    obtain ⟨b₁, htarget, hspent⟩ := Option.bind_eq_some_iff.mp h
    have hlt := lt_of_spent hspent
    have h₁ := target.unitsLeft_le htarget
    omega
  | .function _, b, b', h => by
    rw [unitsLeft] at h
    cases h

theorem Expr.allUnitsLeft_le : ∀ (xs : List Expr) {b b' : Nat}, Expr.allUnitsLeft xs b = some b' → b' ≤ b
  | [], b, b', h => by
    rw [allUnitsLeft] at h
    exact Nat.le_of_eq (Option.some.inj h).symm
  | x :: xs, b, b', h => by
    rw [allUnitsLeft] at h
    obtain ⟨b₁, hx, hxs⟩ := Option.bind_eq_some_iff.mp h
    exact Nat.le_trans (Expr.allUnitsLeft_le xs hxs) (le_of_lent (fun _ _ => x.unitsLeft_le) hx)

theorem Expr.entriesUnitsLeft_le : ∀ (xs : List (String × Expr)) {b b' : Nat},
    Expr.entriesUnitsLeft xs b = some b' → b' ≤ b
  | [], b, b', h => by
    rw [entriesUnitsLeft] at h
    exact Nat.le_of_eq (Option.some.inj h).symm
  | (_, x) :: xs, b, b', h => by
    rw [entriesUnitsLeft] at h
    obtain ⟨b₁, hx, hxs⟩ := Option.bind_eq_some_iff.mp h
    exact Nat.le_trans (Expr.entriesUnitsLeft_le xs hxs) (le_of_lent (fun _ _ => x.unitsLeft_le) hx)

end

def TokenKind.rank? : TokenKind → Option Nat
  | .mark .assign => some 0
  | .mark .doublePipe => some 1
  | .mark .doubleAmpersand => some 2
  | .mark .equalEqual | .mark .bangEqual | .mark .equalEqualEqual | .mark .bangEqualEqual => some 3
  | .mark .less | .mark .lessEqual | .mark .greater | .mark .greaterEqual => some 4
  | .mark .plus | .mark .minus => some 5
  | .mark .star | .mark .slash | .mark .percent => some 6
  | .mark .parenOpen | .mark .bracketOpen | .mark .dot => some 8
  | _ => none

def Stops (r : Nat) (ts : List Token) : Prop :=
  ∀ t ∈ ts.head?, ∀ k ∈ t.kind.rank?, k < r

theorem Stops.mono {r r' : Nat} {ts : List Token} (h : Stops r ts) (hr : r ≤ r') : Stops r' ts :=
  fun t ht k hk => Nat.lt_of_lt_of_le (h t ht k hk) hr

theorem Stops.nil {r : Nat} : Stops r [] :=
  nofun

theorem Stops.cons {r : Nat} {t : Token} {ts : List Token} (h : ∀ k ∈ t.kind.rank?, k < r) : Stops r (t :: ts) := by
  rintro _ ⟨⟩
  exact h

theorem Stops.unranked {r : Nat} {t : Token} {ts : List Token} {kind : TokenKind} (ht : t.kind = kind)
    (hkind : kind.rank? = none) : Stops r (t :: ts) := by
  refine .cons fun k hk => ?_
  rw [ht, hkind] at hk
  cases hk

theorem Stops.rank?_ne {r : Nat} {ts : List Token} (h : Stops r ts) : ∀ t ∈ ts.head?, t.kind.rank? ≠ some r :=
  fun t ht hr => Nat.lt_irrefl r (h t ht r hr)

theorem Expr.SpeltBy.head : ∀ {e : Expr} {ts : List Token}, e.SpeltBy ts → e.Graded →
    ∃ t us, ts = t :: us ∧ t.kind ≠ .mark .parenClose ∧ (e.rank = 8 → Parser.unaryOp? t = none)
  | .literal value _, ts, h, _ => by
    rw [SpeltBy] at h
    obtain ⟨t, rfl, ht⟩ := h
    refine ⟨t, [], rfl, ?_⟩
    match value, ht with
    | .number _, ht | .string _, ht => simp [Parser.unaryOp?, ht.1]
    | .boolean true, ht | .boolean false, ht | .null, ht =>
      rw [Literal.SpeltBy] at ht
      simp [Parser.unaryOp?, ht]
  | .name .., ts, h, _ => by
    rw [SpeltBy] at h
    obtain ⟨t, rfl, ht⟩ := h
    exact ⟨t, [], rfl, by simp [ht.1], fun _ => by simp [Parser.unaryOp?, ht.1]⟩
  | .this _, ts, h, _ => by
    rw [SpeltBy] at h
    obtain ⟨t, rfl, ht⟩ := h
    exact ⟨t, [], rfl, by simp [ht], fun _ => by simp [Parser.unaryOp?, ht]⟩
  | .object .., ts, h, _ | .group .., ts, h, _ => by
    rw [SpeltBy] at h
    obtain ⟨first, us, last, rfl, hfirst, _⟩ := h
    exact ⟨first, _, rfl, by simp [hfirst], fun _ => by simp [Parser.unaryOp?, hfirst]⟩
  | .call callee _ _, ts, h, hg => by
    rw [SpeltBy] at h
    rw [Graded] at hg
    obtain ⟨us, first, vs, last, rfl, hcallee, _⟩ := h
    obtain ⟨t, us, rfl, ht, hsign⟩ := hcallee.head hg.1
    exact ⟨t, _, rfl, ht, fun _ => hsign hg.2.1⟩
  | .index target _ _, ts, h, hg => by
    rw [SpeltBy] at h
    rw [Graded] at hg
    obtain ⟨us, first, vs, last, rfl, htarget, _⟩ := h
    obtain ⟨t, us, rfl, ht, hsign⟩ := htarget.head hg.1
    exact ⟨t, _, rfl, ht, fun _ => hsign hg.2.1⟩
  | .field target _ _, ts, h, hg => by
    rw [SpeltBy] at h
    rw [Graded] at hg
    obtain ⟨us, dot, last, rfl, htarget, _⟩ := h
    obtain ⟨t, us, rfl, ht, hsign⟩ := htarget.head hg.1
    exact ⟨t, _, rfl, ht, fun _ => hsign hg.2⟩
  | .unary op _ _, ts, h, _ => by
    rw [SpeltBy] at h
    obtain ⟨t, us, rfl, ht, _⟩ := h
    refine ⟨t, us, rfl, ?_, by simp [rank]⟩
    cases op <;> simp [ht, UnaryOp.kind]
  | .assign target _ _, ts, h, hg => by
    rw [SpeltBy] at h
    rw [Graded] at hg
    obtain ⟨us, equals, vs, rfl, htarget, _⟩ := h
    obtain ⟨t, us, rfl, ht, _⟩ := htarget.head hg.1
    exact ⟨t, _, rfl, ht, by simp [rank]⟩
  | .binary op left _ _, ts, h, hg => by
    rw [SpeltBy] at h
    rw [Graded] at hg
    obtain ⟨us, mark, vs, rfl, hleft, _⟩ := h
    obtain ⟨t, us, rfl, ht, _⟩ := hleft.head hg.1
    exact ⟨t, _, rfl, ht, by cases op <;> simp [rank, BinaryOp.rank]⟩
  | .logical op left _ _, ts, h, hg => by
    rw [SpeltBy] at h
    rw [Graded] at hg
    obtain ⟨us, mark, vs, rfl, hleft, _⟩ := h
    obtain ⟨t, us, rfl, ht, _⟩ := hleft.head hg.1
    exact ⟨t, _, rfl, ht, by cases op <;> simp [rank, LogicalOp.rank]⟩
  | .function _, ts, h, _ => by
    rw [SpeltBy] at h
    exact h.elim

theorem Expr.AllSpeltBy.head {x : Expr} {xs : List Expr} {ts : List Token} (h : Expr.AllSpeltBy (x :: xs) ts)
    (hg : Expr.AllGraded (x :: xs)) : ∃ t us, ts = t :: us ∧ t.kind ≠ .mark .parenClose := by
  rw [AllGraded] at hg
  cases xs with
  | nil =>
    rw [AllSpeltBy] at h
    obtain ⟨t, us, rfl, ht, _⟩ := h.head hg.1
    exact ⟨t, us, rfl, ht⟩
  | cons y ys =>
    rw [AllSpeltBy] at h
    obtain ⟨us, comma, vs, rfl, hx, _⟩ := h
    obtain ⟨t, us, rfl, ht, _⟩ := hx.head hg.1
    exact ⟨t, _, rfl, ht⟩

theorem Expr.AllSpeltBy.length_le :
    ∀ {xs : List Expr} {ts : List Token}, Expr.AllSpeltBy xs ts → xs.length ≤ ts.length + 1
  | [], _, _ => Nat.zero_le _
  | [_], _, _ => Nat.le_add_left ..
  | x :: y :: xs, ts, h => by
    rw [AllSpeltBy] at h
    obtain ⟨us, comma, vs, rfl, _, _, hrest⟩ := h
    have hle := hrest.length_le
    simp only [List.length_cons, List.length_append] at hle ⊢
    omega

theorem Expr.EntriesSpeltBy.length_le : ∀ {xs : List (String × Expr)} {ts : List Token},
    Expr.EntriesSpeltBy xs ts → xs.length ≤ ts.length
  | [], _, _ => Nat.zero_le _
  | (_, x) :: xs, ts, h => by
    rw [EntriesSpeltBy] at h
    obtain ⟨key, colon, us, vs, rfl, _, _, _, ⟨rfl, rfl⟩ | ⟨comma, ws, rfl, _, hrest⟩⟩ := h
    · simp
    · have hle := hrest.length_le
      simp only [List.length_cons, List.length_append]
      omega

inductive Expr.Joined : Expr → Mark → Expr → Expr → Prop
  | binary (op : BinaryOp) (left right : Expr) (s : Span) : Joined (.binary op left right s) op.mark left right
  | logical (op : LogicalOp) (left right : Expr) (s : Span) : Joined (.logical op left right s) op.mark left right

namespace Expr.Joined

variable {e left right : Expr} {m : Mark}

theorem graded (h : e.Joined m left right) (hg : e.Graded) :
    left.Graded ∧ right.Graded ∧ e.rank ≤ left.rank ∧ e.rank < right.rank := by
  cases h with
  | binary | logical => rwa [Graded] at hg

theorem spelt (h : e.Joined m left right) {ts : List Token} (hs : e.SpeltBy ts) :
    ∃ ls t rs, ts = ls ++ t :: rs ∧ left.SpeltBy ls ∧ t.kind = .mark m ∧ right.SpeltBy rs := by
  cases h with
  | binary | logical => rwa [SpeltBy] at hs

theorem unitsLeft (h : e.Joined m left right) (b : Nat) :
    e.unitsLeft b = (left.unitsLeft b).bind fun b' => (spent b').bind right.unitsLeft := by
  cases h with
  | binary | logical => rw [Expr.unitsLeft, Option.bind_assoc]

theorem rank?_mark (h : e.Joined m left right) : TokenKind.rank? (.mark m) = some e.rank := by
  cases h with
  | binary op => cases op <;> rfl
  | logical op => cases op <;> rfl

theorem sizeOf_lt (h : e.Joined m left right) : sizeOf left < sizeOf e := by
  cases h with
  | binary | logical => simp; omega

end Expr.Joined

theorem Expr.joined_of_rank {e : Expr} (h : 1 ≤ e.rank) (h' : e.rank ≤ 6) : ∃ m left right, e.Joined m left right := by
  cases e with
  | binary op left right s => exact ⟨_, _, _, .binary op left right s⟩
  | logical op left right s => exact ⟨_, _, _, .logical op left right s⟩
  | _ => simp [rank] at h h'

theorem Expr.unary_of_rank {e : Expr} (h : e.rank = 7) : ∃ op operand s, e = .unary op operand s := by
  cases e with
  | unary op operand s => exact ⟨op, operand, s, rfl⟩
  | binary op => cases op <;> simp [rank, BinaryOp.rank] at h
  | logical op => cases op <;> simp [rank, LogicalOp.rank] at h
  | _ => simp [rank] at h

theorem Expr.assign_of_rank {e : Expr} (h : e.rank = 0) : ∃ target value s, e = .assign target value s := by
  cases e with
  | assign target value s => exact ⟨target, value, s, rfl⟩
  | binary op => cases op <;> simp [rank, BinaryOp.rank] at h
  | logical op => cases op <;> simp [rank, LogicalOp.rank] at h
  | _ => simp [rank] at h

end ScriptEngine
