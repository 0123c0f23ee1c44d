import Mathlib.Tactic.Linarith
import ScriptEngine.Tree.Parser

/-!
How deep accepted trees are. A unit that was lent for a nested part is there again for the links of
a chain around that part, and the statements of a function body give back all that they used. So
the depth of a tree is not bounded by the budget itself but by its square.
-/

namespace ScriptEngine

mutual

/-- The statements and expressions on the longest way down. -/
def Expr.depth : Expr → Nat
  | .literal _ _ | .name _ _ | .this _ => 1
  | .binary _ left right _ | .logical _ left right _ => max left.depth right.depth + 1
  | .unary _ operand _ => operand.depth + 1
  | .assign target value _ => max target.depth value.depth + 1
  | .call callee args _ => max callee.depth (Expr.depths args) + 1
  | .object entries _ => Expr.entryDepths entries + 1
  | .group inner _ => inner.depth + 1
  | .index target index _ => max target.depth index.depth + 1
  | .field target _ _ => target.depth + 1
  | .function decl => decl.depth + 1

def Expr.depths : List Expr → Nat
  | [] => 0
  | x :: xs => max x.depth (Expr.depths xs)

def Expr.entryDepths : List (String × Expr) → Nat
  | [] => 0
  | (_, x) :: xs => max x.depth (Expr.entryDepths xs)

def Expr.bindingDepths : List (String × Option Expr) → Nat
  | [] => 0
  | (_, none) :: xs => Expr.bindingDepths xs
  | (_, some x) :: xs => max x.depth (Expr.bindingDepths xs)

def FunctionDecl.depth : FunctionDecl → Nat
  | ⟨_, _, body, _⟩ => Stmt.depths body

def Stmt.depth : Stmt → Nat
  | .var bindings _ => Expr.bindingDepths bindings + 1
  | .function decl => decl.depth + 1
  | .expr value => value.depth + 1
  | .block items _ => Stmt.depths items + 1
  | .cond condition yes none _ => max condition.depth yes.depth + 1
  | .cond condition yes (some no) _ => max condition.depth (max yes.depth no.depth) + 1
  | .loop condition body _ => max condition.depth body.depth + 1
  | .return none _ => 1
  | .return (some value) _ => value.depth + 1
  | .throw value _ => value.depth + 1
  | .try body _ handler _ => max (Stmt.depths body) (Stmt.depths handler) + 1
  | .empty _ => 1

def Stmt.depths : List Stmt → Nat
  | [] => 0
  | x :: xs => max x.depth (Stmt.depths xs)

end

namespace Parser

def Leaves {α : Type} (p : ParseM α) (Q : α → Nat → Prop) (c : Cursor) : Prop :=
  ∀ a c', p c = .ok (a, c') → Q a c'.budget

namespace Leaves

variable {α β : Type} {p : ParseM α} {Q Q' : α → Nat → Prop} {c : Cursor}

theorem mono (h : Leaves p Q c) (hQ : ∀ a b, Q a b → Q' a b) : Leaves p Q' c :=
  fun a c' hp => hQ _ _ (h a c' hp)

theorem pure {a : α} (h : Q a c.budget) : Leaves (Pure.pure a) Q c := by
  intro a' c' hp
  cases hp
  exact h

theorem bind {f : α → ParseM β} {Q : β → Nat → Prop}
    (h : Leaves p (fun a b => ∀ c', c'.budget = b → Leaves (f a) Q c') c) : Leaves (p >>= f) Q c := by
  intro b c' hp
  cases hx : p c with
  | error e =>
    have hb : (p >>= f) c = .error e := by
      show Except.bind (p c) _ = _
      rw [hx]
      rfl
    rw [hb] at hp
    cases hp
  | ok found =>
    obtain ⟨a, c₁⟩ := found
    have hb : (p >>= f) c = f a c₁ := by
      show Except.bind (p c) _ = _
      rw [hx]
      rfl
    rw [hb] at hp
    exact h a c₁ hx c₁ rfl b c' hp

theorem bind_ok {f : α → ParseM β} {Q : β → Nat → Prop} {a : α} {c' : Cursor} (hp : p c = .ok (a, c'))
    (h : Leaves (f a) Q c') : Leaves (p >>= f) Q c := by
  intro b d hd
  have hb : (p >>= f) c = f a c' := by
    show Except.bind (p c) _ = _
    rw [hp]
    rfl
  rw [hb] at hd
  exact h b d hd

theorem get {f : Cursor → ParseM β} {Q : β → Nat → Prop} (h : Leaves (f c) Q c) :
    Leaves (MonadState.get >>= f) Q c := h

theorem set {d : Cursor} {Q : PUnit → Nat → Prop} (h : Q ⟨⟩ d.budget) : Leaves (MonadStateOf.set d) Q c := by
  intro a c' hp
  cases hp
  exact h

theorem modify {f : Cursor → Cursor} {Q : PUnit → Nat → Prop} (h : Q ⟨⟩ (f c).budget) :
    Leaves (modifyThe Cursor f) Q c := by
  intro a c' hp
  cases hp
  exact h

theorem failAt (span : Span) (fault : ParseFault) : Leaves (Parser.failAt span fault : ParseM α) Q c := by
  intro a c' hp
  cases hp

theorem fail (fault : ParseFault) : Leaves (Parser.fail fault : ParseM α) Q c :=
  get (failAt _ fault)

end Leaves

section Budget

variable {α : Type} {c : Cursor}

def Kept (c : Cursor) {α : Type} : α → Nat → Prop :=
  fun _ b => b = c.budget

theorem sees_leaves (kind : TokenKind) : Leaves (sees kind) (Kept c) c :=
  .get (.pure rfl)

theorem rounds_leaves : Leaves rounds (Kept c) c :=
  .get (.pure rfl)

theorem takeIf_leaves (test : Token → Option α) : Leaves (takeIf test) (Kept c) c := by
  refine .get ?_
  cases c.rest with
  | nil => exact .pure rfl
  | cons t ts =>
    dsimp only
    cases test t with
    | none => exact .pure rfl
    | some a => exact .bind (.set fun c' hc => .pure hc)

theorem accept_leaves (kind : TokenKind) : Leaves (accept kind) (Kept c) c :=
  .bind ((takeIf_leaves _).mono fun _ _ hb _ hc => .pure (hc.trans hb))

theorem accept_unseen {kind : TokenKind} (h : c.sees kind = false) : accept kind c = .ok (none, c) := by
  obtain ⟨rest, finish, budget⟩ := c
  cases rest with
  | nil => rfl
  | cons t ts =>
    have ht : t.kind ≠ kind := by
      simpa [Cursor.sees, Cursor.kind?] using h
    have hnone : (if t.kind = kind then some () else none) = none := if_neg ht
    unfold accept takeIf
    simp only [bind, StateT.bind, Except.bind, get, getThe, MonadStateOf.get, StateT.get, pure, Except.pure, hnone]
    rfl

theorem require_leaves (test : Token → Option α) (what : Expected) : Leaves (require test what) (Kept c) c := by
  refine .bind ((takeIf_leaves test).mono fun found b hb c' hc => ?_)
  cases found with
  | none => exact .get (.fail _)
  | some found => exact .pure (hc.trans hb)

theorem requireKind_leaves (kind : TokenKind) (what : Expected) : Leaves (requireKind kind what) (Kept c) c :=
  require_leaves _ what

theorem requireMark_leaves (m : Mark) (what : Expected) : Leaves (requireMark m what) (Kept c) c :=
  .bind ((requireKind_leaves _ what).mono fun _ _ hb _ hc => .pure (hc.trans hb))

theorem requireKeyword_leaves (k : Keyword) : Leaves (requireKeyword k) (Kept c) c :=
  .bind ((requireKind_leaves _ _).mono fun _ _ hb _ hc => .pure (hc.trans hb))

theorem optionalSemicolon_leaves : Leaves optionalSemicolon (Kept c) c :=
  .bind ((accept_leaves _).mono fun _ _ hb _ hc => .pure (hc.trans hb))

theorem spend_leaves : Leaves spend (fun _ b => b + 1 = c.budget) c := by
  refine .get ?_
  cases hb : c.budget with
  | zero => exact .fail _
  | succ n => exact .set rfl

theorem lend_leaves {p : ParseM α} {Q : α → Nat → Prop}
    (h : ∀ d, d.budget + 1 = c.budget → Leaves p (fun a b => Q a (b + 1)) d) : Leaves (lend p) Q c := by
  refine .bind (spend_leaves.mono fun _ b hb d hd => .bind ((h d (by omega)).mono fun a b hQ d' hd' => ?_))
  refine .bind (.modify fun d'' hd'' => .pure ?_)
  rw [hd'', hd']
  exact hQ

theorem restoring_leaves {p : ParseM α} {Q : α → Prop}
    (h : ∀ d, d.budget + 1 = c.budget → Leaves p (fun a _ => Q a) d) :
    Leaves (restoring p) (fun a b => Q a ∧ b = c.budget) c := by
  refine .get (.bind (spend_leaves.mono fun _ b hb d hd => .bind ((h d (by omega)).mono fun a b hQ d' hd' => ?_)))
  exact .bind (.modify fun d'' hd'' => .pure ⟨hQ, hd''⟩)

end Budget

structure Operand (b d b' : Nat) : Prop where
  left : b' ≤ b
  depth : 4 * (d + b') ≤ b * (b + 11) + 4

structure Assigned (b d b' : Nat) : Prop where
  left : b' ≤ b
  depth : 4 * (d + b') ≤ b * (b + 9) + 2

def Stated (b d : Nat) : Prop :=
  4 * d ≤ b * (b + 7)

section Arithmetic

variable {b b₁ b₂ b₃ d d' : Nat}

theorem operand_one (b : Nat) : Operand b 1 b :=
  ⟨Nat.le_refl _, by nlinarith⟩

theorem Operand.link (h : Operand b d b₁) (hs : b₂ + 1 = b₁) (h' : Operand b₂ d' b₃) :
    Operand b (max d d' + 1) b₃ := by
  obtain ⟨hb, hd⟩ := h
  obtain ⟨hb', hd'⟩ := h'
  refine ⟨by omega, ?_⟩
  rcases max_cases d d' with ⟨hm, -⟩ | ⟨hm, -⟩
  · rw [hm]
    omega
  · rw [hm]
    nlinarith

theorem Operand.unlinked (h : Operand b d b₁) (hs : b₂ ≤ b₁) : Operand b d b₂ :=
  ⟨Nat.le_trans hs h.left, by have := h.depth; omega⟩

theorem Operand.field (h : Operand b d b₁) (hs : b₂ + 1 = b₁) : Operand b (d + 1) b₂ :=
  ⟨by have := h.left; omega, by have := h.depth; omega⟩

theorem Operand.unary (h : Operand b d b₁) : Operand (b + 1) (d + 1) (b₁ + 1) := by
  obtain ⟨hb, hd⟩ := h
  exact ⟨by omega, by nlinarith⟩

theorem Operand.assigned (h : Operand b d b₁) : Assigned (b + 1) d (b₁ + 1) := by
  obtain ⟨hb, hd⟩ := h
  exact ⟨by omega, by nlinarith⟩

theorem Operand.assign (h : Operand b d b₁) (h' : Assigned b₁ d' b₂) :
    Assigned (b + 1) (max d d' + 1) (b₂ + 1) := by
  obtain ⟨hb, hd⟩ := h
  obtain ⟨hb', hd'⟩ := h'
  refine ⟨by omega, ?_⟩
  rcases max_cases d d' with ⟨hm, -⟩ | ⟨hm, -⟩
  · rw [hm]
    nlinarith
  · rw [hm]
    nlinarith

theorem assigned_zero (b : Nat) : Assigned b 0 b :=
  ⟨Nat.le_refl _, by nlinarith⟩

theorem Assigned.operand (h : Assigned b d b₁) : Operand b d b₁ :=
  ⟨h.left, by have := h.depth; nlinarith⟩

theorem Assigned.wrapped (h : Assigned b d b₁) : Operand b (d + 1) b₁ := by
  obtain ⟨hb, hd⟩ := h
  refine ⟨hb, ?_⟩
  cases b with
  | zero => omega
  | succ b => nlinarith

theorem Assigned.both (h : Assigned b d b₁) (h' : Assigned b₁ d' b₂) : Assigned b (max d d') b₂ := by
  obtain ⟨hb, hd⟩ := h
  obtain ⟨hb', hd'⟩ := h'
  refine ⟨by omega, ?_⟩
  rcases max_cases d d' with ⟨hm, -⟩ | ⟨hm, -⟩
  · rw [hm]
    omega
  · rw [hm]
    nlinarith

theorem Assigned.stated (h : Assigned b d b₁) : Stated (b + 1) (d + 1) := by
  obtain ⟨hb, hd⟩ := h
  unfold Stated
  nlinarith

theorem stated_zero (b : Nat) : Stated b 0 := Nat.zero_le _

theorem Stated.both (h : Stated b d) (h' : Stated b d') : Stated b (max d d') := by
  rcases max_cases d d' with ⟨hm, -⟩ | ⟨hm, -⟩ <;> rw [hm] <;> assumption

theorem Stated.wrapped (h : Stated b d) : Stated (b + 1) (d + 1) := by
  unfold Stated at h ⊢
  nlinarith

theorem Stated.function (h : Stated b d) : Operand b (d + 1) b :=
  ⟨Nat.le_refl _, by unfold Stated at h; nlinarith⟩

theorem Stated.conditional (h : Assigned b d b₁) (h' : Stated b₁ d') : Stated (b + 1) (max d d' + 1) := by
  rcases max_cases d d' with ⟨hm, -⟩ | ⟨hm, -⟩
  · rw [hm]
    exact h.stated
  · rw [hm]
    have hb := h.left
    unfold Stated at h' ⊢
    nlinarith

end Arithmetic

section Lists

variable {α : Type} {item : ParseM α} {depth : α → Nat} (depths : List α → Nat)

theorem upTo_leaves (hnil : depths [] = 0) (hcons : ∀ x xs, depths (x :: xs) = max (depth x) (depths xs))
    (hitem : ∀ c, Leaves item (fun x b => Stated c.budget (depth x) ∧ b = c.budget) c)
    (done : Cursor → Bool) (n : Nat) (c : Cursor) :
    Leaves (upTo done item n) (fun xs b => Stated c.budget (depths xs) ∧ b = c.budget) c := by
  induction n generalizing c with
  | zero => exact .fail _
  | succ n ih =>
    refine .get ?_
    split
    · refine .pure ⟨?_, rfl⟩
      rw [hnil]
      exact stated_zero _
    · refine .bind ((hitem c).mono fun x b hx c₁ hc₁ => .bind ((ih c₁).mono fun xs b' hxs c₂ hc₂ => .pure ?_))
      rw [hc₁, hx.2] at hxs
      rw [hcons]
      exact ⟨hx.1.both hxs.1, hc₂.trans hxs.2⟩

theorem separated_leaves (hnil : depths [] = 0)
    (hcons : ∀ x xs, depths (x :: xs) = max (depth x) (depths xs))
    (hitem : ∀ c, Leaves item (fun x b => Assigned c.budget (depth x) b) c) (n : Nat) (c : Cursor) :
    Leaves (separated item n) (fun xs b => Assigned c.budget (depths xs) b) c := by
  induction n generalizing c with
  | zero => exact .fail _
  | succ n ih =>
    refine .bind ((hitem c).mono fun x b hx c₁ hc₁ => .bind ((accept_leaves _).mono fun comma b' hb' c₂ hc₂ => ?_))
    have hsame : c₂.budget = b := hc₂.trans (hb'.trans hc₁)
    cases comma with
    | some _ =>
      refine .bind ((ih c₂).mono fun xs b'' hxs c₃ hc₃ => .pure ?_)
      rw [hsame] at hxs
      rw [hcons, hc₃]
      exact hx.both hxs
    | none =>
      refine .pure ?_
      rw [hcons, hnil, Nat.max_zero, hsame]
      exact hx

theorem listed_leaves (hnil : depths [] = 0)
    (hcons : ∀ x xs, depths (x :: xs) = max (depth x) (depths xs))
    (hitem : ∀ c, Leaves item (fun x b => Assigned c.budget (depth x) b) c) (close : Mark) (n : Nat) (c : Cursor) :
    Leaves (listed close item n) (fun xs b => Assigned c.budget (depths xs) b) c := by
  induction n generalizing c with
  | zero => exact .fail _
  | succ n ih =>
    refine .bind ((sees_leaves _).mono fun closed b hb c₁ hc₁ => ?_)
    have hsame : c₁.budget = c.budget := hc₁.trans hb
    split
    · refine .pure ?_
      rw [hnil, hsame]
      exact assigned_zero _
    · refine .bind ((hitem c₁).mono fun x b hx c₂ hc₂ => .bind ((accept_leaves _).mono fun comma b' hb' c₃ hc₃ => ?_))
      have hsame' : c₃.budget = b := hc₃.trans (hb'.trans hc₂)
      rw [hsame] at hx
      cases comma with
      | some _ =>
        refine .bind ((ih c₃).mono fun xs b'' hxs c₄ hc₄ => .pure ?_)
        rw [hsame'] at hxs
        rw [hcons, hc₄]
        exact hx.both hxs
      | none =>
        refine .pure ?_
        rw [hcons, hnil, Nat.max_zero, hsame']
        exact hx

end Lists

section Chains

def Links (link : Expr → ParseM (Option Expr)) : Prop :=
  ∀ b left c, Operand b left.depth c.budget →
    Leaves (link left) (fun longer b' => match longer with
      | some x => Operand b x.depth b'
      | none => b' ≤ c.budget) c

variable {first : ParseM Expr} {link : Expr → ParseM (Option Expr)}

theorem chain_leaves (hlink : Links link) {b : Nat} (n : Nat) (left : Expr) (c : Cursor)
    (hl : Operand b left.depth c.budget) :
    Leaves (chain link n left) (fun x b' => Operand b x.depth b') c := by
  induction n generalizing left c with
  | zero => exact .fail _
  | succ n ih =>
    refine .bind ((hlink b left c hl).mono fun longer b' hb c' hc => ?_)
    cases longer with
    | some x => exact ih x c' (hc ▸ hb)
    | none => exact .pure (hl.unlinked (hc ▸ hb))

theorem chained_leaves (hfirst : ∀ c, Leaves first (fun x b => Operand c.budget x.depth b) c)
    (hlink : Links link) (c : Cursor) :
    Leaves (chained first link) (fun x b => Operand c.budget x.depth b) c :=
  .bind ((hfirst c).mono fun left _ hl c' hc =>
    .get (chain_leaves hlink _ left c' (hc ▸ hl)))

theorem level_leaves {ω : Type} {op? : Token → Option ω} {join : ω → Expr → Expr → Span → Expr}
    (hjoin : ∀ op l r s, (join op l r s).depth = max l.depth r.depth + 1) {operand : ParseM Expr}
    (hoperand : ∀ c, Leaves operand (fun x b => Operand c.budget x.depth b) c) (c : Cursor) :
    Leaves (level op? join operand) (fun x b => Operand c.budget x.depth b) c := by
  refine chained_leaves hoperand (fun _ left c hl => ?_) c
  refine .bind ((takeIf_leaves op?).mono fun found b₁ hb₁ c₁ hc₁ => ?_)
  have hsame : c₁.budget = c.budget := hc₁.trans hb₁
  cases found with
  | none => exact .pure (Nat.le_of_eq hsame)
  | some found =>
    refine .bind (spend_leaves.mono fun _ b₂ hb₂ c₂ hc₂ => .bind ((hoperand c₂).mono fun right _ hr c₃ hc₃ => .pure ?_))
    simp only [hjoin, hc₃]
    exact hl.link (by omega) hr

end Chains

structure Nested.Bounded (nested : Nested) : Prop where
  statement : ∀ c, Leaves nested.statement (fun x b => Stated c.budget x.depth ∧ b = c.budget) c
  assignment : ∀ c, Leaves nested.assignment (fun x b => Assigned c.budget x.depth b) c
  unary : ∀ c, Leaves nested.unary (fun x b => Operand c.budget x.depth b) c

section Grammar

variable {nested : Nested} (hn : nested.Bounded) (c : Cursor)
include hn

theorem block_leaves :
    Leaves (block nested) (fun found b => Stated c.budget (Stmt.depths found.1) ∧ b = c.budget) c := by
  refine .bind ((requireMark_leaves _ _).mono fun _ b₁ h₁ c₁ hc₁ => ?_)
  refine .bind (rounds_leaves.mono fun n b₂ h₂ c₂ hc₂ => ?_)
  have hsame : c₂.budget = c.budget := hc₂.trans (h₂.trans (hc₁.trans h₁))
  refine .bind ((upTo_leaves Stmt.depths rfl (fun _ _ => rfl) hn.statement _ n c₂).mono
    fun items b₃ h₃ c₃ hc₃ => ?_)
  refine .bind ((requireMark_leaves _ _).mono fun _ b₄ h₄ c₄ hc₄ => .pure ?_)
  rw [hsame] at h₃
  exact ⟨h₃.1, hc₄.trans (h₄.trans (hc₃.trans h₃.2))⟩

omit hn in
theorem parameters_leaves : Leaves parameters (Kept c) c := by
  have hnames : ∀ (n : Nat) (d : Cursor),
      Leaves (separated (return (← requireKind .identifier .parameterName).1) n) (Kept d) d := by
    intro n
    induction n with
    | zero => exact fun d => .fail _
    | succ n ih =>
      refine fun d => .bind (.bind ((requireKind_leaves _ _).mono fun _ b₁ h₁ d₁ hd₁ => .pure fun d₂ hd₂ => ?_))
      refine .bind ((accept_leaves _).mono fun comma b₃ h₃ d₃ hd₃ => ?_)
      have hsame : d₃.budget = d.budget := hd₃.trans (h₃.trans (hd₂.trans (hd₁.trans h₁)))
      cases comma with
      | some _ => exact .bind ((ih d₃).mono fun _ b₄ h₄ d₄ hd₄ => .pure (hd₄.trans (h₄.trans hsame)))
      | none => exact .pure hsame
  refine .bind ((requireMark_leaves _ _).mono fun _ b₁ h₁ c₁ hc₁ => ?_)
  refine .bind ((sees_leaves _).mono fun closed b₂ h₂ c₂ hc₂ => ?_)
  have hsame : c₂.budget = c.budget := hc₂.trans (h₂.trans (hc₁.trans h₁))
  have hclose : ∀ (params : List String) (d : Cursor), d.budget = c.budget →
      Leaves (do let _ ← requireMark .parenClose .parametersClose; return params) (Kept c) d :=
    fun params d hd => .bind ((requireMark_leaves _ _).mono fun _ b h d' hd' => .pure (hd'.trans (h.trans hd)))
  dsimp only
  split
  · exact .bind (.pure fun c₃ hc₃ => hclose _ c₃ (hc₃.trans hsame))
  · refine .bind (rounds_leaves.mono fun n b₃ h₃ c₃ hc₃ => .bind ((hnames n c₃).mono fun params b₄ h₄ c₄ hc₄ => ?_))
    exact hclose params c₄ (hc₄.trans (h₄.trans (hc₃.trans (h₃.trans hsame))))

omit hn in
theorem functionName_leaves (named : Bool) : Leaves (functionName named) (Kept c) c := by
  refine .bind ((takeIf_leaves _).mono fun found b₁ h₁ c₁ hc₁ => ?_)
  cases found with
  | some found => exact .pure (hc₁.trans h₁)
  | none =>
    dsimp only
    split
    · exact .get (.fail _)
    · exact .pure (hc₁.trans h₁)

theorem functionDecl_leaves (named : Bool) :
    Leaves (functionDecl nested named) (fun decl b => Stated c.budget decl.depth ∧ b = c.budget) c := by
  refine .bind ((requireKeyword_leaves _).mono fun _ b₁ h₁ c₁ hc₁ => ?_)
  refine .bind ((functionName_leaves c₁ named).mono fun _ b₂ h₂ c₂ hc₂ => ?_)
  refine .bind ((parameters_leaves c₂).mono fun _ b₃ h₃ c₃ hc₃ => ?_)
  have hsame : c₃.budget = c.budget := hc₃.trans (h₃.trans (hc₂.trans (h₂.trans (hc₁.trans h₁))))
  refine .bind ((block_leaves hn c₃).mono fun found b₄ h₄ c₄ hc₄ => .pure ?_)
  rw [hsame] at h₄
  exact ⟨h₄.1, hc₄.trans h₄.2⟩

theorem group_leaves : Leaves (group nested) (fun x b => Operand c.budget x.depth b) c := by
  refine .bind ((requireMark_leaves _ _).mono fun _ b₁ h₁ c₁ hc₁ => ?_)
  refine .bind ((hn.assignment c₁).mono fun inner b₂ h₂ c₂ hc₂ => ?_)
  refine .bind ((requireMark_leaves _ _).mono fun _ b₃ h₃ c₃ hc₃ => .pure ?_)
  rw [hc₁.trans h₁] at h₂
  rw [hc₃.trans (h₃.trans hc₂)]
  exact h₂.wrapped

theorem entry_leaves : Leaves (entry nested) (fun x b => Assigned c.budget x.2.depth b) c := by
  refine .bind ((require_leaves _ _).mono fun _ b₁ h₁ c₁ hc₁ => ?_)
  refine .bind ((requireMark_leaves _ _).mono fun _ b₂ h₂ c₂ hc₂ => ?_)
  refine .bind ((hn.assignment c₂).mono fun value b₃ h₃ c₃ hc₃ => .pure ?_)
  rw [hc₂.trans (h₂.trans (hc₁.trans h₁))] at h₃
  rw [hc₃]
  exact h₃

theorem object_leaves : Leaves (object nested) (fun x b => Operand c.budget x.depth b) c := by
  refine .bind ((requireMark_leaves _ _).mono fun _ b₁ h₁ c₁ hc₁ => ?_)
  refine .bind (rounds_leaves.mono fun n b₂ h₂ c₂ hc₂ => ?_)
  have hsame : c₂.budget = c.budget := hc₂.trans (h₂.trans (hc₁.trans h₁))
  refine .bind ((listed_leaves Expr.entryDepths rfl (fun _ _ => rfl) (entry_leaves hn) _ n c₂).mono
    fun entries b₃ h₃ c₃ hc₃ => ?_)
  refine .bind ((requireMark_leaves _ _).mono fun _ b₄ h₄ c₄ hc₄ => .pure ?_)
  rw [hsame] at h₃
  rw [hc₄.trans (h₄.trans hc₃)]
  exact h₃.wrapped

omit hn in
theorem depth_atom {t : Token} {x : Expr} (h : atom? t = some (.ok x)) : x.depth = 1 := by
  unfold atom? at h
  split at h
  case h_5 =>
    split at h
    · cases h
      rfl
    · cases h
  all_goals
    cases h
    try rfl

theorem primary_leaves : Leaves (primary nested) (fun x b => Operand c.budget x.depth b) c := by
  refine .get ?_
  cases c.rest with
  | nil => exact .fail _
  | cons t ts =>
    dsimp only
    cases ha : atom? t with
    | some found =>
      cases found with
      | error fault => exact .fail _
      | ok x =>
        refine .bind (.set fun c₁ hc₁ => .pure ?_)
        rw [depth_atom ha, hc₁]
        exact operand_one _
    | none =>
      dsimp only
      split
      · refine .bind ((functionDecl_leaves hn c false).mono fun decl b h c₁ hc₁ => .pure ?_)
        rw [hc₁, h.2]
        exact h.1.function
      · exact group_leaves hn c
      · exact object_leaves hn c
      · exact .fail _

theorem arguments_leaves :
    Leaves (arguments nested) (fun xs b => Assigned c.budget (Expr.depths xs) b) c := by
  refine .bind ((sees_leaves _).mono fun closed b₁ h₁ c₁ hc₁ => ?_)
  have hsame : c₁.budget = c.budget := hc₁.trans h₁
  split
  · refine .pure ?_
    rw [hsame]
    exact assigned_zero _
  · refine .bind (rounds_leaves.mono fun n b₂ h₂ c₂ hc₂ => ?_)
    rw [← hc₁.trans h₁, ← hc₂.trans h₂]
    exact separated_leaves Expr.depths rfl (fun _ _ => rfl) hn.assignment n c₂

theorem memberLink_links : Links (memberLink nested) := by
  intro b left c hl
  apply Leaves.get
  dsimp only
  split
  case isTrue hseen =>
    -- The unit for the link is spent before the link is read.
    refine .bind (spend_leaves.mono fun _ b₁ h₁ c₁ hc₁ => ?_)
    refine .bind ((accept_leaves _).mono fun _ b₂ h₂ c₂ hc₂ => ?_)
    have hcall : c₂.budget + 1 = c.budget := by
      rw [hc₂, h₂, hc₁, h₁]
    split
    · refine .bind ((arguments_leaves hn c₂).mono fun args b₃ h₃ c₃ hc₃ => ?_)
      refine .bind ((requireMark_leaves _ _).mono fun _ b₄ h₄ c₄ hc₄ => .pure ?_)
      rw [hc₄.trans (h₄.trans hc₃)]
      exact hl.link hcall h₃.operand
    refine .bind ((accept_leaves _).mono fun _ b₃ h₃ c₃ hc₃ => ?_)
    have hindex : c₃.budget + 1 = c.budget := by
      rw [hc₃, h₃, hcall]
    split
    · refine .bind ((hn.assignment c₃).mono fun index b₄ h₄ c₄ hc₄ => ?_)
      refine .bind ((requireMark_leaves _ _).mono fun _ b₅ h₅ c₅ hc₅ => .pure ?_)
      rw [hc₅.trans (h₅.trans hc₄)]
      exact hl.link hindex h₄.operand
    refine .bind ((accept_leaves _).mono fun _ b₄ h₄ c₄ hc₄ => ?_)
    have hfield : c₄.budget + 1 = c.budget := by
      rw [hc₄, h₄, hindex]
    split
    · refine .bind ((require_leaves _ _).mono fun _ b₅ h₅ c₅ hc₅ => .pure ?_)
      rw [hc₅, h₅]
      exact hl.field hfield
    · exact .pure (by omega)
  case isFalse hseen =>
    simp only [Bool.or_eq_true, not_or, Bool.not_eq_true] at hseen
    obtain ⟨⟨hparen, hbracket⟩, hdot⟩ := hseen
    exact .bind_ok (accept_unseen hparen) (.bind_ok (accept_unseen hbracket)
      (.bind_ok (accept_unseen hdot) (.pure (Nat.le_refl _))))

theorem member_leaves : Leaves (member nested) (fun x b => Operand c.budget x.depth b) c :=
  chained_leaves (primary_leaves hn) (memberLink_links hn) c

theorem unary_leaves : Leaves (unary nested) (fun x b => Operand c.budget x.depth b) c := by
  refine .bind ((takeIf_leaves unaryOp?).mono fun found b₁ h₁ c₁ hc₁ => ?_)
  have hsame : c₁.budget = c.budget := hc₁.trans h₁
  cases found with
  | none =>
    rw [← hsame]
    exact member_leaves hn c₁
  | some found =>
    refine .bind (lend_leaves fun d hd => (hn.unary d).mono fun x b₂ h₂ c₂ hc₂ => .pure ?_)
    rw [hc₂, ← hsame, ← hd]
    exact h₂.unary

theorem disjunction_leaves : Leaves (disjunction nested) (fun x b => Operand c.budget x.depth b) c := by
  refine level_leaves (fun _ _ _ _ => rfl) (fun c => ?_) c
  refine level_leaves (fun _ _ _ _ => rfl) (fun c => ?_) c
  refine level_leaves (fun _ _ _ _ => rfl) (fun c => ?_) c
  refine level_leaves (fun _ _ _ _ => rfl) (fun c => ?_) c
  refine level_leaves (fun _ _ _ _ => rfl) (fun c => ?_) c
  exact level_leaves (fun _ _ _ _ => rfl) (unary_leaves hn) c

theorem assignment_leaves :
    Leaves (assignment nested) (fun x b => Assigned (c.budget + 1) x.depth (b + 1)) c := by
  refine .bind ((disjunction_leaves hn c).mono fun target b₁ h₁ c₁ hc₁ => ?_)
  refine .bind ((accept_leaves _).mono fun equals b₂ h₂ c₂ hc₂ => ?_)
  have hsame : c₂.budget = b₁ := hc₂.trans (h₂.trans hc₁)
  cases equals with
  | none =>
    refine .pure ?_
    rw [hsame]
    exact h₁.assigned
  | some equals =>
    refine .bind ((hn.assignment c₂).mono fun value b₃ h₃ c₃ hc₃ => ?_)
    rw [hsame] at h₃
    split
    · refine .pure ?_
      rw [hc₃]
      exact h₁.assign h₃
    · exact .failAt _ _

theorem binding_leaves :
    Leaves (binding nested) (fun x b => Assigned c.budget (Expr.bindingDepths [x.1]) b) c := by
  refine .bind ((requireKind_leaves _ _).mono fun _ b₁ h₁ c₁ hc₁ => ?_)
  refine .bind ((accept_leaves _).mono fun found b₂ h₂ c₂ hc₂ => ?_)
  have hsame : c₂.budget = c.budget := hc₂.trans (h₂.trans (hc₁.trans h₁))
  cases found with
  | none =>
    refine .pure ?_
    rw [hsame]
    exact assigned_zero _
  | some _ =>
    refine .bind ((hn.assignment c₂).mono fun value b₃ h₃ c₃ hc₃ => .pure ?_)
    rw [hsame] at h₃
    rw [hc₃]
    simpa [Expr.bindingDepths] using h₃

theorem varStatement_leaves :
    Leaves (varStatement nested) (fun x _ => Stated (c.budget + 1) x.depth) c := by
  refine .bind ((requireKeyword_leaves _).mono fun _ b₁ h₁ c₁ hc₁ => ?_)
  refine .bind (rounds_leaves.mono fun n b₂ h₂ c₂ hc₂ => ?_)
  have hsame : c₂.budget = c.budget := hc₂.trans (h₂.trans (hc₁.trans h₁))
  have hcons : ∀ (x : (String × Option Expr) × Span) xs, Expr.bindingDepths ((x :: xs).map (·.1)) =
      max (Expr.bindingDepths [x.1]) (Expr.bindingDepths (xs.map (·.1))) := by
    rintro ⟨⟨name, value⟩, span⟩ xs
    cases value <;> simp [Expr.bindingDepths]
  refine .bind ((separated_leaves (fun xs => Expr.bindingDepths (xs.map (·.1))) rfl hcons
    (binding_leaves hn) n c₂).mono fun bindings b₃ h₃ c₃ hc₃ => ?_)
  rw [hsame] at h₃
  exact .bind (optionalSemicolon_leaves.mono fun _ _ _ _ _ => .pure h₃.stated)

theorem condition_leaves : Leaves (condition nested) (fun x b => Assigned c.budget x.depth b) c := by
  refine .bind ((requireMark_leaves _ _).mono fun _ b₁ h₁ c₁ hc₁ => ?_)
  refine .bind ((hn.assignment c₁).mono fun test b₂ h₂ c₂ hc₂ => ?_)
  refine .bind ((requireMark_leaves _ _).mono fun _ b₃ h₃ c₃ hc₃ => .pure ?_)
  rw [hc₁.trans h₁] at h₂
  rw [hc₃.trans (h₃.trans hc₂)]
  exact h₂

theorem ifStatement_leaves :
    Leaves (ifStatement nested) (fun x _ => Stated (c.budget + 1) x.depth) c := by
  refine .bind ((requireKeyword_leaves _).mono fun _ b₁ h₁ c₁ hc₁ => ?_)
  refine .bind ((condition_leaves hn c₁).mono fun test b₂ h₂ c₂ hc₂ => ?_)
  rw [hc₁.trans h₁] at h₂
  refine .bind ((hn.statement c₂).mono fun yes b₃ h₃ c₃ hc₃ => ?_)
  rw [hc₂] at h₃
  refine .bind ((accept_leaves _).mono fun found b₄ h₄ c₄ hc₄ => ?_)
  cases found with
  | none => exact .pure (.conditional h₂ h₃.1)
  | some _ =>
    refine .bind ((hn.statement c₄).mono fun no b₅ h₅ c₅ hc₅ => .pure (.conditional h₂ (h₃.1.both ?_)))
    rw [hc₄.trans (h₄.trans (hc₃.trans h₃.2))] at h₅
    exact h₅.1

theorem whileStatement_leaves :
    Leaves (whileStatement nested) (fun x _ => Stated (c.budget + 1) x.depth) c := by
  refine .bind ((requireKeyword_leaves _).mono fun _ b₁ h₁ c₁ hc₁ => ?_)
  refine .bind ((condition_leaves hn c₁).mono fun test b₂ h₂ c₂ hc₂ => ?_)
  rw [hc₁.trans h₁] at h₂
  refine .bind ((hn.statement c₂).mono fun body b₃ h₃ c₃ hc₃ => .pure (.conditional h₂ ?_))
  rw [hc₂] at h₃
  exact h₃.1

theorem returnStatement_leaves :
    Leaves (returnStatement nested) (fun x _ => Stated (c.budget + 1) x.depth) c := by
  refine .bind ((requireKeyword_leaves _).mono fun _ b₁ h₁ c₁ hc₁ => .get ?_)
  split
  · exact .bind (optionalSemicolon_leaves.mono fun _ _ _ _ _ => .pure (stated_zero _).wrapped)
  · refine .bind ((hn.assignment c₁).mono fun value b₂ h₂ c₂ hc₂ => ?_)
    rw [hc₁.trans h₁] at h₂
    exact .bind (optionalSemicolon_leaves.mono fun _ _ _ _ _ => .pure h₂.stated)

theorem throwStatement_leaves :
    Leaves (throwStatement nested) (fun x _ => Stated (c.budget + 1) x.depth) c := by
  refine .bind ((requireKeyword_leaves _).mono fun _ b₁ h₁ c₁ hc₁ => ?_)
  refine .bind ((hn.assignment c₁).mono fun value b₂ h₂ c₂ hc₂ => ?_)
  rw [hc₁.trans h₁] at h₂
  exact .bind (optionalSemicolon_leaves.mono fun _ _ _ _ _ => .pure h₂.stated)

theorem tryStatement_leaves :
    Leaves (tryStatement nested) (fun x _ => Stated (c.budget + 1) x.depth) c := by
  refine .bind ((requireKeyword_leaves _).mono fun _ b₁ h₁ c₁ hc₁ => ?_)
  refine .bind ((block_leaves hn c₁).mono fun body b₂ h₂ c₂ hc₂ => ?_)
  rw [hc₁.trans h₁] at h₂
  refine .bind ((requireKeyword_leaves _).mono fun _ b₃ h₃ c₃ hc₃ => ?_)
  refine .bind ((requireMark_leaves _ _).mono fun _ b₄ h₄ c₄ hc₄ => ?_)
  refine .bind ((requireKind_leaves _ _).mono fun _ b₅ h₅ c₅ hc₅ => ?_)
  refine .bind ((requireMark_leaves _ _).mono fun _ b₆ h₆ c₆ hc₆ => ?_)
  have hsame : c₆.budget = c.budget := by
    rw [hc₆, h₆, hc₅, h₅, hc₄, h₄, hc₃, h₃, hc₂, h₂.2]
  refine .bind ((block_leaves hn c₆).mono fun handler b₇ h₇ c₇ hc₇ => .pure ?_)
  rw [hsame] at h₇
  exact (h₂.1.both h₇.1).wrapped

theorem expressionStatement_leaves :
    Leaves (expressionStatement nested) (fun x _ => Stated (c.budget + 1) x.depth) c := by
  refine .bind ((hn.assignment c).mono fun value b₁ h₁ c₁ hc₁ => ?_)
  exact .bind (optionalSemicolon_leaves.mono fun _ _ _ _ _ => .pure h₁.stated)

theorem statement_leaves :
    Leaves (statement nested) (fun x _ => Stated (c.budget + 1) x.depth) c := by
  refine .get ?_
  dsimp only
  split
  · exact varStatement_leaves hn c
  · exact .bind ((functionDecl_leaves hn c true).mono fun _ _ h _ _ => .pure h.1.wrapped)
  · exact ifStatement_leaves hn c
  · exact whileStatement_leaves hn c
  · exact returnStatement_leaves hn c
  · exact throwStatement_leaves hn c
  · exact tryStatement_leaves hn c
  · exact .bind ((block_leaves hn c).mono fun _ _ h _ _ => .pure h.1.wrapped)
  · exact .bind (optionalSemicolon_leaves.mono fun _ _ _ _ _ => .pure (stated_zero _).wrapped)
  · exact expressionStatement_leaves hn c

end Grammar

theorem levels_bounded (n : Nat) : (levels n).Bounded := by
  induction n with
  | zero => exact ⟨fun _ => .fail _, fun _ => .fail _, fun _ => .fail _⟩
  | succ n ih =>
    refine ⟨fun c => restoring_leaves fun d hd => ?_, fun c => lend_leaves fun d hd => ?_, unary_leaves ih⟩
    · rw [← hd]
      exact statement_leaves ih d
    · rw [← hd]
      exact assignment_leaves ih d

theorem script_leaves (c : Cursor) :
    Leaves script (fun items _ => Stated c.budget (Stmt.depths items)) c := by
  refine .bind (rounds_leaves.mono fun n b₁ h₁ c₁ hc₁ => ?_)
  rw [← hc₁.trans h₁]
  exact (upTo_leaves Stmt.depths rfl (fun _ _ => rfl) (levels_bounded maxNesting).statement _ n c₁).mono fun _ _ h => h.1

end Parser

theorem Stmt.depth_le_depths {items : List Stmt} {x : Stmt} (hx : x ∈ items) :
    x.depth ≤ Stmt.depths items := by
  induction items with
  | nil => cases hx
  | cons y items ih =>
    rcases List.mem_cons.mp hx with rfl | hx
    · exact Nat.le_max_left _ _
    · exact Nat.le_trans (ih hx) (Nat.le_max_right _ _)

/-- The depth of an accepted statement is at most a quarter of the square of the nesting limit, give or
take a linear term. -/
theorem depth_le_of_parse {source : String} {items : List Stmt} (h : parse source = .ok items) :
    ∀ x ∈ items, 4 * x.depth ≤ Parser.maxNesting * (Parser.maxNesting + 7) := by
  unfold parse at h
  split at h
  · cases h
  · rename_i ts _
    split at h
    · cases h
    · rename_i found hp
      obtain rfl := Except.ok.inj h
      have hr : (Parser.script ⟨ts.items, ts.finish, Parser.maxNesting⟩).map (·.1) = .ok found := hp
      cases hs : Parser.script ⟨ts.items, ts.finish, Parser.maxNesting⟩ with
      | error e =>
        rw [hs] at hr
        cases hr
      | ok found =>
        rw [hs] at hr
        cases hr
        intro x hx
        have hall := Parser.script_leaves _ _ _ hs
        exact Nat.le_trans (Nat.mul_le_mul_left 4 (Stmt.depth_le_depths hx)) hall

theorem depth_le_of_parse_chained_functions :
    ∃ items, parse "a * function (x) { return b * function (y) { return !!y; } * c * d; } * e * f;" = .ok items ∧
      items.map Stmt.depth = [14] ∧ ∀ x ∈ items, 4 * x.depth ≤ Parser.maxNesting * (Parser.maxNesting + 7) := by
  have hok : (parse "a * function (x) { return b * function (y) { return !!y; } * c * d; } * e * f;").toOption.map
      (·.map Stmt.depth) = some [14] := by
    decide +kernel
  cases h : parse "a * function (x) { return b * function (y) { return !!y; } * c * d; } * e * f;" with
  | error d =>
    rw [h] at hok
    cases hok
  | ok items =>
    rw [h] at hok
    exact ⟨items, rfl, Option.some.inj hok, depth_le_of_parse h⟩

/-- A deep operand under a long chain: the units that were lent for the operand pay for the links. -/
def deepUnderChain : String :=
  String.ofList (List.replicate 196 '!' ++ '1' :: (List.replicate 4 ['*', '1']).flatten)

theorem maxNesting_lt_depth :
    ∃ items x, parse deepUnderChain = .ok items ∧ x ∈ items ∧ Parser.maxNesting < x.depth := by
  have hdeep : (parse deepUnderChain).toOption.any (·.any fun x => decide (Parser.maxNesting < x.depth)) = true := by
    decide +kernel
  cases h : parse deepUnderChain with
  | error d =>
    rw [h] at hdeep
    cases hdeep
  | ok items =>
    rw [h] at hdeep
    obtain ⟨x, hx, hlt⟩ := List.any_eq_true.mp hdeep
    exact ⟨items, x, rfl, hx, of_decide_eq_true hlt⟩

end ScriptEngine
