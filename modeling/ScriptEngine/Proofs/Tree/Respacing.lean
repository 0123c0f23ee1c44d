import Mathlib.Data.List.Forall2
import ScriptEngine.Proofs.Token.Respacing
import ScriptEngine.Tree.Parser

namespace ScriptEngine

def Span.nowhere : Span := ⟨0, 0, 0⟩

mutual

def Expr.bare : Expr → Expr
  | .literal value _ => .literal value .nowhere
  | .name name _ => .name name .nowhere
  | .this _ => .this .nowhere
  | .binary op left right _ => .binary op left.bare right.bare .nowhere
  | .logical op left right _ => .logical op left.bare right.bare .nowhere
  | .unary op operand _ => .unary op operand.bare .nowhere
  | .assign target value _ => .assign target.bare value.bare .nowhere
  | .call callee args _ => .call callee.bare (Expr.bares args) .nowhere
  | .object entries _ => .object (Expr.bareEntries entries) .nowhere
  | .group inner _ => .group inner.bare .nowhere
  | .index target index _ => .index target.bare index.bare .nowhere
  | .field target name _ => .field target.bare name .nowhere
  | .function decl => .function decl.bare

def Expr.bares : List Expr → List Expr
  | [] => []
  | x :: xs => x.bare :: Expr.bares xs

def Expr.bareEntries : List (String × Expr) → List (String × Expr)
  | [] => []
  | (name, x) :: xs => (name, x.bare) :: Expr.bareEntries xs

def Expr.bareBindings : List (String × Option Expr) → List (String × Option Expr)
  | [] => []
  | (name, none) :: xs => (name, none) :: Expr.bareBindings xs
  | (name, some x) :: xs => (name, some x.bare) :: Expr.bareBindings xs

def FunctionDecl.bare : FunctionDecl → FunctionDecl
  | ⟨name, params, body, _⟩ => ⟨name, params, Stmt.bares body, .nowhere⟩

def Stmt.bare : Stmt → Stmt
  | .var bindings _ => .var (Expr.bareBindings bindings) .nowhere
  | .function decl => .function decl.bare
  | .expr value => .expr value.bare
  | .block items _ => .block (Stmt.bares items) .nowhere
  | .cond condition yes none _ => .cond condition.bare yes.bare none .nowhere
  | .cond condition yes (some no) _ => .cond condition.bare yes.bare (some no.bare) .nowhere
  | .loop condition body _ => .loop condition.bare body.bare .nowhere
  | .return none _ => .return none .nowhere
  | .return (some value) _ => .return (some value.bare) .nowhere
  | .throw value _ => .throw value.bare .nowhere
  | .try body binding handler _ => .try (Stmt.bares body) binding (Stmt.bares handler) .nowhere
  | .empty _ => .empty .nowhere

def Stmt.bares : List Stmt → List Stmt
  | [] => []
  | x :: xs => x.bare :: Stmt.bares xs

end

def Expr.Alike (a b : Expr) : Prop :=
  a.bare = b.bare

def Stmt.Alike (a b : Stmt) : Prop :=
  a.bare = b.bare

section Lists

open List (Forall₂)

theorem Expr.bares_of_forall₂ {xs ys : List Expr} (h : Forall₂ Expr.Alike xs ys) : Expr.bares xs = Expr.bares ys := by
  induction h with
  | nil => rfl
  | cons hx _ ih => rw [bares, bares, hx, ih]

theorem Expr.bareEntries_of_forall₂ {xs ys : List (String × Expr)}
    (h : Forall₂ (fun x y => x.1 = y.1 ∧ Expr.Alike x.2 y.2) xs ys) : bareEntries xs = bareEntries ys := by
  induction h with
  | nil => rfl
  | cons hx _ ih => rw [bareEntries, bareEntries, hx.1, hx.2, ih]

theorem Expr.bareBindings_of_forall₂ {xs ys : List (String × Option Expr)}
    (h : Forall₂ (fun x y => x.1 = y.1 ∧ Option.Rel Expr.Alike x.2 y.2) xs ys) : bareBindings xs = bareBindings ys := by
  induction h with
  | nil => rfl
  | @cons x y xs ys hx _ ih =>
    obtain ⟨name, value⟩ := x
    obtain ⟨name', value'⟩ := y
    obtain ⟨rfl, hvalue⟩ := hx
    cases hvalue with
    | none => rw [bareBindings, bareBindings, ih]
    | some hvalue => rw [bareBindings, bareBindings, hvalue, ih]

theorem Stmt.bares_of_forall₂ {xs ys : List Stmt} (h : Forall₂ Stmt.Alike xs ys) : Stmt.bares xs = Stmt.bares ys := by
  induction h with
  | nil => rfl
  | cons hx _ ih => rw [bares, bares, hx, ih]

end Lists

theorem FunctionDecl.bare_eq {body body' : List Stmt} (h : Stmt.bares body = Stmt.bares body') (name : Option String)
    (params : List String) (s t : Span) :
    FunctionDecl.bare ⟨name, params, body, s⟩ = FunctionDecl.bare ⟨name, params, body', t⟩ :=
  congrArg (FunctionDecl.mk name params · .nowhere) h

namespace Expr.Alike

variable {a b x y : Expr}

theorem binary (op : BinaryOp) (s t : Span) (h : a.Alike b) (hx : x.Alike y) :
    (Expr.binary op a x s).Alike (.binary op b y t) :=
  congrArg₂ (Expr.binary op · · .nowhere) h hx

theorem logical (op : LogicalOp) (s t : Span) (h : a.Alike b) (hx : x.Alike y) :
    (Expr.logical op a x s).Alike (.logical op b y t) :=
  congrArg₂ (Expr.logical op · · .nowhere) h hx

theorem unary {op op' : UnaryOp} (ho : op = op') (h : a.Alike b) (s t : Span) :
    (Expr.unary op a s).Alike (.unary op' b t) :=
  congrArg₂ (Expr.unary · · .nowhere) ho h

theorem assign (h : a.Alike b) (hx : x.Alike y) (s t : Span) : (Expr.assign a x s).Alike (.assign b y t) :=
  congrArg₂ (Expr.assign · · .nowhere) h hx

theorem call {xs ys : List Expr} (h : a.Alike b) (hxs : List.Forall₂ Expr.Alike xs ys) (s t : Span) :
    (Expr.call a xs s).Alike (.call b ys t) :=
  congrArg₂ (Expr.call · · .nowhere) h (bares_of_forall₂ hxs)

theorem object {xs ys : List (String × Expr)}
    (h : List.Forall₂ (fun x y => x.1 = y.1 ∧ Expr.Alike x.2 y.2) xs ys) (s t : Span) :
    (Expr.object xs s).Alike (.object ys t) :=
  congrArg (Expr.object · .nowhere) (bareEntries_of_forall₂ h)

theorem group (h : a.Alike b) (s t : Span) : (Expr.group a s).Alike (.group b t) :=
  congrArg (Expr.group · .nowhere) h

theorem index (h : a.Alike b) (hx : x.Alike y) (s t : Span) : (Expr.index a x s).Alike (.index b y t) :=
  congrArg₂ (Expr.index · · .nowhere) h hx

theorem field {name name' : String} (h : a.Alike b) (hn : name = name') (s t : Span) :
    (Expr.field a name s).Alike (.field b name' t) :=
  congrArg₂ (Expr.field · · .nowhere) h hn

theorem function {f g : FunctionDecl} (h : f.bare = g.bare) : (Expr.function f).Alike (.function g) :=
  congrArg Expr.function h

end Expr.Alike

namespace Stmt.Alike

variable {a b : Expr} {x y z w : Stmt}

theorem var {xs ys : List (String × Option Expr)} (h : Expr.bareBindings xs = Expr.bareBindings ys) (s t : Span) :
    (Stmt.var xs s).Alike (.var ys t) :=
  congrArg (Stmt.var · .nowhere) h

theorem function {f g : FunctionDecl} (h : f.bare = g.bare) : (Stmt.function f).Alike (.function g) :=
  congrArg Stmt.function h

theorem expr (h : a.Alike b) : (Stmt.expr a).Alike (.expr b) :=
  congrArg Stmt.expr h

theorem block {xs ys : List Stmt} (h : Stmt.bares xs = Stmt.bares ys) (s t : Span) :
    (Stmt.block xs s).Alike (.block ys t) :=
  congrArg (Stmt.block · .nowhere) h

theorem cond (h : a.Alike b) (hx : x.Alike y) (s t : Span) :
    (Stmt.cond a x none s).Alike (.cond b y none t) :=
  congrArg₂ (Stmt.cond · · none .nowhere) h hx

theorem condElse (h : a.Alike b) (hx : x.Alike y) (hz : z.Alike w) (s t : Span) :
    (Stmt.cond a x (some z) s).Alike (.cond b y (some w) t) := by
  show Stmt.cond a.bare x.bare (some z.bare) .nowhere = .cond b.bare y.bare (some w.bare) .nowhere
  rw [show a.bare = b.bare from h, show x.bare = y.bare from hx, show z.bare = w.bare from hz]

theorem loop (h : a.Alike b) (hx : x.Alike y) (s t : Span) : (Stmt.loop a x s).Alike (.loop b y t) :=
  congrArg₂ (Stmt.loop · · .nowhere) h hx

theorem «return» (h : a.Alike b) (s t : Span) : (Stmt.return (some a) s).Alike (.return (some b) t) :=
  congrArg (fun v => Stmt.return (some v) .nowhere) h

theorem throw (h : a.Alike b) (s t : Span) : (Stmt.throw a s).Alike (.throw b t) :=
  congrArg (Stmt.throw · .nowhere) h

theorem «try» {name name' : String} {body body' handler handler' : List Stmt} (h : Stmt.bares body = Stmt.bares body')
    (hn : name = name') (hh : Stmt.bares handler = Stmt.bares handler') (s t : Span) :
    (Stmt.try body name handler s).Alike (.try body' name' handler' t) := by
  subst hn
  exact congrArg₂ (Stmt.try · name · .nowhere) h hh

end Stmt.Alike

namespace Parser

def Cursor.Same (c d : Cursor) : Prop :=
  c.rest.map Token.word = d.rest.map Token.word ∧ c.budget = d.budget

def Agree {α : Type} (R : α → α → Prop) (p q : ParseM α) (c d : Cursor) : Prop :=
  match p c, q d with
  | .ok (a, c'), .ok (b, d') => R a b ∧ c'.Same d'
  | .error e, .error f => e.fault = f.fault
  | _, _ => False

namespace Agree

variable {α β : Type} {R : α → α → Prop} {S : β → β → Prop} {p q : ParseM α} {c d : Cursor}

theorem pure {a b : α} (h : R a b) (hc : c.Same d) : Agree R (Pure.pure a) (Pure.pure b) c d :=
  ⟨h, hc⟩

theorem bind {f g : α → ParseM β} (h : Agree R p q c d)
    (hf : ∀ a b c' d', R a b → c'.Same d' → Agree S (f a) (g b) c' d') : Agree S (p >>= f) (q >>= g) c d := by
  have hp : (p >>= f) c = Except.bind (p c) fun s => f s.1 s.2 := rfl
  have hq : (q >>= g) d = Except.bind (q d) fun s => g s.1 s.2 := rfl
  unfold Agree at h
  split at h
  · rename_i a c' b d' ha hb
    have hrest := hf a b c' d' h.1 h.2
    unfold Agree at hrest ⊢
    rw [hp, hq, ha, hb]
    exact hrest
  · rename_i e f' he hf'
    unfold Agree
    rw [hp, hq, he, hf']
    exact h
  · exact h.elim

theorem get {f g : Cursor → ParseM β} (h : Agree S (f c) (g d) c d) :
    Agree S (MonadState.get >>= f) (MonadState.get >>= g) c d := h

theorem set {c' d' : Cursor} {S : PUnit → PUnit → Prop} (h : S ⟨⟩ ⟨⟩) (hc : c'.Same d') :
    Agree S (MonadStateOf.set c') (MonadStateOf.set d') c d :=
  ⟨h, hc⟩

theorem modify {f g : Cursor → Cursor} {S : PUnit → PUnit → Prop} (h : S ⟨⟩ ⟨⟩) (hc : (f c).Same (g d)) :
    Agree S (modifyThe Cursor f) (modifyThe Cursor g) c d :=
  ⟨h, hc⟩

theorem failAt {s t : Span} (fault : ParseFault) : Agree R (Parser.failAt s fault) (Parser.failAt t fault) c d := rfl

theorem fail (fault : ParseFault) : Agree R (Parser.fail fault) (Parser.fail fault) c d := rfl

end Agree

def Blind {α : Type} (R : α → α → Prop) (p q : ParseM α) : Prop :=
  ∀ c d : Cursor, c.Same d → Agree R p q c d

namespace Cursor.Same

variable {c d : Cursor}

theorem length (h : c.Same d) : c.rest.length = d.rest.length := by
  simpa using congrArg List.length h.1

theorem kind? (h : c.Same d) : c.kind? = d.kind? := by
  have hhead := congrArg (fun ws => ws.head?.map Prod.fst) h.1
  simpa [Cursor.kind?, List.head?_map, Token.word, Function.comp_def] using hhead

theorem lexeme? (h : c.Same d) : c.lexeme? = d.lexeme? := by
  have hhead := congrArg (fun ws => ws.head?.map Prod.snd) h.1
  simpa [Cursor.lexeme?, List.head?_map, Token.word, Function.comp_def] using hhead

theorem sees (h : c.Same d) (kind : TokenKind) : c.sees kind = d.sees kind := by
  rw [Cursor.sees, Cursor.sees, h.kind?]

theorem atEnd (h : c.Same d) : c.atEnd = d.atEnd := by
  have hiff : c.rest = [] ↔ d.rest = [] := by
    rw [← List.length_eq_zero_iff, h.length, List.length_eq_zero_iff]
  rw [Bool.eq_iff_iff, Cursor.atEnd, Cursor.atEnd, List.isEmpty_iff, List.isEmpty_iff, hiff]

theorem paid (h : c.Same d) (f : Nat → Nat) : Same { c with budget := f c.budget } { d with budget := f d.budget } :=
  ⟨h.1, congrArg f h.2⟩

theorem cases (h : c.Same d) : c.rest = [] ∧ d.rest = [] ∨
    ∃ t u ts us, c.rest = t :: ts ∧ d.rest = u :: us ∧ t.kind = u.kind ∧ t.lexeme = u.lexeme ∧
      Same { c with rest := ts } { d with rest := us } := by
  obtain ⟨hwords, hbudget⟩ := h
  cases hc : c.rest with
  | nil =>
    rw [hc, List.map_nil, eq_comm, List.map_eq_nil_iff] at hwords
    exact .inl ⟨rfl, hwords⟩
  | cons t ts =>
    cases hd : d.rest with
    | nil =>
      rw [hc, hd] at hwords
      cases hwords
    | cons u us =>
      rw [hc, hd] at hwords
      obtain ⟨hword, hwords⟩ := List.cons.inj hwords
      obtain ⟨hkind, hlexeme⟩ := Prod.mk.inj hword
      exact .inr ⟨t, u, ts, us, rfl, rfl, hkind, hlexeme, hwords, hbudget⟩

end Cursor.Same

section Tokens

variable {α : Type} {R : α → α → Prop}

def Beside (R : α → α → Prop) (x y : α × Span) : Prop :=
  R x.1 y.1

def Token.Blind (test : Token → Option α) : Prop :=
  ∀ t u : Token, t.kind = u.kind → t.lexeme = u.lexeme → test t = test u

theorem sees_blind (kind : TokenKind) : Blind Eq (sees kind) (sees kind) :=
  fun _ _ h => .get (.pure (h.sees kind) h)

theorem rounds_blind : Blind Eq rounds rounds :=
  fun _ _ h => .get (.pure (congrArg (· + 1) h.length) h)

theorem takeIf_blind {test : Token → Option α} (ht : Token.Blind test) :
    Blind (Option.Rel (Beside Eq)) (takeIf test) (takeIf test) := by
  intro c d h
  refine .get ?_
  obtain ⟨hc, hd⟩ | ⟨t, u, ts, us, hc, hd, hkind, hlexeme, hrest⟩ := h.cases
  · rw [hc, hd]
    exact .pure .none h
  · rw [hc, hd]
    dsimp only
    rw [ht t u hkind hlexeme]
    cases test u with
    | none => exact .pure .none h
    | some a => exact .bind (.set (S := fun _ _ => True) trivial hrest) fun _ _ c' d' _ h' => .pure (.some rfl) h'

theorem kind_blind (kind : TokenKind) (f : String → α) :
    Token.Blind fun t => if t.kind = kind then some (f t.lexeme) else none := by
  intro t u hkind hlexeme
  dsimp only
  rw [hkind, hlexeme]

theorem accept_blind (kind : TokenKind) :
    Blind (Option.Rel fun _ _ => True) (accept kind) (accept kind) := by
  intro c d h
  refine .bind (takeIf_blind (kind_blind kind fun _ => ()) c d h) ?_
  rintro _ _ c' d' (⟨_⟩ | _) h'
  · exact .pure (.some trivial) h'
  · exact .pure .none h'

theorem require_blind {test : Token → Option α} (ht : Token.Blind test) (what : Expected) :
    Blind (Beside Eq) (require test what) (require test what) := by
  intro c d h
  refine .bind (takeIf_blind ht c d h) ?_
  rintro _ _ c' d' (⟨hab⟩ | _) h'
  · exact .pure hab h'
  · refine .get ?_
    rw [h'.lexeme?]
    exact .fail _

theorem requireKind_blind (kind : TokenKind) (what : Expected) :
    Blind (Beside Eq) (requireKind kind what) (requireKind kind what) :=
  require_blind (kind_blind kind id) what

theorem requireMark_blind (m : Mark) (what : Expected) :
    Blind (fun _ _ => True) (requireMark m what) (requireMark m what) :=
  fun c d h => .bind (requireKind_blind _ what c d h) fun _ _ _ _ _ h' => .pure trivial h'

theorem requireKeyword_blind (k : Keyword) : Blind (fun _ _ => True) (requireKeyword k) (requireKeyword k) :=
  fun c d h => .bind (requireKind_blind _ _ c d h) fun _ _ _ _ _ h' => .pure trivial h'

theorem optionalSemicolon_blind : Blind (fun _ _ => True) optionalSemicolon optionalSemicolon :=
  fun c d h => .bind (accept_blind _ c d h) fun _ _ _ _ _ h' => .pure trivial h'

theorem propertyName?_blind : Token.Blind propertyName? := by
  intro t u hkind hlexeme
  rw [propertyName?, propertyName?, hkind, hlexeme]

theorem spend_blind : Blind (fun _ _ => True) spend spend := by
  intro c d h
  refine .get ?_
  have hpaid := h.paid (· - 1)
  rw [h.2] at hpaid ⊢
  cases hb : d.budget with
  | zero => exact .fail _
  | succ n =>
    rw [hb] at hpaid
    exact .set trivial hpaid

theorem lend_blind {p q : ParseM α} (h : Blind R p q) : Blind R (lend p) (lend q) := by
  intro c d hc
  refine .bind (spend_blind c d hc) fun _ _ c₁ d₁ _ h₁ => ?_
  refine .bind (h c₁ d₁ h₁) fun a b c₂ d₂ hab h₂ => ?_
  exact .bind (.modify (S := fun _ _ => True) trivial (h₂.paid (· + 1))) fun _ _ _ _ _ h₃ => .pure hab h₃

theorem restoring_blind {p q : ParseM α} (h : Blind R p q) : Blind R (restoring p) (restoring q) := by
  intro c d hc
  refine .get ?_
  refine .bind (spend_blind c d hc) fun _ _ c₁ d₁ _ h₁ => ?_
  refine .bind (h c₁ d₁ h₁) fun a b c₂ d₂ hab h₂ => ?_
  refine .bind (.modify (S := fun _ _ => True) trivial ?_) fun _ _ _ _ _ h₃ => .pure hab h₃
  exact ⟨h₂.1, hc.2⟩

end Tokens

section Lists

variable {α : Type} {R : α → α → Prop} {item : ParseM α}

theorem upTo_blind {done : Cursor → Bool} (hd : ∀ c d, c.Same d → done c = done d) (h : Blind R item item) (n : Nat) :
    Blind (List.Forall₂ R) (upTo done item n) (upTo done item n) := by
  induction n with
  | zero => exact fun c d _ => .fail _
  | succ n ih =>
    intro c d hc
    refine .get ?_
    rw [hd c d hc]
    split
    · exact .pure .nil hc
    · refine .bind (h c d hc) fun a b c₁ d₁ hab h₁ => ?_
      exact .bind (ih c₁ d₁ h₁) fun as bs _ _ hrest h₂ => .pure (.cons hab hrest) h₂

theorem separated_blind (h : Blind R item item) (n : Nat) :
    Blind (List.Forall₂ R) (separated item n) (separated item n) := by
  induction n with
  | zero => exact fun c d _ => .fail _
  | succ n ih =>
    intro c d hc
    refine .bind (h c d hc) fun a b c₁ d₁ hab h₁ => ?_
    refine .bind (accept_blind _ c₁ d₁ h₁) ?_
    rintro _ _ c₂ d₂ (⟨_⟩ | _) h₂
    · exact .bind (ih c₂ d₂ h₂) fun as bs _ _ hrest h₃ => .pure (.cons hab hrest) h₃
    · exact .pure (.cons hab .nil) h₂

theorem listed_blind (close : Mark) (h : Blind R item item) (n : Nat) :
    Blind (List.Forall₂ R) (listed close item n) (listed close item n) := by
  induction n with
  | zero => exact fun c d _ => .fail _
  | succ n ih =>
    intro c d hc
    refine .bind (sees_blind _ c d hc) ?_
    rintro seen _ c₁ d₁ rfl h₁
    split
    · exact .pure .nil h₁
    · refine .bind (h c₁ d₁ h₁) fun a b c₂ d₂ hab h₂ => ?_
      refine .bind (accept_blind _ c₂ d₂ h₂) ?_
      rintro _ _ c₃ d₃ (⟨_⟩ | _) h₃
      · exact .bind (ih c₃ d₃ h₃) fun as bs _ _ hrest h₄ => .pure (.cons hab hrest) h₄
      · exact .pure (.cons hab .nil) h₃

theorem chain_blind {link : Expr → ParseM (Option Expr)}
    (h : ∀ a b, Expr.Alike a b → Blind (Option.Rel Expr.Alike) (link a) (link b)) (n : Nat) {a b : Expr}
    (hab : Expr.Alike a b) : Blind Expr.Alike (chain link n a) (chain link n b) := by
  induction n generalizing a b with
  | zero => exact fun c d _ => .fail _
  | succ n ih =>
    intro c d hc
    refine .bind (h a b hab c d hc) ?_
    rintro _ _ c₁ d₁ (⟨hlonger⟩ | _) h₁
    · exact ih hlonger c₁ d₁ h₁
    · exact .pure hab h₁

theorem chained_blind {first : ParseM Expr} {link : Expr → ParseM (Option Expr)} (hfirst : Blind Expr.Alike first first)
    (hlink : ∀ a b, Expr.Alike a b → Blind (Option.Rel Expr.Alike) (link a) (link b)) :
    Blind Expr.Alike (chained first link) (chained first link) := by
  intro c d hc
  refine .bind (hfirst c d hc) fun a b c₁ d₁ hab h₁ => .get ?_
  rw [h₁.2]
  exact chain_blind hlink _ hab c₁ d₁ h₁

end Lists

structure Nested.Blind (n : Nested) : Prop where
  statement : Parser.Blind Stmt.Alike n.statement n.statement
  assignment : Parser.Blind Expr.Alike n.assignment n.assignment
  unary : Parser.Blind Expr.Alike n.unary n.unary

section Grammar

variable {nested : Nested} (hn : nested.Blind)

include hn

theorem block_blind : Blind (fun x y => Stmt.bares x.1 = Stmt.bares y.1) (block nested) (block nested) := by
  intro c d h
  refine .bind (requireMark_blind _ _ c d h) fun _ _ c₁ d₁ _ h₁ => ?_
  refine .bind (rounds_blind c₁ d₁ h₁) ?_
  rintro n _ c₂ d₂ rfl h₂
  have hdone : ∀ c d : Cursor, c.Same d →
      (c.sees (.mark .braceClose) || c.atEnd) = (d.sees (.mark .braceClose) || d.atEnd) :=
    fun c d h => by rw [h.sees, h.atEnd]
  refine .bind (upTo_blind hdone hn.statement n c₂ d₂ h₂) fun items items' c₃ d₃ hitems h₃ => ?_
  exact .bind (requireMark_blind _ _ c₃ d₃ h₃) fun _ _ _ _ _ h₄ => .pure (Stmt.bares_of_forall₂ hitems) h₄

omit hn in
theorem parameters_blind : Blind Eq parameters parameters := by
  intro c d h
  refine .bind (requireMark_blind _ _ c d h) fun _ _ c₁ d₁ _ h₁ => ?_
  have hname : Blind Eq (do return (← requireKind .identifier .parameterName).1)
      (do return (← requireKind .identifier .parameterName).1) :=
    fun c d h => .bind (requireKind_blind _ _ c d h) fun _ _ _ _ hab h' => .pure hab h'
  refine .bind (sees_blind _ c₁ d₁ h₁) ?_
  rintro seen _ c₂ d₂ rfl h₂
  have hclose (params : List String) {c d : Cursor} (h : c.Same d) :
      Agree Eq (do let _ ← requireMark .parenClose .parametersClose; return params)
        (do let _ ← requireMark .parenClose .parametersClose; return params) c d :=
    .bind (requireMark_blind _ _ c d h) fun _ _ _ _ _ h' => .pure rfl h'
  dsimp only
  split
  · exact .bind (.pure (R := Eq) rfl h₂) fun _ _ _ _ hab h₃ => hab ▸ hclose _ h₃
  · refine .bind (rounds_blind c₂ d₂ h₂) ?_
    rintro n _ c₃ d₃ rfl h₃
    refine .bind (separated_blind hname n c₃ d₃ h₃) fun xs ys c₄ d₄ hxs h₄ => ?_
    obtain rfl : xs = ys := by rwa [List.forall₂_eq_eq_eq] at hxs
    exact hclose xs h₄

omit hn in
theorem functionName_blind (named : Bool) : Blind Eq (functionName named) (functionName named) := by
  intro c d h
  refine .bind (takeIf_blind (kind_blind .identifier id) c d h) ?_
  rintro _ _ c₁ d₁ (⟨hab⟩ | _) h₁
  · exact .pure (congrArg some hab) h₁
  · dsimp only
    split
    · refine .get ?_
      rw [h₁.lexeme?]
      exact .fail _
    · exact .pure rfl h₁

theorem functionDecl_blind (named : Bool) :
    Blind (fun f g => f.bare = g.bare) (functionDecl nested named) (functionDecl nested named) := by
  intro c d h
  refine .bind (requireKeyword_blind _ c d h) fun _ _ c₁ d₁ _ h₁ => ?_
  refine .bind (functionName_blind named c₁ d₁ h₁) ?_
  rintro name _ c₂ d₂ rfl h₂
  refine .bind (parameters_blind c₂ d₂ h₂) ?_
  rintro params _ c₃ d₃ rfl h₃
  exact .bind (block_blind hn c₃ d₃ h₃) fun x y _ _ hbody h₄ => .pure (FunctionDecl.bare_eq hbody _ _ _ _) h₄

theorem group_blind : Blind Expr.Alike (group nested) (group nested) := by
  intro c d h
  refine .bind (requireMark_blind _ _ c d h) fun _ _ c₁ d₁ _ h₁ => ?_
  refine .bind (hn.assignment c₁ d₁ h₁) fun a b c₂ d₂ hab h₂ => ?_
  exact .bind (requireMark_blind _ _ c₂ d₂ h₂) fun _ _ _ _ _ h₃ => .pure (hab.group _ _) h₃

theorem entry_blind : Blind (fun x y => x.1 = y.1 ∧ Expr.Alike x.2 y.2) (entry nested) (entry nested) := by
  intro c d h
  refine .bind (require_blind propertyName?_blind _ c d h) fun x y c₁ d₁ hkey h₁ => ?_
  refine .bind (requireMark_blind _ _ c₁ d₁ h₁) fun _ _ c₂ d₂ _ h₂ => ?_
  exact .bind (hn.assignment c₂ d₂ h₂) fun a b _ _ hab h₃ => .pure ⟨hkey, hab⟩ h₃

theorem object_blind : Blind Expr.Alike (object nested) (object nested) := by
  intro c d h
  refine .bind (requireMark_blind _ _ c d h) fun _ _ c₁ d₁ _ h₁ => ?_
  refine .bind (rounds_blind c₁ d₁ h₁) ?_
  rintro n _ c₂ d₂ rfl h₂
  refine .bind (listed_blind _ (entry_blind hn) n c₂ d₂ h₂) fun xs ys c₃ d₃ hxs h₃ => ?_
  exact .bind (requireMark_blind _ _ c₃ d₃ h₃) fun _ _ _ _ _ h₄ => .pure (.object hxs _ _) h₄

omit hn in
theorem atom?_bare {t u : Token} (hkind : t.kind = u.kind) (hlexeme : t.lexeme = u.lexeme) :
    (atom? t).map (·.map Expr.bare) = (atom? u).map (·.map Expr.bare) := by
  rw [atom?, atom?, hkind, hlexeme]
  split
  all_goals first | rfl | (cases Decimal.read? u.lexeme <;> rfl)

theorem primary_blind : Blind Expr.Alike (primary nested) (primary nested) := by
  intro c d h
  refine .get ?_
  obtain ⟨hc, hd⟩ | ⟨t, u, ts, us, hc, hd, hkind, hlexeme, hrest⟩ := h.cases
  · rw [hc, hd]
    exact .fail _
  have hatom := atom?_bare hkind hlexeme
  rw [hc, hd]
  dsimp only
  cases ht : atom? t with
  | none =>
    cases hu : atom? u with
    | some _ =>
      rw [ht, hu] at hatom
      cases hatom
    | none =>
      dsimp only
      rw [hkind, hlexeme]
      split
      · exact .bind (functionDecl_blind hn false c d h) fun f g _ _ hfg h₁ => .pure (.function hfg) h₁
      · exact group_blind hn c d h
      · exact object_blind hn c d h
      · exact .fail _
  | some found =>
    cases hu : atom? u with
    | none =>
      rw [ht, hu] at hatom
      cases hatom
    | some found' =>
      rw [ht, hu] at hatom
      have hfound := Option.some.inj hatom
      cases found with
      | error fault =>
        cases found' with
        | ok _ => cases hfound
        | error fault' =>
          cases hfound
          exact .fail _
      | ok a =>
        cases found' with
        | error _ => cases hfound
        | ok b =>
          have hab : Expr.Alike a b := Except.ok.inj hfound
          exact .bind (.set (S := fun _ _ => True) trivial hrest) fun _ _ _ _ _ h₁ => .pure hab h₁

theorem arguments_blind : Blind (List.Forall₂ Expr.Alike) (arguments nested) (arguments nested) := by
  intro c d h
  refine .bind (sees_blind _ c d h) ?_
  rintro seen _ c₁ d₁ rfl h₁
  split
  · exact .pure .nil h₁
  · refine .bind (rounds_blind c₁ d₁ h₁) ?_
    rintro n _ c₂ d₂ rfl h₂
    exact separated_blind hn.assignment n c₂ d₂ h₂

omit hn in
theorem spending_blind {α : Type} {R : α → α → Prop} {p q : ParseM α} (test : Bool) (h : Blind R p q) :
    Blind R (if test = true then do spend; p else p) (if test = true then do spend; q else q) := by
  intro c d hc
  split
  · exact .bind (spend_blind c d hc) fun _ _ c₁ d₁ _ h₁ => h c₁ d₁ h₁
  · exact h c d hc

omit hn in
theorem accepted_blind {α : Type} {R : α → α → Prop} {kind : TokenKind} {yes yes' no no' : ParseM α}
    (hyes : Blind R yes yes') (hno : Blind R no no') :
    Blind R (do if (← accept kind).isSome then yes else no) (do if (← accept kind).isSome then yes' else no') := by
  intro c d hc
  refine .bind (accept_blind kind c d hc) ?_
  rintro _ _ c₁ d₁ (⟨_⟩ | _) h₁
  · exact hyes c₁ d₁ h₁
  · exact hno c₁ d₁ h₁

theorem memberLink_blind {a b : Expr} (hab : Expr.Alike a b) :
    Blind (Option.Rel Expr.Alike) (memberLink nested a) (memberLink nested b) := by
  intro c d h
  refine .get ?_
  simp only [h.sees]
  refine spending_blind _ ?_ c d h
  refine accepted_blind (fun c d h => ?_)
    (accepted_blind (fun c d h => ?_) (accepted_blind (fun c d h => ?_) fun c d h => ?_))
  · refine .bind (arguments_blind hn c d h) fun xs ys c₁ d₁ hxs h₁ => ?_
    exact .bind (requireMark_blind _ _ c₁ d₁ h₁) fun _ _ _ _ _ h₂ => .pure (.some (hab.call hxs _ _)) h₂
  · refine .bind (hn.assignment c d h) fun x y c₁ d₁ hxy h₁ => ?_
    exact .bind (requireMark_blind _ _ c₁ d₁ h₁) fun _ _ _ _ _ h₂ => .pure (.some (hab.index hxy _ _)) h₂
  · exact .bind (require_blind propertyName?_blind _ c d h) fun x y _ _ hname h₁ =>
      .pure (.some (hab.field hname _ _)) h₁
  · exact .pure .none h

theorem member_blind : Blind Expr.Alike (member nested) (member nested) :=
  chained_blind (primary_blind hn) fun _ _ hab => memberLink_blind hn hab

omit hn in
theorem unaryOp?_blind : Token.Blind unaryOp? := by
  intro t u hkind _
  rw [unaryOp?, unaryOp?, hkind]

theorem unary_blind : Blind Expr.Alike (unary nested) (unary nested) := by
  intro c d h
  refine .bind (takeIf_blind unaryOp?_blind c d h) ?_
  rintro _ _ c₁ d₁ (⟨hop⟩ | _) h₁
  · exact .bind (lend_blind hn.unary c₁ d₁ h₁) fun a b _ _ hab h₂ => .pure (.unary hop hab _ _) h₂
  · exact member_blind hn c₁ d₁ h₁

omit hn in
theorem level_blind {ω : Type} {op? : Token → Option ω} {join : ω → Expr → Expr → Span → Expr} {operand : ParseM Expr}
    (hop : Token.Blind op?) (hjoin : ∀ {a b x y} op s t, Expr.Alike a b → Expr.Alike x y →
      Expr.Alike (join op a x s) (join op b y t)) (h : Blind Expr.Alike operand operand) :
    Blind Expr.Alike (level op? join operand) (level op? join operand) := by
  refine chained_blind h fun a b hab c d hc => ?_
  refine .bind (takeIf_blind hop c d hc) ?_
  rintro _ _ c₁ d₁ (⟨hxy⟩ | _) h₁
  · refine .bind (spend_blind c₁ d₁ h₁) fun _ _ c₂ d₂ _ h₂ => ?_
    refine .bind (h c₂ d₂ h₂) fun x y _ _ hright h₃ => .pure (.some ?_) h₃
    rw [show _ = _ from hxy]
    exact hjoin _ _ _ hab hright
  · exact .pure .none h₁

theorem disjunction_blind : Blind Expr.Alike (disjunction nested) (disjunction nested) := by
  have hfactor : Blind Expr.Alike (factor nested) (factor nested) :=
    level_blind (fun t u hkind _ => by rw [factorOp?, factorOp?, hkind]) Expr.Alike.binary (unary_blind hn)
  have hterm : Blind Expr.Alike (term nested) (term nested) :=
    level_blind (fun t u hkind _ => by rw [termOp?, termOp?, hkind]) Expr.Alike.binary hfactor
  have hcomparison : Blind Expr.Alike (comparison nested) (comparison nested) :=
    level_blind (fun t u hkind _ => by rw [comparisonOp?, comparisonOp?, hkind]) Expr.Alike.binary hterm
  have hequality : Blind Expr.Alike (equality nested) (equality nested) :=
    level_blind (fun t u hkind _ => by rw [equalityOp?, equalityOp?, hkind]) Expr.Alike.binary hcomparison
  have hconjunction : Blind Expr.Alike (conjunction nested) (conjunction nested) :=
    level_blind (fun t u hkind _ => by rw [andOp?, andOp?, hkind]) Expr.Alike.logical hequality
  exact level_blind (fun t u hkind _ => by rw [orOp?, orOp?, hkind]) Expr.Alike.logical hconjunction

omit hn in
theorem isTarget_of_alike {a b : Expr} (h : Expr.Alike a b) : isTarget a = isTarget b := by
  have hbare (x : Expr) : isTarget x.bare = isTarget x := by
    cases x <;> rfl
  rw [← hbare a, ← hbare b, show a.bare = b.bare from h]

theorem assignment_blind : Blind Expr.Alike (assignment nested) (assignment nested) := by
  intro c d h
  refine .bind (disjunction_blind hn c d h) fun a b c₁ d₁ hab h₁ => ?_
  refine .bind (accept_blind _ c₁ d₁ h₁) ?_
  rintro _ _ c₂ d₂ (⟨_⟩ | _) h₂
  · refine .bind (hn.assignment c₂ d₂ h₂) fun x y _ _ hxy h₃ => ?_
    rw [isTarget_of_alike hab]
    split
    · exact .pure (hab.assign hxy _ _) h₃
    · exact .failAt _
  · exact .pure hab h₂

theorem binding_blind : Blind (fun x y => x.1.1 = y.1.1 ∧ Option.Rel Expr.Alike x.1.2 y.1.2) (binding nested)
    (binding nested) := by
  intro c d h
  refine .bind (requireKind_blind _ _ c d h) fun x y c₁ d₁ hname h₁ => ?_
  refine .bind (accept_blind _ c₁ d₁ h₁) ?_
  rintro _ _ c₂ d₂ (⟨_⟩ | _) h₂
  · exact .bind (hn.assignment c₂ d₂ h₂) fun a b _ _ hab h₃ => .pure ⟨hname, .some hab⟩ h₃
  · exact .pure ⟨hname, .none⟩ h₂

theorem varStatement_blind : Blind Stmt.Alike (varStatement nested) (varStatement nested) := by
  intro c d h
  refine .bind (requireKeyword_blind _ c d h) fun _ _ c₁ d₁ _ h₁ => ?_
  refine .bind (rounds_blind c₁ d₁ h₁) ?_
  rintro n _ c₂ d₂ rfl h₂
  refine .bind (separated_blind (binding_blind hn) n c₂ d₂ h₂) fun xs ys c₃ d₃ hxs h₃ => ?_
  have hbindings : Expr.bareBindings (xs.map (·.1)) = Expr.bareBindings (ys.map (·.1)) := by
    refine Expr.bareBindings_of_forall₂ ?_
    rwa [List.forall₂_map_left_iff, List.forall₂_map_right_iff]
  exact .bind (optionalSemicolon_blind c₃ d₃ h₃) fun _ _ _ _ _ h₄ => .pure (.var hbindings _ _) h₄

theorem condition_blind : Blind Expr.Alike (condition nested) (condition nested) := by
  intro c d h
  refine .bind (requireMark_blind _ _ c d h) fun _ _ c₁ d₁ _ h₁ => ?_
  refine .bind (hn.assignment c₁ d₁ h₁) fun a b c₂ d₂ hab h₂ => ?_
  exact .bind (requireMark_blind _ _ c₂ d₂ h₂) fun _ _ _ _ _ h₃ => .pure hab h₃

theorem ifStatement_blind : Blind Stmt.Alike (ifStatement nested) (ifStatement nested) := by
  intro c d h
  refine .bind (requireKeyword_blind _ c d h) fun _ _ c₁ d₁ _ h₁ => ?_
  refine .bind (condition_blind hn c₁ d₁ h₁) fun a b c₂ d₂ hab h₂ => ?_
  refine .bind (hn.statement c₂ d₂ h₂) fun x y c₃ d₃ hxy h₃ => ?_
  refine .bind (accept_blind _ c₃ d₃ h₃) ?_
  rintro _ _ c₄ d₄ (⟨_⟩ | _) h₄
  · exact .bind (hn.statement c₄ d₄ h₄) fun z w _ _ hzw h₅ => .pure (.condElse hab hxy hzw _ _) h₅
  · exact .pure (.cond hab hxy _ _) h₄

theorem whileStatement_blind : Blind Stmt.Alike (whileStatement nested) (whileStatement nested) := by
  intro c d h
  refine .bind (requireKeyword_blind _ c d h) fun _ _ c₁ d₁ _ h₁ => ?_
  refine .bind (condition_blind hn c₁ d₁ h₁) fun a b c₂ d₂ hab h₂ => ?_
  exact .bind (hn.statement c₂ d₂ h₂) fun x y _ _ hxy h₃ => .pure (.loop hab hxy _ _) h₃

theorem returnStatement_blind : Blind Stmt.Alike (returnStatement nested) (returnStatement nested) := by
  intro c d h
  refine .bind (requireKeyword_blind _ c d h) fun _ _ c₁ d₁ _ h₁ => .get ?_
  simp only [h₁.sees, h₁.atEnd]
  split
  · exact .bind (optionalSemicolon_blind c₁ d₁ h₁) fun _ _ _ _ _ h₂ => .pure rfl h₂
  · refine .bind (hn.assignment c₁ d₁ h₁) fun a b c₂ d₂ hab h₂ => ?_
    exact .bind (optionalSemicolon_blind c₂ d₂ h₂) fun _ _ _ _ _ h₃ => .pure (.return hab _ _) h₃

theorem throwStatement_blind : Blind Stmt.Alike (throwStatement nested) (throwStatement nested) := by
  intro c d h
  refine .bind (requireKeyword_blind _ c d h) fun _ _ c₁ d₁ _ h₁ => ?_
  refine .bind (hn.assignment c₁ d₁ h₁) fun a b c₂ d₂ hab h₂ => ?_
  exact .bind (optionalSemicolon_blind c₂ d₂ h₂) fun _ _ _ _ _ h₃ => .pure (.throw hab _ _) h₃

theorem tryStatement_blind : Blind Stmt.Alike (tryStatement nested) (tryStatement nested) := by
  intro c d h
  refine .bind (requireKeyword_blind _ c d h) fun _ _ c₁ d₁ _ h₁ => ?_
  refine .bind (block_blind hn c₁ d₁ h₁) fun x y c₂ d₂ hbody h₂ => ?_
  refine .bind (requireKeyword_blind _ c₂ d₂ h₂) fun _ _ c₃ d₃ _ h₃ => ?_
  refine .bind (requireMark_blind _ _ c₃ d₃ h₃) fun _ _ c₄ d₄ _ h₄ => ?_
  refine .bind (requireKind_blind _ _ c₄ d₄ h₄) fun name name' c₅ d₅ hname h₅ => ?_
  refine .bind (requireMark_blind _ _ c₅ d₅ h₅) fun _ _ c₆ d₆ _ h₆ => ?_
  exact .bind (block_blind hn c₆ d₆ h₆) fun z w _ _ hhandler h₇ => .pure (.try hbody hname hhandler _ _) h₇

theorem expressionStatement_blind : Blind Stmt.Alike (expressionStatement nested) (expressionStatement nested) := by
  intro c d h
  refine .bind (hn.assignment c d h) fun a b c₁ d₁ hab h₁ => ?_
  exact .bind (optionalSemicolon_blind c₁ d₁ h₁) fun _ _ _ _ _ h₂ => .pure (.expr hab) h₂

theorem statement_blind : Blind Stmt.Alike (statement nested) (statement nested) := by
  intro c d h
  refine .get ?_
  dsimp only
  rw [h.kind?]
  split
  · exact varStatement_blind hn c d h
  · exact .bind (functionDecl_blind hn true c d h) fun f g _ _ hfg h₁ => .pure (.function hfg) h₁
  · exact ifStatement_blind hn c d h
  · exact whileStatement_blind hn c d h
  · exact returnStatement_blind hn c d h
  · exact throwStatement_blind hn c d h
  · exact tryStatement_blind hn c d h
  · exact .bind (block_blind hn c d h) fun x y _ _ hitems h₁ => .pure (.block hitems _ _) h₁
  · exact .bind (optionalSemicolon_blind c d h) fun _ _ _ _ _ h₁ => .pure rfl h₁
  · exact expressionStatement_blind hn c d h

end Grammar

theorem levels_blind (n : Nat) : (levels n).Blind := by
  induction n with
  | zero => exact ⟨fun _ _ _ => .fail _, fun _ _ _ => .fail _, fun _ _ _ => .fail _⟩
  | succ n ih => exact ⟨restoring_blind (statement_blind ih), lend_blind (assignment_blind ih), unary_blind ih⟩

theorem script_blind : Blind (List.Forall₂ Stmt.Alike) script script := by
  intro c d h
  refine .bind (rounds_blind c d h) ?_
  rintro n _ c₁ d₁ rfl h₁
  exact upTo_blind (fun _ _ h => h.atEnd) (levels_blind maxNesting).statement n c₁ d₁ h₁

end Parser

def outline : Except Diagnostic (List Stmt) → Except Diagnostic (List Stmt)
  | .ok items => .ok (Stmt.bares items)
  | .error d => .error { d with span := none }

theorem outline_parse_of_words {source target : String} {ts us : Tokens} (hs : scan source = .ok ts)
    (ht : scan target = .ok us) (hwords : us.items.map Token.word = ts.items.map Token.word) :
    outline (parse target) = outline (parse source) := by
  have hsame : Parser.Cursor.Same ⟨us.items, us.finish, Parser.maxNesting⟩ ⟨ts.items, ts.finish, Parser.maxNesting⟩ :=
    ⟨hwords, rfl⟩
  have hagree := Parser.script_blind _ _ hsame
  have hrun (ts : Tokens) :
      ts.parse = (Parser.script ⟨ts.items, ts.finish, Parser.maxNesting⟩).map (·.1) := rfl
  simp only [parse, hs, ht, hrun]
  unfold Parser.Agree at hagree
  split at hagree
  · rename_i items _ items' _ hu ht
    rw [hu, ht]
    simp only [Except.map, outline, Stmt.bares_of_forall₂ hagree.1]
  · rename_i e f hu ht
    rw [hu, ht]
    simp only [Except.map, outline, ParseError.diagnostic, Diagnostic.of, show e.fault = f.fault from hagree]
  · exact hagree.elim

theorem layout_insensitive {source target : String} {ts : Tokens} (h : scan source = .ok ts)
    (hs : Respaced (ts.texts source) target.toList) :
    (∃ us, scan target = .ok us ∧ us.items.map Token.word = ts.items.map Token.word) ∧
      outline (parse target) = outline (parse source) := by
  obtain ⟨us, hus, hwords⟩ := scan_respaced h hs
  exact ⟨⟨us, hus, hwords⟩, outline_parse_of_words h hus hwords⟩

theorem layout_insensitive_commented :
    ∃ ts, scan "a=/**/1e1/b;//" = .ok ts ∧ Respaced (ts.texts "a=/**/1e1/b;//") " a =\t1e1\n/ b ;".toList ∧
      (∃ us, scan " a =\t1e1\n/ b ;" = .ok us ∧ us.items.map Token.word = ts.items.map Token.word) ∧
      outline (parse " a =\t1e1\n/ b ;") = outline (parse "a=/**/1e1/b;//") := by
  have hok : (scan "a=/**/1e1/b;//").toOption.map (·.texts "a=/**/1e1/b;//") =
      some [['a'], ['='], ['1', 'e', '1'], ['/'], ['b'], [';']] := by decide +kernel
  cases h : scan "a=/**/1e1/b;//" with
  | error e =>
    rw [h] at hok
    cases hok
  | ok ts =>
    rw [h] at hok
    have hspaced : Respaced (ts.texts "a=/**/1e1/b;//")
        ([' '] ++ (['a'] ++ ([' '] ++ (['='] ++ (['\t'] ++ (['1', 'e', '1'] ++ (['\n'] ++ (['/'] ++ ([' '] ++
          (['b'] ++ ([' '] ++ ([';'] ++ [])))))))))))) := by
      rw [show ts.texts _ = _ from Option.some.inj hok]
      refine .texts (by decide) (.next (by decide) (by decide) (.next (by decide) (by decide) ?_))
      exact .next (by decide) (by decide) (.next (by decide) (by decide)
        (.next (by decide) (by decide) (.last (by decide))))
    exact ⟨ts, rfl, hspaced, layout_insensitive h hspaced⟩

end ScriptEngine
