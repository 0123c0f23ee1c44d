import ScriptEngine.Proofs.Token.Pointing
import ScriptEngine.Tree.Parser

namespace ScriptEngine

namespace Parser

def Cursor.Sited (S : Span → Prop) (c : Cursor) : Prop :=
  S c.finish ∧ ∀ t ∈ c.rest, S t.span

def Blames {α : Type} (S : Span → Prop) (p : ParseM α) : Prop :=
  ∀ c : Cursor, c.Sited S →
    match p c with
    | .ok (_, d) => d.Sited S
    | .error e => S e.span

section Rules

variable {S : Span → Prop} {α β : Type} {p : ParseM α} {c : Cursor}

theorem Cursor.Sited.span (h : c.Sited S) : S c.span := by
  obtain ⟨rest, finish, budget⟩ := c
  cases rest with
  | nil => exact h.1
  | cons t ts => exact h.2 t List.mem_cons_self

theorem Cursor.Sited.tail {t : Token} {ts : List Token} (h : c.Sited S) (hc : c.rest = t :: ts) :
    Cursor.Sited S { c with rest := ts } :=
  ⟨h.1, fun u hu => h.2 u (hc ▸ List.mem_cons_of_mem t hu)⟩

theorem Cursor.Sited.head {t : Token} {ts : List Token} (h : c.Sited S) (hc : c.rest = t :: ts) : S t.span :=
  h.2 t (hc ▸ List.mem_cons_self)

namespace Blames

theorem pure (a : α) : Blames S (Pure.pure a : ParseM α) :=
  fun _ h => h

theorem bind {f : α → ParseM β} (hp : Blames S p) (hf : ∀ a, Blames S (f a)) : Blames S (p >>= f) := by
  intro c h
  have hb : (p >>= f) c = Except.bind (p c) fun s => f s.1 s.2 := rfl
  have hp := hp c h
  rw [hb]
  cases hx : p c with
  | error e =>
    rw [hx] at hp
    exact hp
  | ok found =>
    rw [hx] at hp
    exact hf found.1 found.2 hp

theorem get {f : Cursor → ParseM β} (hf : ∀ c, c.Sited S → Blames S (f c)) : Blames S (MonadState.get >>= f) :=
  fun c h => hf c h c h

theorem set {d : Cursor} (h : d.Sited S) : Blames S (MonadStateOf.set d : ParseM PUnit) :=
  fun _ _ => h

theorem budget {f : Cursor → Nat} : Blames S (modifyThe Cursor fun c => { c with budget := f c }) :=
  fun _ h => h

theorem failAt {s : Span} (fault : ParseFault) (h : S s) : Blames S (Parser.failAt s fault : ParseM α) :=
  fun _ _ => h

theorem fail (fault : ParseFault) : Blames S (Parser.fail fault : ParseM α) :=
  .get fun _ h => .failAt fault h.span

theorem takeIf {test : Token → Option α} {f : Option (α × Span) → ParseM β}
    (hsome : ∀ a s, S s → Blames S (f (some (a, s)))) (hnone : Blames S (f none)) :
    Blames S (Parser.takeIf test >>= f) := by
  simp only [Parser.takeIf, bind_assoc]
  refine .get fun c h => ?_
  obtain ⟨rest, finish, budget⟩ := c
  cases rest with
  | nil => exact hnone
  | cons t ts =>
    cases ht : test t with
    | none =>
      simp only [ht]
      exact hnone
    | some a =>
      simp only [ht, bind_assoc]
      exact .bind (.set (h.tail rfl)) fun _ => hsome a t.span (h.head rfl)

theorem accept {kind : TokenKind} {f : Option Span → ParseM β} (hsome : ∀ s, S s → Blames S (f (some s)))
    (hnone : Blames S (f none)) : Blames S (Parser.accept kind >>= f) := by
  simp only [Parser.accept, bind_assoc, pure_bind]
  exact .takeIf (fun _ s hs => hsome s hs) hnone

end Blames

end Rules
section Tokens

variable {S : Span → Prop} {α : Type}

theorem sees_blames (kind : TokenKind) : Blames S (sees kind) :=
  .get fun _ _ => .pure _

theorem rounds_blames : Blames S rounds :=
  .get fun _ _ => .pure _

theorem require_blames (test : Token → Option α) (what : Expected) : Blames S (require test what) :=
  .takeIf (fun a s _ => .pure (a, s)) (.get fun _ _ => .fail _)

theorem requireKind_blames (kind : TokenKind) (what : Expected) : Blames S (requireKind kind what) :=
  require_blames _ what

theorem requireMark_blames (m : Mark) (what : Expected) : Blames S (requireMark m what) :=
  .bind (requireKind_blames _ what) fun found => .pure found.2

theorem requireKeyword_blames (k : Keyword) : Blames S (requireKeyword k) :=
  .bind (requireKind_blames _ _) fun found => .pure found.2

theorem optionalSemicolon_blames : Blames S optionalSemicolon :=
  .accept (fun _ _ => .pure ()) (.pure ())

theorem spend_blames : Blames S spend := by
  refine .get fun c h => ?_
  split
  · exact .fail _
  · exact .set h

theorem paying_blames {p : ParseM α} {back : Cursor → Nat} (h : Blames S p) :
    Blames S (do spend; let a ← p; modifyThe Cursor fun c => { c with budget := back c }; return a) :=
  .bind spend_blames fun _ => .bind h fun a => .bind .budget fun _ => .pure a

theorem lend_blames {p : ParseM α} (h : Blames S p) : Blames S (lend p) :=
  paying_blames h

theorem restoring_blames {p : ParseM α} (h : Blames S p) : Blames S (restoring p) :=
  .get fun _ _ => paying_blames h

end Tokens

section Lists

variable {S : Span → Prop} {α : Type} {item : ParseM α}

theorem upTo_blames (done : Cursor → Bool) (h : Blames S item) (n : Nat) : Blames S (upTo done item n) := by
  induction n with
  | zero => exact .fail _
  | succ n ih =>
    refine .get fun c _ => ?_
    split
    · exact .pure []
    · exact .bind h fun x => .bind ih fun xs => .pure (x :: xs)

theorem separated_blames (h : Blames S item) (n : Nat) : Blames S (separated item n) := by
  induction n with
  | zero => exact .fail _
  | succ n ih => exact .bind h fun x => .accept (fun _ _ => .bind ih fun xs => .pure (x :: xs)) (.pure [x])

theorem listed_blames (close : Mark) (h : Blames S item) (n : Nat) : Blames S (listed close item n) := by
  induction n with
  | zero => exact .fail _
  | succ n ih =>
    refine .bind (sees_blames _) fun closed => ?_
    split
    · exact .pure []
    · exact .bind h fun x => .accept (fun _ _ => .bind ih fun xs => .pure (x :: xs)) (.pure [x])

theorem chained_blames {first : ParseM Expr} {link : Expr → ParseM (Option Expr)} (hfirst : Blames S first)
    (hlink : ∀ left, Blames S (link left)) : Blames S (chained first link) := by
  have hchain (n : Nat) (left : Expr) : Blames S (chain link n left) := by
    induction n generalizing left with
    | zero => exact .fail _
    | succ n ih =>
      refine .bind (hlink left) ?_
      rintro (_ | longer)
      · exact .pure left
      · exact ih longer
  exact .bind hfirst fun left => .get fun c _ => hchain _ left

end Lists

structure Nested.Blames (S : Span → Prop) (nested : Nested) : Prop where
  statement : Parser.Blames S nested.statement
  assignment : Parser.Blames S nested.assignment
  unary : Parser.Blames S nested.unary

section Grammar

variable {S : Span → Prop} {nested : Nested} (hn : nested.Blames S)

include hn

theorem block_blames : Blames S (block nested) := by
  refine .bind (requireMark_blames _ _) fun first => .bind rounds_blames fun n => ?_
  exact .bind (upTo_blames _ hn.statement n) fun items => .bind (requireMark_blames _ _) fun last => .pure _

omit hn in
theorem parameters_blames : Blames S parameters := by
  have hname : Blames S (do return (← requireKind .identifier .parameterName).1) :=
    .bind (requireKind_blames _ _) fun found => .pure found.1
  have hclose (params : List String) : Blames S (do let _ ← requireMark .parenClose .parametersClose; return params) :=
    .bind (requireMark_blames _ _) fun _ => .pure params
  refine .bind (requireMark_blames _ _) fun first => .bind (sees_blames _) fun closed => ?_
  dsimp only
  split
  · exact hclose []
  · exact .bind rounds_blames fun n => .bind (separated_blames hname n) hclose

omit hn in
theorem functionName_blames (named : Bool) : Blames S (functionName named) := by
  refine .takeIf (fun name _ _ => .pure (some name)) ?_
  dsimp only
  split
  · exact .get fun _ _ => .fail _
  · exact .pure none

theorem functionDecl_blames (named : Bool) : Blames S (functionDecl nested named) := by
  refine .bind (requireKeyword_blames _) fun first => .bind (functionName_blames named) fun name => ?_
  exact .bind parameters_blames fun params => .bind (block_blames hn) fun body => .pure _

theorem group_blames : Blames S (group nested) :=
  .bind (requireMark_blames _ _) fun _ => .bind hn.assignment fun _ => .bind (requireMark_blames _ _) fun _ => .pure _

theorem entry_blames : Blames S (entry nested) :=
  .bind (require_blames _ _) fun _ => .bind (requireMark_blames _ _) fun _ => .bind hn.assignment fun _ => .pure _

theorem object_blames : Blames S (object nested) := by
  refine .bind (requireMark_blames _ _) fun first => .bind rounds_blames fun n => ?_
  exact .bind (listed_blames _ (entry_blames hn) n) fun entries => .bind (requireMark_blames _ _) fun last => .pure _

theorem primary_blames : Blames S (primary nested) := by
  refine .get fun c h => ?_
  split
  · exact .fail _
  · next t ts hc =>
    split
    · exact .bind (.set (h.tail hc)) fun _ => .pure _
    · exact .fail _
    · split
      · exact .bind (functionDecl_blames hn false) fun decl => .pure _
      · exact group_blames hn
      · exact object_blames hn
      · exact .fail _

theorem arguments_blames : Blames S (arguments nested) := by
  refine .bind (sees_blames _) fun closed => ?_
  split
  · exact .pure []
  · exact .bind rounds_blames fun n => separated_blames hn.assignment n

omit hn in
theorem accepted_blames {α : Type} {kind : TokenKind} {yes no : ParseM α} (hyes : Blames S yes) (hno : Blames S no) :
    Blames S (do if (← accept kind).isSome then yes else no) :=
  .accept (fun _ _ => hyes) hno

omit hn in
theorem spending_blames {α : Type} {p : ParseM α} (test : Bool) (h : Blames S p) :
    Blames S (if test = true then do spend; p else p) := by
  split
  · exact .bind spend_blames fun _ => h
  · exact h

theorem memberLink_blames (left : Expr) : Blames S (memberLink nested left) := by
  refine .get fun c _ => spending_blames _ ?_
  refine accepted_blames ?_ (accepted_blames ?_ (accepted_blames ?_ (.pure none)))
  · exact .bind (arguments_blames hn) fun args => .bind (requireMark_blames _ _) fun last => .pure _
  · exact .bind hn.assignment fun index => .bind (requireMark_blames _ _) fun last => .pure _
  · exact .bind (require_blames _ _) fun found => .pure _

theorem member_blames : Blames S (member nested) :=
  chained_blames (primary_blames hn) (memberLink_blames hn)

theorem unary_blames : Blames S (unary nested) :=
  .takeIf (fun _ _ _ => .bind (lend_blames hn.unary) fun _ => .pure _) (member_blames hn)

omit hn in
theorem level_blames {ω : Type} {op? : Token → Option ω} {join : ω → Expr → Expr → Span → Expr} {operand : ParseM Expr}
    (h : Blames S operand) : Blames S (level op? join operand) :=
  chained_blames h fun _ =>
    .takeIf (fun _ _ _ => .bind spend_blames fun _ => .bind h fun _ => .pure _) (.pure none)

theorem disjunction_blames : Blames S (disjunction nested) :=
  level_blames (level_blames (level_blames (level_blames (level_blames (level_blames (unary_blames hn))))))

theorem assignment_blames : Blames S (assignment nested) := by
  refine .bind (disjunction_blames hn) fun target => .accept (fun equals hequals => ?_) (.pure target)
  refine .bind hn.assignment fun value => ?_
  split
  · exact .pure _
  · exact .failAt _ hequals

theorem binding_blames : Blames S (binding nested) :=
  .bind (requireKind_blames _ _) fun _ => .accept (fun _ _ => .bind hn.assignment fun _ => .pure _) (.pure _)

theorem varStatement_blames : Blames S (varStatement nested) := by
  refine .bind (requireKeyword_blames _) fun first => .bind rounds_blames fun n => ?_
  exact .bind (separated_blames (binding_blames hn) n) fun bindings => .bind optionalSemicolon_blames fun _ => .pure _

theorem condition_blames : Blames S (condition nested) :=
  .bind (requireMark_blames _ _) fun _ => .bind hn.assignment fun test =>
    .bind (requireMark_blames _ _) fun _ => .pure test

theorem ifStatement_blames : Blames S (ifStatement nested) := by
  refine .bind (requireKeyword_blames _) fun first => .bind (condition_blames hn) fun test => ?_
  refine .bind hn.statement fun yes => ?_
  exact .accept (fun _ _ => .bind hn.statement fun no => .pure _) (.pure _)

theorem whileStatement_blames : Blames S (whileStatement nested) :=
  .bind (requireKeyword_blames _) fun _ => .bind (condition_blames hn) fun _ => .bind hn.statement fun _ => .pure _

theorem returnStatement_blames : Blames S (returnStatement nested) := by
  refine .bind (requireKeyword_blames _) fun first => .get fun c _ => ?_
  split
  · exact .bind optionalSemicolon_blames fun _ => .pure _
  · exact .bind hn.assignment fun value => .bind optionalSemicolon_blames fun _ => .pure _

theorem throwStatement_blames : Blames S (throwStatement nested) :=
  .bind (requireKeyword_blames _) fun _ => .bind hn.assignment fun _ => .bind optionalSemicolon_blames fun _ => .pure _

theorem tryStatement_blames : Blames S (tryStatement nested) := by
  refine .bind (requireKeyword_blames _) fun first => .bind (block_blames hn) fun body => ?_
  refine .bind (requireKeyword_blames _) fun _ => .bind (requireMark_blames _ _) fun _ => ?_
  refine .bind (requireKind_blames _ _) fun name => .bind (requireMark_blames _ _) fun _ => ?_
  exact .bind (block_blames hn) fun handler => .pure _

theorem expressionStatement_blames : Blames S (expressionStatement nested) :=
  .bind hn.assignment fun _ => .bind optionalSemicolon_blames fun _ => .pure _

theorem statement_blames : Blames S (statement nested) := by
  refine .get fun c _ => ?_
  dsimp only
  split
  · exact varStatement_blames hn
  · exact .bind (functionDecl_blames hn true) fun decl => .pure _
  · exact ifStatement_blames hn
  · exact whileStatement_blames hn
  · exact returnStatement_blames hn
  · exact throwStatement_blames hn
  · exact tryStatement_blames hn
  · exact .bind (block_blames hn) fun items => .pure _
  · exact .bind optionalSemicolon_blames fun _ => .pure _
  · exact expressionStatement_blames hn

end Grammar

theorem levels_blame (S : Span → Prop) (n : Nat) : (levels n).Blames S := by
  induction n with
  | zero => exact ⟨.fail _, .fail _, .fail _⟩
  | succ n ih => exact ⟨restoring_blames (statement_blames ih), lend_blames (assignment_blames ih), unary_blames ih⟩

theorem script_blames (S : Span → Prop) : Blames S script :=
  .bind rounds_blames fun n => upTo_blames _ (levels_blame S maxNesting).statement n

end Parser

theorem Tokens.blames {ts : Tokens} {e : ParseError} (h : ts.parse = .error e) : e.span ∈ ts.spans := by
  have hsited : Parser.Cursor.Sited (· ∈ ts.spans) ⟨ts.items, ts.finish, Parser.maxNesting⟩ :=
    ⟨List.mem_append_right _ (List.mem_singleton_self _), fun t ht =>
      List.mem_append_left _ (List.mem_map_of_mem ht)⟩
  have hscript := Parser.script_blames (· ∈ ts.spans) _ hsited
  have hrun : ts.parse = (Parser.script ⟨ts.items, ts.finish, Parser.maxNesting⟩).map (·.1) := rfl
  rw [hrun] at h
  rw [Scanner.map_eq_error h] at hscript
  exact hscript

end ScriptEngine
