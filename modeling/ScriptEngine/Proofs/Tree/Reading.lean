import ScriptEngine.Proofs.Tree.Grammar
import ScriptEngine.Tree.Parser

namespace ScriptEngine

namespace Span

def Ends (s : Span) (ts : List Token) : Prop :=
  ∃ last, ts.getLast? = some last ∧ s.last = last.span.last

variable {s t : Span} {us vs : List Token}

theorem bounds_token (t : Token) : t.span.Bounds [t] :=
  ⟨t, t, rfl, rfl, rfl⟩

theorem Bounds.ends (h : s.Bounds us) : s.Ends us := by
  obtain ⟨first, last, -, hlast, rfl⟩ := h
  exact ⟨last, hlast, rfl⟩

theorem Ends.append (h : t.Ends vs) (us : List Token) : t.Ends (us ++ vs) := by
  obtain ⟨last, hlast, ht⟩ := h
  exact ⟨last, by rw [List.getLast?_append, hlast]; rfl, ht⟩

theorem Bounds.through (hs : s.Bounds us) (ht : t.Ends vs) : (s.through t).Bounds (us ++ vs) := by
  obtain ⟨first, last, hfirst, -, rfl⟩ := hs
  obtain ⟨last', hlast', ht⟩ := ht
  refine ⟨first, last', ?_, ?_, ?_⟩
  · rw [List.head?_append, hfirst]
    rfl
  · rw [List.getLast?_append, hlast']
    rfl
  · simp only [Span.through, ht]

end Span

theorem Expr.rank_le (e : Expr) : e.rank ≤ 8 := by
  cases e with
  | logical op => cases op <;> simp [rank, LogicalOp.rank]
  | binary op => cases op <;> simp [rank, BinaryOp.rank]
  | _ => simp [rank]

namespace Grammar

variable {α β : Type} {R : List Token → α → Prop}

theorem Separated.map {S : List Token → β → Prop} {f : α → β} (h : ∀ ts a, R ts a → S ts (f a))
    {ts : List Token} {as : List α} (hs : Separated R ts as) : Separated S ts (as.map f) := by
  induction hs with
  | one ha => exact .one (h _ _ ha)
  | cons ha hcomma _ ih => exact .cons (h _ _ ha) hcomma ih

theorem Separated.ends {span : α → Span} (h : ∀ ts a, R ts a → (span a).Ends ts)
    {ts : List Token} {as : List α} (hs : Separated R ts as) :
    ∃ s, as.getLast?.map span = some s ∧ s.Ends ts := by
  induction hs with
  | one ha => exact ⟨_, rfl, h _ _ ha⟩
  | @cons ts us comma a as ha hcomma hrest ih =>
    obtain ⟨s, hs, hends⟩ := ih
    refine ⟨s, ?_, (hends.append [comma]).append ts⟩
    cases hrest with
    | one => exact hs
    | cons => exact hs

theorem Trailing.cons {ts us : List Token} {comma : Token} {a : α} {as : List α} (ha : R ts a)
    (hcomma : comma.kind = .mark .comma) (h : Trailing R us as) : Trailing R (ts ++ comma :: us) (a :: as) := by
  cases h with
  | plain h =>
    cases h with
    | none => exact .comma (.one ha) hcomma
    | some h => exact .plain (.some (.cons ha hcomma h))
  | @comma us last as h hlast =>
    have hall := Trailing.comma (.cons ha hcomma h) hlast
    rwa [List.append_assoc] at hall

theorem Function.bounds {ts : List Token} {decl : FunctionDecl} (h : Function ts decl) : decl.span.Bounds ts := by
  cases h
  assumption

theorem Expression.bounds {ts : List Token} {e : Expr} (h : Expression ts e) : e.span.Bounds ts := by
  cases h with
  | function h => exact h.bounds
  | _ => assumption

theorem Statement.bounds {ts ending : List Token} {x : Stmt} (h : Statement ts ending x) : x.span.Bounds ts := by
  cases h with
  | function h => exact h.bounds
  | expr h => exact h.bounds
  | _ => assumption

def Ranked (r : Nat) (ts : List Token) (e : Expr) : Prop :=
  Expression ts e ∧ r ≤ e.rank

theorem Ranked.postfix {ts : List Token} {e : Expr} (h : Ranked 8 ts e) : e.rank = 8 :=
  Nat.le_antisymm e.rank_le h.2

end Grammar

open Grammar

namespace Parser

/-- If the parser comes to a value, it has taken tokens off the front, and `Q` holds of the value, of these
tokens and of those that are left. -/
def Reads {α : Type} (p : ParseM α) (Q : α → List Token → List Token → Prop) (c : Cursor) : Prop :=
  ∀ a c', p c = .ok (a, c') → ∃ ts, c.rest = ts ++ c'.rest ∧ Q a ts c'.rest

namespace Reads

variable {α β : Type} {p : ParseM α} {P P' : α → List Token → List Token → Prop} {c : Cursor}

theorem mono (h : Reads p P c) (hP : ∀ a ts rest, P a ts rest → P' a ts rest) : Reads p P' c := by
  intro a c' hp
  obtain ⟨ts, hts, ha⟩ := h a c' hp
  exact ⟨ts, hts, hP _ _ _ ha⟩

theorem consumed (h : Reads p P c) : Reads p (fun a ts rest => P a ts rest ∧ c.rest = ts ++ rest) c := by
  intro a c' hp
  obtain ⟨ts, hts, ha⟩ := h a c' hp
  exact ⟨ts, hts, ha, hts⟩

theorem pure {a : α} (h : P a [] c.rest) : Reads (Pure.pure a) P c := by
  intro a' c' hp
  cases hp
  exact ⟨[], rfl, h⟩

theorem bind {f : α → ParseM β} {Q : β → List Token → List Token → Prop} (h : Reads p P c)
    (hf : ∀ a ts c', P a ts c'.rest → Reads (f a) (fun b us => Q b (ts ++ us)) c') : Reads (p >>= f) Q c := by
  intro b c' hp
  cases hx : p c with
  | error e =>
    have hb : (p >>= f) c = .error e := by
      show Except.bind (p c) _ = _
      rw [hx]
      rfl
    rw [hb] at hp
    cases hp
  | ok found =>
    obtain ⟨a, c₁⟩ := found
    have hb : (p >>= f) c = f a c₁ := by
      show Except.bind (p c) _ = _
      rw [hx]
      rfl
    rw [hb] at hp
    obtain ⟨ts, hts, ha⟩ := h a c₁ hx
    obtain ⟨us, hus, hQ⟩ := hf a ts c₁ ha b c' hp
    exact ⟨ts ++ us, by rw [hts, hus, List.append_assoc], hQ⟩

theorem get {f : Cursor → ParseM β} {Q : β → List Token → List Token → Prop} (h : Reads (f c) Q c) :
    Reads (MonadState.get >>= f) Q c := h

theorem budget {f : Cursor → Cursor} {Q : PUnit → List Token → List Token → Prop} (hf : (f c).rest = c.rest)
    (h : Q ⟨⟩ [] c.rest) : Reads (modifyThe Cursor f) Q c := by
  intro a c' hp
  cases hp
  exact ⟨[], hf.symm, by rw [hf]; exact h⟩

theorem failAt (span : Span) (fault : ParseFault) : Reads (Parser.failAt span fault : ParseM α) P c := by
  intro a c' hp
  cases hp

theorem fail (fault : ParseFault) : Reads (Parser.fail fault : ParseM α) P c :=
  get (failAt _ fault)

end Reads

section Tokens

variable {α : Type} {c : Cursor}

def Marked (kind : TokenKind) (s : Span) (ts : List Token) (_rest : List Token) : Prop :=
  ∃ t, ts = [t] ∧ t.kind = kind ∧ s = t.span

theorem sees_reads (kind : TokenKind) : Reads (sees kind) (fun _ ts _ => ts = []) c :=
  .get (.pure rfl)

theorem rounds_reads : Reads rounds (fun _ ts _ => ts = []) c :=
  .get (.pure rfl)

theorem takeIf_reads (test : Token → Option α) :
    Reads (takeIf test) (fun found ts rest =>
      match found with
      | none => ts = [] ∧ ∀ t, rest.head? = some t → test t = none
      | some (a, s) => ∃ t, ts = [t] ∧ test t = some a ∧ s = t.span) c := by
  refine .get ?_
  obtain ⟨rest, finish, budget⟩ := c
  cases rest with
  | nil =>
    refine .pure ⟨rfl, ?_⟩
    rintro t ⟨⟩
  | cons t ts =>
    dsimp only
    cases ht : test t with
    | none =>
      refine .pure ⟨rfl, ?_⟩
      rintro t' ⟨⟩
      exact ht
    | some a =>
      intro found c' hp
      cases hp
      exact ⟨[t], rfl, t, rfl, ht, rfl⟩

theorem accept_reads (kind : TokenKind) :
    Reads (accept kind) (fun found ts rest =>
      match found with
      | none => ts = [] ∧ ∀ t, rest.head? = some t → t.kind ≠ kind
      | some s => Marked kind s ts rest) c := by
  refine .bind (takeIf_reads _) ?_
  rintro (_ | ⟨⟨⟩, s⟩) ts c' h
  · obtain ⟨rfl, hnone⟩ := h
    refine .pure ⟨rfl, fun t ht hk => ?_⟩
    have := hnone t ht
    rw [if_pos hk] at this
    cases this
  · obtain ⟨t, rfl, ht, rfl⟩ := h
    refine .pure ⟨t, rfl, Decidable.byContradiction fun hk => ?_, rfl⟩
    rw [if_neg hk] at ht
    cases ht

theorem require_reads (test : Token → Option α) (what : Expected) :
    Reads (require test what) (fun found ts _ => ∃ t, ts = [t] ∧ test t = some found.1 ∧ found.2 = t.span) c := by
  refine .bind (takeIf_reads test) ?_
  rintro (_ | ⟨a, s⟩) ts c' h
  · exact .get (.fail _)
  · obtain ⟨t, rfl, ht, rfl⟩ := h
    exact .pure ⟨t, rfl, ht, rfl⟩

theorem requireKind_reads (kind : TokenKind) (what : Expected) :
    Reads (requireKind kind what) (fun found ts _ => ∃ t, ts = [t] ∧ t.kind = kind ∧ found = (t.lexeme, t.span)) c := by
  refine (require_reads _ what).mono ?_
  rintro ⟨lexeme, s⟩ ts rest ⟨t, rfl, ht, rfl⟩
  split at ht
  · next hk =>
    cases ht
    exact ⟨t, rfl, hk, rfl⟩
  · cases ht

theorem requireMark_reads (m : Mark) (what : Expected) : Reads (requireMark m what) (Marked (.mark m)) c := by
  refine .bind (requireKind_reads _ what) ?_
  rintro _ _ c' ⟨t, rfl, hk, rfl⟩
  exact .pure ⟨t, rfl, hk, rfl⟩

theorem requireKeyword_reads (k : Keyword) : Reads (requireKeyword k) (Marked (.keyword k)) c := by
  refine .bind (requireKind_reads _ _) ?_
  rintro _ _ c' ⟨t, rfl, hk, rfl⟩
  exact .pure ⟨t, rfl, hk, rfl⟩

theorem optionalSemicolon_reads : Reads optionalSemicolon (fun _ ts rest =>
    Ending ts ∧ (ts = [] → ∀ t, rest.head? = some t → t.kind ≠ .mark .semicolon)) c := by
  refine .bind (accept_reads _) ?_
  rintro (_ | s) ts c' h
  · obtain ⟨rfl, hnone⟩ := h
    exact .pure ⟨.none, fun _ => hnone⟩
  · obtain ⟨t, rfl, hk, -⟩ := h
    exact .pure ⟨.semicolon hk, nofun⟩

theorem spend_reads : Reads spend (fun _ ts _ => ts = []) c := by
  refine .get ?_
  cases c.budget with
  | zero => exact .fail _
  | succ n =>
    intro a c' hp
    cases hp
    exact ⟨[], rfl, rfl⟩

theorem paying_reads {p : ParseM α} {P : α → List Token → List Token → Prop} {back : Cursor → Cursor}
    (hback : ∀ d, (back d).rest = d.rest) (h : ∀ d : Cursor, d.rest = c.rest → Reads p P d) :
    Reads (do spend; let a ← p; modifyThe Cursor back; return a) P c := by
  refine .bind (spend_reads.consumed) ?_
  rintro _ _ d ⟨rfl, hd⟩
  refine .bind (h d hd.symm) fun a ts d' ha => ?_
  refine .bind (.budget (Q := fun _ us rest => us = [] ∧ P a ts rest) (hback d') ⟨rfl, ha⟩) ?_
  rintro _ _ d'' ⟨rfl, ha⟩
  refine .pure ?_
  simpa using ha

theorem lend_reads {p : ParseM α} {P : α → List Token → List Token → Prop}
    (h : ∀ d : Cursor, d.rest = c.rest → Reads p P d) : Reads (lend p) P c :=
  paying_reads (fun _ => rfl) h

theorem restoring_reads {p : ParseM α} {P : α → List Token → List Token → Prop}
    (h : ∀ d : Cursor, d.rest = c.rest → Reads p P d) : Reads (restoring p) P c :=
  .get (paying_reads (fun _ => rfl) h)

theorem spending_reads {test : Bool} {p : ParseM α} {P : α → List Token → List Token → Prop} (h : ∀ d, Reads p P d) :
    Reads (if test = true then do spend; p else p) P c := by
  split
  · refine .bind spend_reads ?_
    rintro _ _ d rfl
    exact h d
  · exact h c

theorem accepted_reads {kind : TokenKind} {yes no : ParseM α} {P : α → List Token → List Token → Prop}
    (hyes : ∀ t d, t.kind = kind → Reads yes (fun a ts => P a (t :: ts)) d) (hno : ∀ d, Reads no P d) :
    Reads (do if (← accept kind).isSome then yes else no) P c := by
  refine .bind (accept_reads kind) ?_
  rintro (_ | s) _ d h
  · obtain ⟨rfl, -⟩ := h
    exact hno d
  · obtain ⟨t, rfl, hk, -⟩ := h
    exact hyes t d hk

theorem propertyName?_names {t : Token} {name : String} (h : propertyName? t = some name) : NamesProperty t name := by
  unfold propertyName? at h
  split at h <;> cases h
  · exact ⟨.inl ‹_›, rfl⟩
  · exact ⟨.inr (.inl ⟨_, ‹_›⟩), rfl⟩
  · exact ⟨.inr (.inr (.inl ‹_›)), rfl⟩
  · exact ⟨.inr (.inr (.inr ‹_›)), rfl⟩

end Tokens

section Lists

variable {α : Type} {item : ParseM α} {R : List Token → α → Prop}

theorem upTo_reads (hitem : ∀ c, Reads item (fun x ts _ => R ts x) c) (done : Cursor → Bool) (n : Nat) (c : Cursor) :
    Reads (upTo done item n) (fun xs ts rest => Sequence R ts xs ∧ ∃ d : Cursor, d.rest = rest ∧ done d = true) c := by
  induction n generalizing c with
  | zero => exact .fail _
  | succ n ih =>
    refine .get ?_
    split
    · next hdone => exact .pure ⟨.nil, c, rfl, hdone⟩
    · refine .bind (hitem c) fun x ts c₁ hx => ?_
      refine .bind (ih c₁) fun xs us c₂ hxs => .pure ?_
      rw [List.append_nil]
      exact ⟨.cons hx hxs.1, hxs.2⟩

theorem separated_reads (hitem : ∀ c, Reads item (fun x ts _ => R ts x) c) (n : Nat) (c : Cursor) :
    Reads (separated item n) (fun xs ts _ => Separated R ts xs) c := by
  induction n generalizing c with
  | zero => exact .fail _
  | succ n ih =>
    refine .bind (hitem c) fun x ts c₁ hx => ?_
    refine .bind (accept_reads _) ?_
    rintro (_ | s) _ c₂ h
    · obtain ⟨rfl, -⟩ := h
      refine .pure ?_
      simpa using Separated.one hx
    · obtain ⟨comma, rfl, hcomma, -⟩ := h
      refine .bind (ih c₂) fun xs us c₃ hxs => .pure ?_
      simpa using Separated.cons hx hcomma hxs

theorem listed_reads (hitem : ∀ c, Reads item (fun x ts _ => R ts x) c) (close : Mark) (n : Nat) (c : Cursor) :
    Reads (listed close item n) (fun xs ts _ => Trailing R ts xs) c := by
  induction n generalizing c with
  | zero => exact .fail _
  | succ n ih =>
    refine .bind (sees_reads _) ?_
    rintro closed _ c₁ rfl
    split
    · exact .pure (.plain .none)
    · refine .bind (hitem c₁) fun x ts c₂ hx => ?_
      refine .bind (accept_reads _) ?_
      rintro (_ | s) _ c₃ h
      · obtain ⟨rfl, -⟩ := h
        refine .pure ?_
        simpa using Trailing.plain (.some (.one hx))
      · obtain ⟨comma, rfl, hcomma, -⟩ := h
        refine .bind (ih c₃) fun xs us c₄ hxs => .pure ?_
        simpa using Trailing.cons hx hcomma hxs

end Lists

section Chains

def Extends (P : List Token → Expr → Prop) (link : Expr → ParseM (Option Expr)) : Prop :=
  ∀ ts left c, P ts left → Reads (link left) (fun found us _ =>
    match found with
    | none => us = []
    | some longer => P (ts ++ us) longer) c

variable {P : List Token → Expr → Prop} {link : Expr → ParseM (Option Expr)}

theorem chain_reads (hlink : Extends P link) (n : Nat) {ts : List Token} {left : Expr} (hleft : P ts left) (c : Cursor) :
    Reads (chain link n left) (fun x us _ => P (ts ++ us) x) c := by
  induction n generalizing ts left c with
  | zero => exact .fail _
  | succ n ih =>
    refine .bind (hlink ts left c hleft) ?_
    rintro (_ | longer) us c₁ h
    · obtain rfl := h
      refine .pure ?_
      simpa using hleft
    · refine (ih h c₁).mono fun x vs _ hx => ?_
      rwa [← List.append_assoc]

theorem chained_reads {first : ParseM Expr} (hfirst : ∀ c, Reads first (fun x ts _ => P ts x) c)
    (hlink : Extends P link) (c : Cursor) : Reads (chained first link) (fun x ts _ => P ts x) c := by
  refine .bind (hfirst c) fun left ts c₁ hleft => .get ?_
  exact chain_reads hlink _ hleft c₁

def Joins {ω : Type} (r : Nat) (op? : Token → Option ω) (join : ω → Expr → Expr → Span → Expr) : Prop :=
  ∀ {t op ts us left right s}, op? t = some op → Ranked r ts left → Ranked (r + 1) us right →
    s.Bounds (ts ++ t :: us) → Ranked r (ts ++ t :: us) (join op left right s)

theorem operatorLink_extends {ω : Type} {r : Nat} {op? : Token → Option ω} {join : ω → Expr → Expr → Span → Expr}
    {operand : ParseM Expr} (hjoin : Joins r op? join)
    (hoperand : ∀ c, Reads operand (fun x ts _ => Ranked (r + 1) ts x) c) :
    Extends (Ranked r) (operatorLink op? operand join) := by
  intro ts left c hleft
  refine .bind (takeIf_reads op?) ?_
  rintro (_ | ⟨op, s⟩) _ c₁ h
  · exact .pure (by simp [h.1])
  · obtain ⟨t, rfl, hop, rfl⟩ := h
    refine .bind spend_reads ?_
    rintro _ _ c₂ rfl
    refine .bind (hoperand c₂) fun right us c₃ hright => .pure ?_
    have hspan := hleft.1.bounds.through (hright.1.bounds.ends.append [t])
    simpa using hjoin hop hleft hright hspan

theorem level_reads {ω : Type} {r : Nat} {op? : Token → Option ω} {join : ω → Expr → Expr → Span → Expr}
    {operand : ParseM Expr} (hjoin : Joins r op? join)
    (hoperand : ∀ c, Reads operand (fun x ts _ => Ranked (r + 1) ts x) c) (c : Cursor) :
    Reads (level op? join operand) (fun x ts _ => Ranked r ts x) c := by
  refine chained_reads (fun c => ?_) (operatorLink_extends hjoin hoperand) c
  exact (hoperand c).mono fun x ts _ hx => ⟨hx.1, Nat.le_of_succ_le hx.2⟩

theorem binary_joins {r : Nat} {op? : Token → Option BinaryOp}
    (hop : ∀ t op, op? t = some op → t.kind = .mark op.mark ∧ op.rank = r) : Joins r op? .binary := by
  intro t op ts us left right s ht hleft hright hs
  obtain ⟨hkind, rfl⟩ := hop t op ht
  exact ⟨.binary hleft.1 hleft.2 hkind hright.1 hright.2 hs, Nat.le_refl _⟩

theorem logical_joins {r : Nat} {op? : Token → Option LogicalOp}
    (hop : ∀ t op, op? t = some op → t.kind = .mark op.mark ∧ op.rank = r) : Joins r op? .logical := by
  intro t op ts us left right s ht hleft hright hs
  obtain ⟨hkind, rfl⟩ := hop t op ht
  exact ⟨.logical hleft.1 hleft.2 hkind hright.1 hright.2 hs, Nat.le_refl _⟩

theorem factorOp?_marks (t : Token) (op : BinaryOp) (h : factorOp? t = some op) :
    t.kind = .mark op.mark ∧ op.rank = 6 := by
  unfold factorOp? at h
  split at h <;> cases h
  all_goals exact ⟨‹_›, rfl⟩

theorem termOp?_marks (t : Token) (op : BinaryOp) (h : termOp? t = some op) :
    t.kind = .mark op.mark ∧ op.rank = 5 := by
  unfold termOp? at h
  split at h <;> cases h
  all_goals exact ⟨‹_›, rfl⟩

theorem comparisonOp?_marks (t : Token) (op : BinaryOp) (h : comparisonOp? t = some op) :
    t.kind = .mark op.mark ∧ op.rank = 4 := by
  unfold comparisonOp? at h
  split at h <;> cases h
  all_goals exact ⟨‹_›, rfl⟩

theorem equalityOp?_marks (t : Token) (op : BinaryOp) (h : equalityOp? t = some op) :
    t.kind = .mark op.mark ∧ op.rank = 3 := by
  unfold equalityOp? at h
  split at h <;> cases h
  all_goals exact ⟨‹_›, rfl⟩

theorem andOp?_marks (t : Token) (op : LogicalOp) (h : andOp? t = some op) :
    t.kind = .mark op.mark ∧ op.rank = 2 := by
  unfold andOp? at h
  split at h <;> cases h
  exact ⟨‹_›, rfl⟩

theorem orOp?_marks (t : Token) (op : LogicalOp) (h : orOp? t = some op) :
    t.kind = .mark op.mark ∧ op.rank = 1 := by
  unfold orOp? at h
  split at h <;> cases h
  exact ⟨‹_›, rfl⟩

end Chains

def Complete (x : Stmt) (ts rest : List Token) : Prop :=
  Item ts x ∧ (x.dangles = true → ∀ t, rest.head? = some t → t.kind ≠ .keyword .elseWord)

structure Nested.Sound (nested : Nested) : Prop where
  statement : ∀ c, Reads nested.statement Complete c
  assignment : ∀ c, Reads nested.assignment (fun x ts _ => Expression ts x) c
  unary : ∀ c, Reads nested.unary (fun x ts _ => Ranked 7 ts x) c

section Grammar

variable {nested : Nested} (hn : nested.Sound) (c : Cursor)
include hn

theorem block_reads : Reads (block nested) (fun found ts _ => Block ts found.1 ∧ found.2.Bounds ts) c := by
  refine .bind (requireMark_reads _ _) ?_
  rintro _ _ c₁ ⟨first, rfl, hfirst, rfl⟩
  refine .bind rounds_reads ?_
  rintro n _ c₂ rfl
  refine .bind (upTo_reads (fun c => (hn.statement c).mono fun _ _ _ h => h.1) _ n c₂) fun items ts c₃ hitems => ?_
  refine .bind (requireMark_reads _ _) ?_
  rintro _ _ c₄ ⟨last, rfl, hlast, rfl⟩
  refine .pure ⟨.intro hfirst hitems.1 hlast, ?_⟩
  exact (Span.bounds_token first).through ((Span.bounds_token last).ends.append ts)

omit hn in
theorem parameters_reads : Reads parameters (fun params ts _ => ∃ first last ps, ts = first :: ps ++ [last] ∧
    first.kind = .mark .parenOpen ∧ Listed Parameter ps params ∧ last.kind = .mark .parenClose) c := by
  have hparam : ∀ c, Reads (do return (← requireKind .identifier .parameterName).1)
      (fun x ts _ => Parameter ts x) c := by
    intro c
    refine .bind (requireKind_reads _ _) ?_
    rintro _ _ c₁ ⟨t, rfl, hk, rfl⟩
    exact .pure (.intro ⟨hk, rfl⟩)
  refine .bind (requireMark_reads _ _) ?_
  rintro _ _ c₁ ⟨first, rfl, hfirst, rfl⟩
  refine .bind (sees_reads _) ?_
  rintro closed _ c₂ rfl
  have hclose : ∀ params ps c, Listed Parameter ps params →
      Reads (do let _ ← requireMark .parenClose .parametersClose; return params)
        (fun params us _ => ∃ first' last ps', [first] ++ ([] ++ (ps ++ us)) = first' :: ps' ++ [last] ∧
          first'.kind = .mark .parenOpen ∧ Listed Parameter ps' params ∧ last.kind = .mark .parenClose) c := by
    intro params ps c hps
    refine .bind (requireMark_reads _ _) ?_
    rintro _ _ c₁ ⟨last, rfl, hlast, rfl⟩
    exact .pure ⟨first, last, ps, rfl, hfirst, hps, hlast⟩
  split
  · exact hclose [] [] c₂ .none
  · refine .bind rounds_reads ?_
    rintro n _ c₃ rfl
    refine .bind (separated_reads hparam n c₃) fun params ps c₄ hps => ?_
    exact hclose params ps c₄ (.some hps)

omit hn in
theorem functionName_reads (named : Bool) : Reads (functionName named)
    (fun name ts _ => FunctionName ts name ∧ (named = true → name ≠ none)) c := by
  refine .bind (takeIf_reads _) ?_
  rintro (_ | ⟨name, s⟩) _ c₁ h
  · obtain ⟨rfl, -⟩ := h
    dsimp only
    split
    · exact .get (.fail _)
    · next hnamed => exact .pure ⟨.none, fun h => absurd h hnamed⟩
  · obtain ⟨t, rfl, ht, rfl⟩ := h
    split at ht <;> cases ht
    exact .pure ⟨.some ⟨‹_›, rfl⟩, fun _ => nofun⟩

theorem functionDecl_reads (named : Bool) : Reads (functionDecl nested named)
    (fun decl ts _ => Function ts decl ∧ (named = true → decl.name ≠ none)) c := by
  refine .bind (requireKeyword_reads _) ?_
  rintro _ _ c₁ ⟨first, rfl, hfirst, rfl⟩
  refine .bind (functionName_reads c₁ named) ?_
  rintro name ns c₂ ⟨hname, hnamed⟩
  refine .bind (parameters_reads c₂) ?_
  rintro params _ c₃ ⟨parenOpen, parenClose, ps, rfl, hopen, hparams, hclose⟩
  refine .bind (block_reads hn c₃) ?_
  rintro ⟨body, last⟩ bs c₄ ⟨hbody, hlast⟩
  refine .pure ⟨?_, hnamed⟩
  have hspan := (Span.bounds_token first).through (hlast.ends.append (ns ++ (parenOpen :: ps ++ [parenClose])))
  have hall : Function (first :: ns ++ (parenOpen :: ps ++ parenClose :: bs))
      ⟨name, params, body, first.span.through last⟩ :=
    .intro hfirst hname hopen hparams hclose hbody (by simpa using hspan)
  simpa using hall

theorem group_reads : Reads (group nested) (fun x ts _ => Ranked 8 ts x) c := by
  refine .bind (requireMark_reads _ _) ?_
  rintro _ _ c₁ ⟨first, rfl, hfirst, rfl⟩
  refine .bind (hn.assignment c₁) fun inner ts c₂ hinner => ?_
  refine .bind (requireMark_reads _ _) ?_
  rintro _ _ c₃ ⟨last, rfl, hlast, rfl⟩
  refine .pure ⟨.group hfirst hinner hlast ?_, Nat.le_refl _⟩
  exact (Span.bounds_token first).through ((Span.bounds_token last).ends.append ts)

theorem entry_reads : Reads (entry nested) (fun x ts _ => Entry ts x) c := by
  refine .bind (require_reads _ _) ?_
  rintro ⟨name, s⟩ _ c₁ ⟨key, rfl, hkey, rfl⟩
  refine .bind (requireMark_reads _ _) ?_
  rintro _ _ c₂ ⟨colon, rfl, hcolon, rfl⟩
  refine .bind (hn.assignment c₂) fun value ts c₃ hvalue => .pure ?_
  rw [List.append_nil]
  exact .intro (propertyName?_names hkey) hcolon hvalue

theorem object_reads : Reads (object nested) (fun x ts _ => Ranked 8 ts x) c := by
  refine .bind (requireMark_reads _ _) ?_
  rintro _ _ c₁ ⟨first, rfl, hfirst, rfl⟩
  refine .bind rounds_reads ?_
  rintro n _ c₂ rfl
  refine .bind (listed_reads (entry_reads hn) _ n c₂) fun entries ts c₃ hentries => ?_
  refine .bind (requireMark_reads _ _) ?_
  rintro _ _ c₄ ⟨last, rfl, hlast, rfl⟩
  refine .pure ⟨.object hfirst hentries hlast ?_, Nat.le_refl _⟩
  exact (Span.bounds_token first).through ((Span.bounds_token last).ends.append ts)

omit hn in
theorem atom?_derives {t : Token} {x : Expr} (h : atom? t = some (.ok x)) : Ranked 8 [t] x := by
  have hs := Span.bounds_token t
  unfold atom? at h
  split at h
  case h_5 hk =>
    split at h
    · next value hread =>
      cases h
      exact ⟨.number hk hread hs, Nat.le_refl _⟩
    · cases h
  all_goals cases h
  · exact ⟨.true ‹_› hs, Nat.le_refl _⟩
  · exact ⟨.false ‹_› hs, Nat.le_refl _⟩
  · exact ⟨.null ‹_› hs, Nat.le_refl _⟩
  · exact ⟨.this ‹_› hs, Nat.le_refl _⟩
  · exact ⟨.string ‹_› hs, Nat.le_refl _⟩
  · exact ⟨.name ⟨‹_›, rfl⟩ hs, Nat.le_refl _⟩

theorem primary_reads : Reads (primary nested) (fun x ts _ => Ranked 8 ts x) c := by
  refine .get ?_
  obtain ⟨rest, finish, budget⟩ := c
  cases rest with
  | nil => exact .fail _
  | cons t ts =>
    dsimp only
    cases ha : atom? t with
    | some found =>
      cases found with
      | error fault => exact .fail _
      | ok x =>
        intro x' c' hp
        cases hp
        exact ⟨[t], rfl, atom?_derives ha⟩
    | none =>
      dsimp only
      split
      · refine .bind (functionDecl_reads hn _ false) fun decl us c₁ hdecl => .pure ?_
        rw [List.append_nil]
        exact ⟨.function hdecl.1, Nat.le_refl _⟩
      · exact group_reads hn _
      · exact object_reads hn _
      · exact .fail _

theorem arguments_reads : Reads (arguments nested) (fun xs ts _ => Listed Expression ts xs) c := by
  refine .bind (sees_reads _) ?_
  rintro closed _ c₁ rfl
  split
  · exact .pure .none
  · refine .bind rounds_reads ?_
    rintro n _ c₂ rfl
    exact (separated_reads hn.assignment n c₂).mono fun _ _ _ h => .some h

theorem memberLink_extends : Extends (Ranked 8) (memberLink nested) := by
  intro ts left c hleft
  apply Reads.get
  refine spending_reads fun c => ?_
  refine accepted_reads (fun first c hfirst => ?_) fun c => ?_
  · refine .bind (arguments_reads hn c) fun args us c₁ hargs => ?_
    refine .bind (requireMark_reads _ _) ?_
    rintro _ _ c₂ ⟨last, rfl, hlast, rfl⟩
    refine .pure ⟨.call hleft.1 hleft.postfix hfirst hargs hlast ?_, Nat.le_refl _⟩
    exact hleft.1.bounds.through ((Span.bounds_token last).ends.append (first :: us))
  refine accepted_reads (fun first c hfirst => ?_) fun c => ?_
  · refine .bind (hn.assignment c) fun index us c₁ hindex => ?_
    refine .bind (requireMark_reads _ _) ?_
    rintro _ _ c₂ ⟨last, rfl, hlast, rfl⟩
    refine .pure ⟨.index hleft.1 hleft.postfix hfirst hindex hlast ?_, Nat.le_refl _⟩
    exact hleft.1.bounds.through ((Span.bounds_token last).ends.append (first :: us))
  refine accepted_reads (fun dot c hdot => ?_) fun c => .pure rfl
  refine .bind (require_reads _ _) ?_
  rintro ⟨name, s⟩ _ c₁ ⟨last, rfl, hname, rfl⟩
  refine .pure ⟨.field hleft.1 hleft.postfix hdot (propertyName?_names hname) ?_, Nat.le_refl _⟩
  exact hleft.1.bounds.through ((Span.bounds_token last).ends.append [dot])

theorem member_reads : Reads (member nested) (fun x ts _ => Ranked 8 ts x) c :=
  chained_reads (primary_reads hn) (memberLink_extends hn) c

omit hn in
theorem unaryOp?_kind {t : Token} {op : UnaryOp} (h : unaryOp? t = some op) : t.kind = op.kind := by
  unfold unaryOp? at h
  split at h <;> cases h
  all_goals assumption

theorem unary_reads : Reads (unary nested) (fun x ts _ => Ranked 7 ts x) c := by
  refine .bind (takeIf_reads unaryOp?) ?_
  rintro (_ | ⟨op, s⟩) _ c₁ h
  · obtain ⟨rfl, -⟩ := h
    exact (member_reads hn c₁).mono fun x ts _ hx => ⟨hx.1, Nat.le_of_succ_le hx.2⟩
  · obtain ⟨first, rfl, hop, rfl⟩ := h
    refine .bind (lend_reads fun d _ => hn.unary d) fun operand ts c₂ hoperand => .pure ?_
    rw [List.append_nil]
    refine ⟨.unary (unaryOp?_kind hop) hoperand.1 hoperand.2 ?_, Nat.le_refl _⟩
    exact (Span.bounds_token first).through hoperand.1.bounds.ends

theorem disjunction_reads : Reads (disjunction nested) (fun x ts _ => Ranked 1 ts x) c := by
  refine level_reads (logical_joins orOp?_marks) (fun c => ?_) c
  refine level_reads (logical_joins andOp?_marks) (fun c => ?_) c
  refine level_reads (binary_joins equalityOp?_marks) (fun c => ?_) c
  refine level_reads (binary_joins comparisonOp?_marks) (fun c => ?_) c
  refine level_reads (binary_joins termOp?_marks) (fun c => ?_) c
  exact level_reads (binary_joins factorOp?_marks) (unary_reads hn) c

omit hn in
theorem assignable_of_isTarget {x : Expr} (h : isTarget x = true) : x.Assignable := by
  unfold isTarget at h
  split at h
  · exact .name _ _
  · exact .index _ _ _
  · exact .field _ _ _
  · cases h

theorem assignment_reads : Reads (assignment nested) (fun x ts _ => Expression ts x) c := by
  refine .bind (disjunction_reads hn c) fun target ts c₁ htarget => ?_
  refine .bind (accept_reads _) ?_
  rintro (_ | s) _ c₂ h
  · obtain ⟨rfl, -⟩ := h
    refine .pure ?_
    simpa using htarget.1
  · obtain ⟨equals, rfl, hequals, rfl⟩ := h
    refine .bind (hn.assignment c₂) fun value us c₃ hvalue => ?_
    split
    · next ht =>
      refine .pure ?_
      have hspan := htarget.1.bounds.through (hvalue.bounds.ends.append [equals])
      simpa using Expression.assign htarget.1 (assignable_of_isTarget ht) hequals hvalue hspan
    · exact .failAt _ _

theorem binding_reads : Reads (binding nested) (fun x ts _ => Binding ts x.1 ∧ x.2.Ends ts) c := by
  refine .bind (requireKind_reads _ _) ?_
  rintro _ _ c₁ ⟨t, rfl, ht, rfl⟩
  refine .bind (accept_reads _) ?_
  rintro (_ | s) _ c₂ h
  · obtain ⟨rfl, -⟩ := h
    exact .pure ⟨.plain ⟨ht, rfl⟩, (Span.bounds_token t).ends⟩
  · obtain ⟨equals, rfl, hequals, rfl⟩ := h
    refine .bind (hn.assignment c₂) fun value ts c₃ hvalue => .pure ?_
    rw [List.append_nil]
    exact ⟨.value ⟨ht, rfl⟩ hequals hvalue, hvalue.bounds.ends.append [t, equals]⟩

omit hn in
theorem complete_of_closed {ts ending rest : List Token} {x : Stmt} (h : Statement ts ending x)
    (hx : x.dangles = false) : Complete x (ts ++ ending) rest := by
  refine ⟨.intro h, fun hd => ?_⟩
  rw [hx] at hd
  cases hd

theorem varStatement_reads : Reads (varStatement nested) Complete c := by
  refine .bind (requireKeyword_reads _) ?_
  rintro _ _ c₁ ⟨first, rfl, hfirst, rfl⟩
  refine .bind rounds_reads ?_
  rintro n _ c₂ rfl
  refine .bind (separated_reads (binding_reads hn) n c₂) fun bindings ts c₃ hbindings => ?_
  refine .bind optionalSemicolon_reads fun _ ending c₄ ⟨hending, _⟩ => .pure ?_
  obtain ⟨last, hlast, hends⟩ := hbindings.ends fun _ _ h => h.2
  rw [hlast]
  have hall := Statement.var hfirst (hbindings.map fun _ _ h => h.1) hending
    ((Span.bounds_token first).through hends)
  simpa using complete_of_closed hall rfl

theorem condition_reads : Reads (condition nested) (fun test ts _ => ∃ first last us, ts = first :: us ++ [last] ∧
    first.kind = .mark .parenOpen ∧ Expression us test ∧ last.kind = .mark .parenClose) c := by
  refine .bind (requireMark_reads _ _) ?_
  rintro _ _ c₁ ⟨first, rfl, hfirst, rfl⟩
  refine .bind (hn.assignment c₁) fun test us c₂ htest => ?_
  refine .bind (requireMark_reads _ _) ?_
  rintro _ _ c₃ ⟨last, rfl, hlast, rfl⟩
  exact .pure ⟨first, last, us, rfl, hfirst, htest, hlast⟩

theorem ifStatement_reads : Reads (ifStatement nested) Complete c := by
  refine .bind (requireKeyword_reads _) ?_
  rintro _ _ c₁ ⟨first, rfl, hfirst, rfl⟩
  refine .bind (condition_reads hn c₁) ?_
  rintro test _ c₂ ⟨parenOpen, parenClose, ts, rfl, hopen, htest, hclose⟩
  refine .bind (hn.statement c₂) ?_
  rintro yes _ c₃ ⟨⟨hyes⟩, helse⟩
  next us ending =>
  have hbefore := Span.bounds_token first
  refine .bind (accept_reads _).consumed ?_
  rintro (_ | s) _ c₄ ⟨h, hrest⟩
  · obtain ⟨rfl, hnone⟩ := h
    refine .pure ⟨?_, fun _ => hnone⟩
    have hspan := hbefore.through (hyes.bounds.ends.append (parenOpen :: ts ++ [parenClose]))
    have hall := Item.intro (Statement.cond hfirst hopen htest hclose hyes (by simpa using hspan))
    simpa using hall
  · obtain ⟨other, rfl, hother, rfl⟩ := h
    have hclosed : yes.dangles = false := by
      refine Bool.eq_false_iff.mpr fun hd => helse hd other ?_ hother
      rw [hrest]
      rfl
    refine .bind (hn.statement c₄) ?_
    rintro no _ c₅ ⟨⟨hno⟩, helse'⟩
    next vs ending' =>
    refine .pure ⟨?_, helse'⟩
    have hspan := hbefore.through
      (hno.bounds.ends.append (parenOpen :: ts ++ parenClose :: (us ++ ending) ++ [other]))
    have hall := Item.intro
      (Statement.condElse hfirst hopen htest hclose (.intro hyes) hclosed hother hno (by simpa using hspan))
    simpa using hall

theorem whileStatement_reads : Reads (whileStatement nested) Complete c := by
  refine .bind (requireKeyword_reads _) ?_
  rintro _ _ c₁ ⟨first, rfl, hfirst, rfl⟩
  refine .bind (condition_reads hn c₁) ?_
  rintro test _ c₂ ⟨parenOpen, parenClose, ts, rfl, hopen, htest, hclose⟩
  refine .bind (hn.statement c₂) ?_
  rintro body _ c₃ ⟨⟨hbody⟩, helse⟩
  refine .pure ⟨?_, helse⟩
  have hspan := (Span.bounds_token first).through
    (hbody.bounds.ends.append (parenOpen :: ts ++ [parenClose]))
  have hall := Item.intro (Statement.loop hfirst hopen htest hclose hbody (by simpa using hspan))
  simpa using hall

theorem returnStatement_reads : Reads (returnStatement nested) Complete c := by
  refine .bind (requireKeyword_reads _) ?_
  rintro _ _ c₁ ⟨first, rfl, hfirst, rfl⟩
  have hspan := Span.bounds_token first
  refine .get ?_
  split
  · refine .bind optionalSemicolon_reads fun _ ending c₂ ⟨hending, _⟩ => .pure ?_
    rw [List.append_nil]
    exact complete_of_closed (.returnNothing hfirst hending hspan) rfl
  · refine .bind (hn.assignment c₁) fun value ts c₂ hvalue => ?_
    refine .bind optionalSemicolon_reads fun _ ending c₃ ⟨hending, _⟩ => .pure ?_
    have hall := Statement.return hfirst hvalue hending (hspan.through hvalue.bounds.ends)
    simpa using complete_of_closed hall rfl

theorem throwStatement_reads : Reads (throwStatement nested) Complete c := by
  refine .bind (requireKeyword_reads _) ?_
  rintro _ _ c₁ ⟨first, rfl, hfirst, rfl⟩
  refine .bind (hn.assignment c₁) fun value ts c₂ hvalue => ?_
  refine .bind optionalSemicolon_reads fun _ ending c₃ ⟨hending, _⟩ => .pure ?_
  have hall := Statement.throw hfirst hvalue hending ((Span.bounds_token first).through hvalue.bounds.ends)
  simpa using complete_of_closed hall rfl

theorem tryStatement_reads : Reads (tryStatement nested) Complete c := by
  refine .bind (requireKeyword_reads _) ?_
  rintro _ _ c₁ ⟨first, rfl, hfirst, rfl⟩
  refine .bind (block_reads hn c₁) ?_
  rintro ⟨body, s⟩ bs c₂ ⟨hbody, -⟩
  refine .bind (requireKeyword_reads _) ?_
  rintro _ _ c₃ ⟨word, rfl, hword, rfl⟩
  refine .bind (requireMark_reads _ _) ?_
  rintro _ _ c₄ ⟨parenOpen, rfl, hopen, rfl⟩
  refine .bind (requireKind_reads _ _) ?_
  rintro _ _ c₅ ⟨t, rfl, ht, rfl⟩
  refine .bind (requireMark_reads _ _) ?_
  rintro _ _ c₆ ⟨parenClose, rfl, hclose, rfl⟩
  refine .bind (block_reads hn c₆) ?_
  rintro ⟨handler, last⟩ hs c₇ ⟨hhandler, hlast⟩
  refine .pure ?_
  have hspan := (Span.bounds_token first).through
    (hlast.ends.append (bs ++ [word, parenOpen, t, parenClose]))
  have hall := Statement.try hfirst hbody hword hopen ⟨ht, rfl⟩ hclose hhandler (by simpa using hspan)
  simpa using complete_of_closed hall rfl

theorem expressionStatement_reads (hfunction : c.kind? ≠ some (.keyword .functionWord))
    (hbrace : c.kind? ≠ some (.mark .braceOpen)) : Reads (expressionStatement nested) Complete c := by
  refine .bind (hn.assignment c).consumed ?_
  rintro value ts c₁ ⟨hvalue, hrest⟩
  refine .bind optionalSemicolon_reads fun _ ending c₂ ⟨hending, _⟩ => .pure ?_
  rw [List.append_nil]
  refine complete_of_closed (.expr hvalue (fun t ht => ?_) hending) rfl
  have hkind : c.kind? = some t.kind := by
    rw [Cursor.kind?, hrest, List.head?_append, ht]
    rfl
  rw [hkind] at hfunction hbrace
  exact ⟨fun h => hfunction (congrArg some h), fun h => hbrace (congrArg some h)⟩

omit hn in
theorem empty_reads (h : c.kind? = some (.mark .semicolon)) :
    Reads (do optionalSemicolon; return .empty c.span) Complete c := by
  refine .bind optionalSemicolon_reads.consumed ?_
  rintro _ ts c₁ ⟨⟨hending, hnone⟩, hrest⟩
  refine .pure ?_
  cases hending with
  | none =>
    obtain ⟨t, ht, hk⟩ := Option.map_eq_some_iff.mp h
    rw [hrest] at ht
    exact absurd hk (hnone rfl t ht)
  | @semicolon t hk =>
    have hspan : c.span = t.span := by
      rw [Cursor.span, hrest]
      rfl
    rw [hspan]
    exact complete_of_closed (.empty hk (Span.bounds_token t)) rfl

theorem statement_reads : Reads (statement nested) Complete c := by
  refine .get ?_
  dsimp only
  split
  · exact varStatement_reads hn c
  · refine .bind (functionDecl_reads hn c true) fun decl ts c₁ hdecl => .pure ?_
    exact complete_of_closed (.function hdecl.1 (hdecl.2 rfl)) rfl
  · exact ifStatement_reads hn c
  · exact whileStatement_reads hn c
  · exact returnStatement_reads hn c
  · exact throwStatement_reads hn c
  · exact tryStatement_reads hn c
  · refine .bind (block_reads hn c) fun found ts c₁ hfound => .pure ?_
    exact complete_of_closed (.block hfound.1 hfound.2) rfl
  · next h => exact empty_reads c h
  · next hfunction _ _ _ _ _ hbrace _ => exact expressionStatement_reads hn c hfunction hbrace

end Grammar

theorem levels_sound (n : Nat) : (levels n).Sound := by
  induction n with
  | zero => exact ⟨fun _ => .fail _, fun _ => .fail _, fun _ => .fail _⟩
  | succ n ih =>
    refine ⟨fun c => ?_, fun c => ?_, unary_reads ih⟩
    · exact restoring_reads fun d _ => statement_reads ih d
    · exact lend_reads fun d _ => assignment_reads ih d

theorem script_reads (c : Cursor) :
    Reads script (fun items ts rest => Sequence Item ts items ∧ rest = []) c := by
  refine .bind rounds_reads ?_
  rintro n _ c₁ rfl
  have hitem := fun c => ((levels_sound maxNesting).statement c).mono fun _ _ _ h => h.1
  refine (upTo_reads hitem _ n c₁).mono ?_
  rintro items ts rest ⟨hitems, d, rfl, hend⟩
  exact ⟨hitems, List.isEmpty_iff.mp hend⟩

end Parser

/-- The statements of an accepted text are derived by all its tokens. -/
theorem derives_of_parse {source : String} {items : List Stmt} (h : parse source = .ok items) :
    ∃ tokens, scan source = .ok tokens ∧ Sequence Item tokens.items items := by
  unfold parse at h
  split at h
  · cases h
  · next ts hscan =>
    split at h
    · cases h
    · next found hp =>
      obtain rfl := Except.ok.inj h
      have hr : (Parser.script ⟨ts.items, ts.finish, Parser.maxNesting⟩).map (·.1) = .ok found := hp
      cases hs : Parser.script ⟨ts.items, ts.finish, Parser.maxNesting⟩ with
      | error e =>
        rw [hs] at hr
        cases hr
      | ok result =>
        rw [hs] at hr
        cases hr
        obtain ⟨us, hus, hitems, hend⟩ := Parser.script_reads _ _ _ hs
        have hall : ts.items = us := by simpa [hend] using hus
        exact ⟨ts, hscan, hall ▸ hitems⟩

def nestedConditions : String :=
  "if (a) if (b) c = d = 1 - 2 - 3; else o = \x7b k: x.y[0], if: -f(1) * 2 < 3 && e, \x7d"

theorem derives_of_parse_nestedConditions : ∃ items tokens, parse nestedConditions = .ok items ∧
    scan nestedConditions = .ok tokens ∧ Sequence Item tokens.items items := by
  have hok : (parse nestedConditions).toOption.isSome = true := by decide +kernel
  cases h : parse nestedConditions with
  | error d =>
    rw [h] at hok
    cases hok
  | ok items =>
    obtain ⟨tokens, hscan, hitems⟩ := derives_of_parse h
    exact ⟨items, tokens, rfl, hscan, hitems⟩

end ScriptEngine
