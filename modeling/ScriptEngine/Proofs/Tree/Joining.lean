import ScriptEngine.Proofs.Token.Joining
import ScriptEngine.Proofs.Tree.Nesting
import ScriptEngine.Proofs.Tree.Reading
import ScriptEngine.Proofs.Tree.Respacing

/-!
Scripts compose. Where a text ends, a semicolon and another script may follow instead: what was read
before the end of the text is read before the semicolon, but for the last statement, which may take the
semicolon for its own end. Each statement gives back the budget that it used, so what follows is read as
if it stood alone.
-/

namespace ScriptEngine

namespace Parser

section Outcomes

variable {α β : Type} {p : ParseM α} {f : α → ParseM β} {c : Cursor}

theorem bind_eq_ok {r : β × Cursor} (h : (p >>= f) c = .ok r) : ∃ a c', p c = .ok (a, c') ∧ f a c' = .ok r := by
  have hbind : (p >>= f) c = Except.bind (p c) fun s => f s.1 s.2 := rfl
  cases hp : p c with
  | error e =>
    rw [hbind, hp] at h
    cases h
  | ok found =>
    rw [hbind, hp] at h
    exact ⟨found.1, found.2, rfl, h⟩

theorem bind_of_ok {a : α} {c' : Cursor} (h : p c = .ok (a, c')) : (p >>= f) c = f a c' := by
  show Except.bind (p c) _ = _
  rw [h]
  rfl

def Refuses {α : Type} (p : ParseM α) (c : Cursor) : Prop :=
  ∀ r, p c ≠ .ok r

theorem Refuses.bind (h : Refuses p c) : Refuses (p >>= f) c := by
  intro r hr
  obtain ⟨a, c', hp, -⟩ := bind_eq_ok hr
  exact h _ hp

theorem Refuses.bind_of_ok {a : α} {c' : Cursor} (hp : p c = .ok (a, c')) (h : Refuses (f a) c') :
    Refuses (p >>= f) c := by
  intro r hr
  rw [Parser.bind_of_ok hp] at hr
  exact h r hr

theorem fail_refuses (fault : ParseFault) : Refuses (fail fault : ParseM α) c := by
  rintro r ⟨⟩

theorem get_bind {f : Cursor → ParseM β} : (MonadState.get >>= f) c = f c c := rfl

theorem takeIf_none {test : Token → Option α} (h : ∀ t ∈ c.rest.head?, test t = none) : takeIf test c = .ok (none, c) := by
  rw [takeIf, get_bind]
  cases hc : c.rest with
  | nil => rfl
  | cons t ts =>
    dsimp only
    rw [h t (by rw [hc]; rfl)]
    rfl

theorem takeIf_some {test : Token → Option α} {t : Token} {ts : List Token} {a : α} (hc : c.rest = t :: ts)
    (ht : test t = some a) : takeIf test c = .ok (some (a, t.span), { c with rest := ts }) := by
  rw [takeIf, get_bind, hc]
  dsimp only
  rw [ht]
  rfl

theorem accept_some {kind : TokenKind} {t : Token} {ts : List Token} (hc : c.rest = t :: ts) (ht : t.kind = kind) :
    accept kind c = .ok (some t.span, { c with rest := ts }) :=
  bind_of_ok (takeIf_some hc (if_pos ht))

theorem accept_none {kind : TokenKind} (h : ∀ t ∈ c.rest.head?, t.kind ≠ kind) : accept kind c = .ok (none, c) :=
  bind_of_ok (takeIf_none fun t ht => if_neg (h t ht))

end Outcomes

def Cursor.Startless (c : Cursor) : Prop :=
  ∀ t ∈ c.rest.head?, t.kind = .keyword .elseWord

section Refusals

variable {c : Cursor}

theorem Cursor.Startless.kind? (hc : c.Startless) : c.kind? = none ∨ c.kind? = some (.keyword .elseWord) := by
  rw [Cursor.kind?]
  cases h : c.rest.head? with
  | none => exact .inl rfl
  | some t => exact .inr (by rw [Option.map_some, hc t h])

theorem spend_rest {c' : Cursor} {u : Unit} (h : spend c = .ok (u, c')) : c'.rest = c.rest := by
  obtain ⟨ts, hts, rfl⟩ := spend_reads u c' h
  exact hts.symm

theorem Cursor.Startless.spent (hc : c.Startless) {c' : Cursor} {u : Unit} (h : spend c = .ok (u, c')) :
    c'.Startless := by
  rw [Cursor.Startless, spend_rest h]
  exact hc

theorem primary_refuses (nested : Nested) (hc : c.Startless) : Refuses (primary nested) c := by
  intro r hr
  rw [primary, get_bind] at hr
  cases hrest : c.rest with
  | nil =>
    rw [hrest] at hr
    cases hr
  | cons t ts =>
    have hkind : t.kind = .keyword .elseWord := hc t (by rw [hrest]; rfl)
    have hatom : atom? t = none := by rw [atom?, hkind]
    rw [hrest] at hr
    simp only [hatom, hkind] at hr
    cases hr

theorem unary_refuses (nested : Nested) (hc : c.Startless) : Refuses (unary nested) c := by
  have hnone : takeIf unaryOp? c = .ok (none, c) :=
    takeIf_none fun t ht => by rw [unaryOp?, hc t ht]
  exact .bind_of_ok hnone (primary_refuses nested hc).bind

theorem assignment_refuses (nested : Nested) (hc : c.Startless) : Refuses (assignment nested) c :=
  (unary_refuses nested hc).bind.bind.bind.bind.bind.bind.bind

theorem levels_refuse (n : Nat) (hc : c.Startless) : Refuses (levels n).assignment c := by
  cases n with
  | zero => exact fail_refuses _
  | succ n =>
    rintro r hr
    obtain ⟨_, d, hspend, hrest⟩ := bind_eq_ok hr
    exact (assignment_refuses (levels n) (hc.spent hspend)).bind r hrest

theorem statement_refuses {nested : Nested} (h : Refuses nested.assignment c) (hc : c.Startless) :
    Refuses (statement nested) c := by
  intro r hr
  rw [statement, get_bind] at hr
  obtain hkind | hkind := hc.kind?
  · rw [hkind] at hr
    exact h.bind r hr
  · rw [hkind] at hr
    exact h.bind r hr

theorem levels_statement_refuses (n : Nat) (hc : c.Startless) : Refuses (levels n).statement c := by
  cases n with
  | zero => exact fail_refuses _
  | succ n =>
    rintro r hr
    have hr : restoring (statement (levels n)) c = .ok r := hr
    rw [restoring, get_bind] at hr
    obtain ⟨_, d, hspend, hrest⟩ := bind_eq_ok hr
    have hd := hc.spent hspend
    exact (statement_refuses (levels_refuse n hd) hd).bind r hrest

end Refusals

def Carries {α : Type} (S : Cursor → Cursor → Prop) (p q : ParseM α) (c d : Cursor) : Prop :=
  ∀ a c', p c = .ok (a, c') → ∃ d', q d = .ok (a, d') ∧ S c' d'

namespace Carries

variable {α β : Type} {S T : Cursor → Cursor → Prop} {p q : ParseM α} {c d : Cursor}

theorem of_refused (h : Refuses p c) : Carries S p q c d :=
  fun _ _ hp => (h _ hp).elim

theorem mono (h : Carries S p q c d) (hS : ∀ c' d', S c' d' → T c' d') : Carries T p q c d := by
  intro a c' hp
  obtain ⟨d', hq, hs⟩ := h a c' hp
  exact ⟨d', hq, hS c' d' hs⟩

theorem pure (a : α) (h : S c d) : Carries S (Pure.pure a) (Pure.pure a) c d := by
  rintro _ _ ⟨⟩
  exact ⟨d, rfl, h⟩

theorem bind_or_refused {f g : α → ParseM β}
    (h : ∀ a c', p c = .ok (a, c') → Refuses (f a) c' ∨ ∃ d', q d = .ok (a, d') ∧ Carries T (f a) (g a) c' d') :
    Carries T (p >>= f) (q >>= g) c d := by
  intro b c'' hp
  obtain ⟨a, c', ha, hf⟩ := bind_eq_ok hp
  obtain hrefused | ⟨d', hq, hcarries⟩ := h a c' ha
  · exact (hrefused _ hf).elim
  · rw [bind_of_ok hq]
    exact hcarries b c'' hf

theorem bind {f g : α → ParseM β} (h : Carries S p q c d)
    (hf : ∀ a c' d', S c' d' → Carries T (f a) (g a) c' d') : Carries T (p >>= f) (q >>= g) c d := by
  refine bind_or_refused fun a c' hp => .inr ?_
  obtain ⟨d', hq, hs⟩ := h a c' hp
  exact ⟨d', hq, hf a c' d' hs⟩

theorem get {f g : Cursor → ParseM β} (h : Carries T (f c) (g d) c d) :
    Carries T (MonadState.get >>= f) (MonadState.get >>= g) c d := h

theorem rounds {f g : Nat → ParseM β} (h : Carries T (f (c.rest.length + 1)) (g (d.rest.length + 1)) c d) :
    Carries T (Parser.rounds >>= f) (Parser.rounds >>= g) c d := h

theorem set {c' d' : Cursor} (h : S c' d') : Carries S (MonadStateOf.set c') (MonadStateOf.set d') c d := by
  rintro _ _ ⟨⟩
  exact ⟨d', rfl, h⟩

theorem modify {f g : Cursor → Cursor} (h : S (f c) (g d)) :
    Carries S (modifyThe Cursor f) (modifyThe Cursor g) c d := by
  rintro _ _ ⟨⟩
  exact ⟨g d, rfl, h⟩

end Carries

/-- What stands behind a text instead of its end: a semicolon and what can start a script. -/
structure Sequel where
  semicolon : Token
  rest : List Token
  finish : Span
  marked : semicolon.kind = .mark .semicolon
  starts : ∀ t ∈ rest.head?, t.kind ≠ .keyword .elseWord

namespace Sequel

variable (s : Sequel)

def Ahead (c d : Cursor) : Prop :=
  d = ⟨c.rest ++ s.semicolon :: s.rest, s.finish, c.budget⟩

def Entered (c d : Cursor) : Prop :=
  c.rest = [] ∧ d = ⟨s.rest, s.finish, c.budget⟩

def Reached (c d : Cursor) : Prop :=
  s.Ahead c d ∨ s.Entered c d

def Spared {α : Type} (p : ParseM α) : Prop :=
  ∀ c d, s.Ahead c d → Carries s.Ahead p p c d

def Met {α : Type} (p : ParseM α) : Prop :=
  ∀ c d, s.Ahead c d → Carries s.Reached p p c d

end Sequel

def Spurns {α : Type} (test : Token → Option α) : Prop :=
  ∀ t, t.kind = .mark .semicolon → test t = none

section Tokens

variable {s : Sequel} {α : Type} {c d : Cursor}

theorem Sequel.Ahead.paid (h : s.Ahead c d) (f : Nat → Nat) :
    s.Ahead { c with budget := f c.budget } { d with budget := f d.budget } := by
  obtain rfl := h
  rfl

theorem Sequel.Ahead.budget (h : s.Ahead c d) : d.budget = c.budget := by
  obtain rfl := h
  rfl

theorem Sequel.Ahead.length_le (h : s.Ahead c d) : c.rest.length + 1 ≤ d.rest.length + 1 := by
  obtain rfl := h
  simp

theorem Sequel.Ahead.cases (h : s.Ahead c d) : (c.rest = [] ∧ d.rest = s.semicolon :: s.rest) ∨
    ∃ t ts us, c.rest = t :: ts ∧ d.rest = t :: us ∧ s.Ahead { c with rest := ts } { d with rest := us } := by
  obtain rfl := h
  cases hc : c.rest with
  | nil => exact .inl ⟨rfl, rfl⟩
  | cons t ts => exact .inr ⟨t, ts, ts ++ s.semicolon :: s.rest, rfl, rfl, rfl⟩

theorem Sequel.Ahead.kind? (h : s.Ahead c d) :
    d.kind? = c.kind? ∨ c.rest = [] ∧ c.kind? = none ∧ d.kind? = some (.mark .semicolon) := by
  obtain ⟨hc, hd⟩ | ⟨t, ts, us, hc, hd, -⟩ := h.cases
  · refine .inr ⟨hc, ?_, ?_⟩
    · rw [Cursor.kind?, hc]
      rfl
    · rw [Cursor.kind?, hd, ← s.marked]
      rfl
  · refine .inl ?_
    rw [Cursor.kind?, Cursor.kind?, hc, hd]
    rfl

theorem Sequel.Ahead.sees (h : s.Ahead c d) {kind : TokenKind} (hk : kind ≠ .mark .semicolon) :
    d.sees kind = c.sees kind := by
  rw [Cursor.sees, Cursor.sees]
  obtain hsame | ⟨-, hc, hd⟩ := h.kind?
  · rw [hsame]
  · simp [hc, hd, hk.symm]

theorem takeIf_spared {test : Token → Option α} (ht : Spurns test) : s.Spared (takeIf test) := by
  intro c d h
  refine .get ?_
  obtain ⟨hc, hd⟩ | ⟨t, ts, us, hc, hd, hrest⟩ := h.cases
  · rw [hc, hd]
    dsimp only
    rw [ht _ s.marked]
    exact .pure none h
  · rw [hc, hd]
    dsimp only
    cases test t with
    | none => exact .pure none h
    | some a => exact .bind (.set hrest) fun _ _ _ h' => .pure _ h'

theorem kind_spurns {kind : TokenKind} (hk : kind ≠ .mark .semicolon) (f : String → α) :
    Spurns fun t => if t.kind = kind then some (f t.lexeme) else none := by
  intro t ht
  dsimp only
  rw [ht, if_neg hk.symm]

theorem accept_spared {kind : TokenKind} (hk : kind ≠ .mark .semicolon) : s.Spared (accept kind) :=
  fun c d h => .bind (takeIf_spared (kind_spurns hk fun _ => ()) c d h) fun _ _ _ h' => .pure _ h'

theorem sees_spared {kind : TokenKind} (hk : kind ≠ .mark .semicolon) : s.Spared (sees kind) := by
  intro c d h
  refine .get ?_
  rw [h.sees hk]
  exact .pure _ h

theorem require_spared {test : Token → Option α} (ht : Spurns test) (what : Expected) :
    s.Spared (require test what) := by
  intro c d h
  refine .bind (takeIf_spared ht c d h) fun found c' d' h' => ?_
  cases found with
  | none => exact .of_refused fun r hr => by cases hr
  | some found => exact .pure found h'

theorem requireKind_spared {kind : TokenKind} (hk : kind ≠ .mark .semicolon) (what : Expected) :
    s.Spared (requireKind kind what) :=
  require_spared (kind_spurns hk id) what

theorem requireMark_spared {m : Mark} (hm : m ≠ .semicolon) (what : Expected) : s.Spared (requireMark m what) :=
  fun c d h => .bind (requireKind_spared (by simpa using hm) what c d h) fun _ _ _ h' => .pure _ h'

theorem requireKeyword_spared (k : Keyword) : s.Spared (requireKeyword k) :=
  fun c d h => .bind (requireKind_spared (by simp) _ c d h) fun _ _ _ h' => .pure _ h'

theorem propertyName?_spurns : Spurns propertyName? := by
  intro t ht
  rw [propertyName?, ht]

theorem optionalSemicolon_met : s.Met optionalSemicolon := by
  intro c d h
  obtain ⟨hc, hd⟩ | ⟨t, ts, us, hc, hd, hrest⟩ := h.cases
  · have hend : optionalSemicolon c = .ok ((), c) :=
      bind_of_ok (accept_none (by simp [hc]))
    have htaken : optionalSemicolon d = .ok ((), { d with rest := s.rest }) :=
      bind_of_ok (accept_some hd s.marked)
    intro _ _ hp
    obtain ⟨rfl, rfl⟩ := Prod.mk.inj (Except.ok.inj (hend.symm.trans hp))
    obtain rfl := h
    exact ⟨_, htaken, .inr ⟨hc, rfl⟩⟩
  · by_cases ht : t.kind = .mark .semicolon
    · have htaken : optionalSemicolon c = .ok ((), { c with rest := ts }) := bind_of_ok (accept_some hc ht)
      have htaken' : optionalSemicolon d = .ok ((), { d with rest := us }) := bind_of_ok (accept_some hd ht)
      intro _ _ hp
      obtain ⟨rfl, rfl⟩ := Prod.mk.inj (Except.ok.inj (htaken.symm.trans hp))
      exact ⟨_, htaken', .inl hrest⟩
    · have hnone : optionalSemicolon c = .ok ((), c) :=
        bind_of_ok (accept_none (by simp [hc, ht]))
      have hnone' : optionalSemicolon d = .ok ((), d) :=
        bind_of_ok (accept_none (by simp [hd, ht]))
      intro _ _ hp
      obtain ⟨rfl, rfl⟩ := Prod.mk.inj (Except.ok.inj (hnone.symm.trans hp))
      exact ⟨_, hnone', .inl h⟩

theorem spend_spared : s.Spared spend := by
  intro c d h
  refine .get ?_
  rw [h.budget]
  have hpaid := h.paid (· - 1)
  cases hb : c.budget with
  | zero => exact .of_refused (fail_refuses _)
  | succ n =>
    rw [h.budget, hb] at hpaid
    exact .set hpaid

theorem lend_spared {p : ParseM α} (hp : s.Spared p) : s.Spared (lend p) := by
  intro c d h
  refine .bind (spend_spared c d h) fun _ c₁ d₁ h₁ => ?_
  refine .bind (hp c₁ d₁ h₁) fun a c₂ d₂ h₂ => ?_
  exact .bind (.modify (h₂.paid (· + 1))) fun _ _ _ h₃ => .pure a h₃

theorem restoring_met {p : ParseM α} (hp : s.Met p) : s.Met (restoring p) := by
  intro c d h
  refine .get ?_
  refine .bind (spend_spared c d h) fun _ c₁ d₁ h₁ => ?_
  refine .bind (hp c₁ d₁ h₁) fun a c₂ d₂ h₂ => ?_
  refine .bind (.modify (S := s.Reached) ?_) fun _ _ _ h₃ => .pure a h₃
  rw [h.budget]
  exact h₂.imp (fun h₂ => by obtain rfl := h₂; rfl) (fun h₂ => by obtain ⟨hc, rfl⟩ := h₂; exact ⟨hc, rfl⟩)

end Tokens

section Lists

variable {s : Sequel} {α : Type} {item : ParseM α} {n m : Nat} {c d : Cursor}

theorem separated_spared (hitem : s.Spared item) (hnm : n ≤ m) (h : s.Ahead c d) :
    Carries s.Ahead (separated item n) (separated item m) c d := by
  induction n generalizing m c d with
  | zero => exact .of_refused (fail_refuses _)
  | succ n ih =>
    obtain ⟨m, rfl⟩ : ∃ m', m = m' + 1 := ⟨m - 1, by omega⟩
    refine .bind (hitem c d h) fun x c₁ d₁ h₁ => ?_
    refine .bind (accept_spared (by simp) c₁ d₁ h₁) fun comma c₂ d₂ h₂ => ?_
    cases comma with
    | none => exact .pure _ h₂
    | some _ => exact .bind (ih (by omega) h₂) fun xs _ _ h₃ => .pure _ h₃

theorem listed_spared {close : Mark} (hclose : close ≠ .semicolon) (hitem : s.Spared item) (hnm : n ≤ m)
    (h : s.Ahead c d) : Carries s.Ahead (listed close item n) (listed close item m) c d := by
  induction n generalizing m c d with
  | zero => exact .of_refused (fail_refuses _)
  | succ n ih =>
    obtain ⟨m, rfl⟩ : ∃ m', m = m' + 1 := ⟨m - 1, by omega⟩
    refine .bind (sees_spared (by simpa using hclose) c d h) fun seen c₁ d₁ h₁ => ?_
    split
    · exact .pure _ h₁
    · refine .bind (hitem c₁ d₁ h₁) fun x c₂ d₂ h₂ => ?_
      refine .bind (accept_spared (by simp) c₂ d₂ h₂) fun comma c₃ d₃ h₃ => ?_
      cases comma with
      | none => exact .pure _ h₃
      | some _ => exact .bind (ih (by omega) h₃) fun xs _ _ h₄ => .pure _ h₄

theorem chain_spared {link : Expr → ParseM (Option Expr)} (hlink : ∀ left, s.Spared (link left)) (n : Nat)
    (left : Expr) : s.Spared (chain link n left) := by
  induction n generalizing left with
  | zero => exact fun c d _ => .of_refused (fail_refuses _)
  | succ n ih =>
    intro c d h
    refine .bind (hlink left c d h) fun longer c₁ d₁ h₁ => ?_
    cases longer with
    | none => exact .pure _ h₁
    | some longer => exact ih longer c₁ d₁ h₁

theorem chained_spared {first : ParseM Expr} {link : Expr → ParseM (Option Expr)} (hfirst : s.Spared first)
    (hlink : ∀ left, s.Spared (link left)) : s.Spared (chained first link) := by
  intro c d h
  refine .bind (hfirst c d h) fun left c₁ d₁ h₁ => .get ?_
  rw [h₁.budget]
  exact chain_spared hlink _ left c₁ d₁ h₁

theorem upTo_succ (done : Cursor → Bool) (item : ParseM α) (n : Nat) (c : Cursor) :
    upTo done item (n + 1) c =
      if done c then .ok ([], c) else (item >>= fun x => upTo done item n >>= fun xs => pure (x :: xs)) c := by
  rw [upTo, get_bind]
  split
  · rfl
  · rfl

theorem upTo_of_done {done : Cursor → Bool} (h : done c = true) : upTo done item (n + 1) c = .ok ([], c) := by
  rw [upTo_succ, if_pos h]

theorem upTo_of_item {done : Cursor → Bool} {x : α} {xs : List α} {c₁ c₂ : Cursor} (h : done c = false)
    (hx : item c = .ok (x, c₁)) (hxs : upTo done item n c₁ = .ok (xs, c₂)) :
    upTo done item (n + 1) c = .ok (x :: xs, c₂) := by
  rw [upTo_succ, if_neg (by simp [h]), bind_of_ok hx, bind_of_ok hxs]
  rfl

theorem upTo_cases {done : Cursor → Bool} {xs : List α} {c' : Cursor} (h : upTo done item n c = .ok (xs, c')) :
    ∃ k, n = k + 1 ∧ (done c = true ∧ xs = [] ∧ c' = c ∨
      done c = false ∧ ∃ x ys c₁, xs = x :: ys ∧ item c = .ok (x, c₁) ∧ upTo done item k c₁ = .ok (ys, c')) := by
  cases n with
  | zero => cases h
  | succ n =>
    refine ⟨n, rfl, ?_⟩
    rw [upTo_succ] at h
    split at h
    · next hdone =>
      cases h
      exact .inl ⟨hdone, rfl, rfl⟩
    · next hdone =>
      obtain ⟨x, c₁, hx, h⟩ := bind_eq_ok h
      obtain ⟨ys, c₂, hys, h⟩ := bind_eq_ok h
      cases h
      exact .inr ⟨by simpa using hdone, x, ys, c₁, rfl, hx, hys⟩

theorem upTo_spared (hitem : s.Met item) (hnm : n ≤ m) (h : s.Ahead c d) {xs : List α} {c' : Cursor}
    (hxs : upTo (fun c => c.sees (.mark .braceClose) || c.atEnd) item n c = .ok (xs, c')) (hend : c'.rest ≠ []) :
    ∃ d', upTo (fun c => c.sees (.mark .braceClose) || c.atEnd) item m d = .ok (xs, d') ∧ s.Ahead c' d' := by
  induction n generalizing m c d xs with
  | zero => cases hxs
  | succ n ih =>
    obtain ⟨m, rfl⟩ : ∃ m', m = m' + 1 := ⟨m - 1, by omega⟩
    obtain ⟨k, hk, ⟨hdone, rfl, rfl⟩ | ⟨hdone, x, ys, c₁, rfl, hx, hys⟩⟩ := upTo_cases hxs
    · have hmore : c'.atEnd = false := by simpa [Cursor.atEnd] using hend
      rw [hmore, Bool.or_false, ← h.sees (by simp)] at hdone
      exact ⟨d, upTo_of_done (by rw [hdone, Bool.true_or]), h⟩
    obtain rfl : n = k := by omega
    obtain ⟨hclose, hmore⟩ := Bool.or_eq_false_iff.mp hdone
    obtain ⟨d₁, hd₁, hahead | ⟨hc₁, -⟩⟩ := hitem c d h x c₁ hx
    · obtain ⟨d', hd', h'⟩ := ih (Nat.le_of_succ_le_succ hnm) hahead hys
      have hgoes : (d.sees (.mark .braceClose) || d.atEnd) = false := by
        rw [h.sees (by simp), hclose, Bool.false_or]
        obtain rfl := h
        simp [Cursor.atEnd]
      exact ⟨d', upTo_of_item hgoes hd₁ hd', h'⟩
    · -- The last item took the semicolon, so that the text ended with it.
      obtain ⟨-, -, ⟨-, -, rfl⟩ | ⟨hgoes, -⟩⟩ := upTo_cases hys
      · exact (hend hc₁).elim
      · simp [Cursor.atEnd, hc₁] at hgoes

end Lists

structure Nested.Joins (s : Sequel) (n : Nested) : Prop where
  statement : s.Met n.statement
  assignment : s.Spared n.assignment
  unary : s.Spared n.unary
  refuses : ∀ c : Cursor, c.Startless → Refuses n.assignment c

section Grammar

variable {s : Sequel} {nested : Nested} (hn : nested.Joins s)

include hn

theorem block_spared : s.Spared (block nested) := by
  intro c d h
  refine .bind (requireMark_spared (by simp) _ c d h) fun first c₁ d₁ h₁ => .rounds ?_
  refine .bind_or_refused fun items c₂ hitems => ?_
  by_cases hend : c₂.rest = []
  · -- A block is not closed by the end of the text.
    refine .inl (Refuses.bind ?_)
    have hnone : takeIf (fun t => if t.kind = .mark .braceClose then some t.lexeme else none) c₂ = .ok (none, c₂) :=
      takeIf_none (by simp [hend])
    exact .bind (.bind_of_ok hnone fun r hr => by cases hr)
  · obtain ⟨d₂, hd₂, h₂⟩ := upTo_spared hn.statement h₁.length_le h₁ hitems hend
    exact .inr ⟨d₂, hd₂, .bind (requireMark_spared (by simp) _ c₂ d₂ h₂) fun _ _ _ h₃ => .pure _ h₃⟩

omit hn in
theorem parameters_spared : s.Spared parameters := by
  intro c d h
  have hname : s.Spared (do return (← requireKind .identifier .parameterName).1) :=
    fun c d h => .bind (requireKind_spared (by simp) _ c d h) fun _ _ _ h' => .pure _ h'
  have hclose (params : List String) :
      s.Spared (do let _ ← requireMark .parenClose .parametersClose; return params) :=
    fun c d h => .bind (requireMark_spared (by simp) _ c d h) fun _ _ _ h' => .pure _ h'
  refine .bind (requireMark_spared (by simp) _ c d h) fun _ c₁ d₁ h₁ => ?_
  refine .bind (sees_spared (by simp) c₁ d₁ h₁) fun seen c₂ d₂ h₂ => ?_
  dsimp only
  split
  · exact .bind (.pure _ h₂) fun params _ _ h₃ => hclose params _ _ h₃
  · refine .rounds (.bind (separated_spared hname h₂.length_le h₂) fun params _ _ h₃ => hclose params _ _ h₃)

omit hn in
theorem functionName_spared (named : Bool) : s.Spared (functionName named) := by
  intro c d h
  refine .bind (takeIf_spared (kind_spurns (by simp) id) c d h) fun found c₁ d₁ h₁ => ?_
  cases found with
  | some found => exact .pure _ h₁
  | none =>
    dsimp only
    split
    · exact .of_refused fun r hr => by cases hr
    · exact .pure _ h₁

theorem functionDecl_spared (named : Bool) : s.Spared (functionDecl nested named) := by
  intro c d h
  refine .bind (requireKeyword_spared _ c d h) fun _ c₁ d₁ h₁ => ?_
  refine .bind (functionName_spared named c₁ d₁ h₁) fun _ c₂ d₂ h₂ => ?_
  refine .bind (parameters_spared c₂ d₂ h₂) fun _ c₃ d₃ h₃ => ?_
  exact .bind (block_spared hn c₃ d₃ h₃) fun _ _ _ h₄ => .pure _ h₄

theorem group_spared : s.Spared (group nested) := by
  intro c d h
  refine .bind (requireMark_spared (by simp) _ c d h) fun _ c₁ d₁ h₁ => ?_
  refine .bind (hn.assignment c₁ d₁ h₁) fun _ c₂ d₂ h₂ => ?_
  exact .bind (requireMark_spared (by simp) _ c₂ d₂ h₂) fun _ _ _ h₃ => .pure _ h₃

theorem entry_spared : s.Spared (entry nested) := by
  intro c d h
  refine .bind (require_spared propertyName?_spurns _ c d h) fun _ c₁ d₁ h₁ => ?_
  refine .bind (requireMark_spared (by simp) _ c₁ d₁ h₁) fun _ c₂ d₂ h₂ => ?_
  exact .bind (hn.assignment c₂ d₂ h₂) fun _ _ _ h₃ => .pure _ h₃

theorem object_spared : s.Spared (object nested) := by
  intro c d h
  refine .bind (requireMark_spared (by simp) _ c d h) fun _ c₁ d₁ h₁ => .rounds ?_
  refine .bind (listed_spared (by simp) (entry_spared hn) h₁.length_le h₁) fun _ c₂ d₂ h₂ => ?_
  exact .bind (requireMark_spared (by simp) _ c₂ d₂ h₂) fun _ _ _ h₃ => .pure _ h₃

theorem primary_spared : s.Spared (primary nested) := by
  intro c d h
  obtain ⟨hc, -⟩ | ⟨t, ts, us, hc, hd, hrest⟩ := h.cases
  · exact .of_refused (primary_refuses nested (by simp [Cursor.Startless, hc]))
  refine .get ?_
  rw [hc, hd]
  dsimp only
  split
  · exact .bind (.set hrest) fun _ _ _ h₁ => .pure _ h₁
  · exact .of_refused (fail_refuses _)
  · split
    · exact .bind (functionDecl_spared hn false c d h) fun _ _ _ h₁ => .pure _ h₁
    · exact group_spared hn c d h
    · exact object_spared hn c d h
    · exact .of_refused (fail_refuses _)

theorem arguments_spared : s.Spared (arguments nested) := by
  intro c d h
  refine .bind (sees_spared (by simp) c d h) fun seen c₁ d₁ h₁ => ?_
  split
  · exact .pure _ h₁
  · exact .rounds (separated_spared hn.assignment h₁.length_le h₁)

omit hn in
theorem spending_spared {α : Type} {p : ParseM α} (test : Bool) (hp : s.Spared p) :
    s.Spared (if test = true then do spend; p else p) := by
  intro c d h
  split
  · exact .bind (spend_spared c d h) fun _ c₁ d₁ h₁ => hp c₁ d₁ h₁
  · exact hp c d h

omit hn in
theorem accepted_spared {α : Type} {kind : TokenKind} (hk : kind ≠ .mark .semicolon) {yes no : ParseM α}
    (hyes : s.Spared yes) (hno : s.Spared no) : s.Spared (do if (← accept kind).isSome then yes else no) := by
  intro c d h
  refine .bind (accept_spared hk c d h) fun found c₁ d₁ h₁ => ?_
  cases found with
  | none => exact hno c₁ d₁ h₁
  | some _ => exact hyes c₁ d₁ h₁

theorem memberLink_spared (left : Expr) : s.Spared (memberLink nested left) := by
  intro c d h
  refine .get ?_
  rw [h.sees (by simp), h.sees (by simp), h.sees (by simp)]
  refine spending_spared _ ?_ c d h
  refine accepted_spared (by simp) (fun c d h => ?_)
    (accepted_spared (by simp) (fun c d h => ?_) (accepted_spared (by simp) (fun c d h => ?_) fun c d h => ?_))
  · refine .bind (arguments_spared hn c d h) fun _ c₁ d₁ h₁ => ?_
    exact .bind (requireMark_spared (by simp) _ c₁ d₁ h₁) fun _ _ _ h₂ => .pure _ h₂
  · refine .bind (hn.assignment c d h) fun _ c₁ d₁ h₁ => ?_
    exact .bind (requireMark_spared (by simp) _ c₁ d₁ h₁) fun _ _ _ h₂ => .pure _ h₂
  · exact .bind (require_spared propertyName?_spurns _ c d h) fun _ _ _ h₁ => .pure _ h₁
  · exact .pure none h

theorem unary_spared : s.Spared (unary nested) := by
  intro c d h
  have hop : Spurns unaryOp? := fun t ht => by rw [unaryOp?, ht]
  refine .bind (takeIf_spared hop c d h) fun found c₁ d₁ h₁ => ?_
  cases found with
  | none => exact chained_spared (primary_spared hn) (memberLink_spared hn) c₁ d₁ h₁
  | some _ => exact .bind (lend_spared hn.unary c₁ d₁ h₁) fun _ _ _ h₂ => .pure _ h₂

omit hn in
theorem level_spared {ω : Type} {op? : Token → Option ω} (hop : Spurns op?) (join : ω → Expr → Expr → Span → Expr)
    {operand : ParseM Expr} (h : s.Spared operand) : s.Spared (level op? join operand) := by
  refine chained_spared h fun left c d hc => ?_
  refine .bind (takeIf_spared hop c d hc) fun found c₁ d₁ h₁ => ?_
  cases found with
  | none => exact .pure none h₁
  | some _ =>
    refine .bind (spend_spared c₁ d₁ h₁) fun _ c₂ d₂ h₂ => ?_
    exact .bind (h c₂ d₂ h₂) fun _ _ _ h₃ => .pure _ h₃

theorem disjunction_spared : s.Spared (disjunction nested) := by
  have hfactor : Spurns factorOp? := fun t ht => by rw [factorOp?, ht]
  have hterm : Spurns termOp? := fun t ht => by rw [termOp?, ht]
  have hcomparison : Spurns comparisonOp? := fun t ht => by rw [comparisonOp?, ht]
  have hequality : Spurns equalityOp? := fun t ht => by rw [equalityOp?, ht]
  have hand : Spurns andOp? := fun t ht => by rw [andOp?, ht, if_neg (by simp)]
  have hor : Spurns orOp? := fun t ht => by rw [orOp?, ht, if_neg (by simp)]
  exact level_spared hor _ (level_spared hand _ (level_spared hequality _ (level_spared hcomparison _
    (level_spared hterm _ (level_spared hfactor _ (unary_spared hn))))))

theorem assignment_spared : s.Spared (assignment nested) := by
  intro c d h
  refine .bind (disjunction_spared hn c d h) fun target c₁ d₁ h₁ => ?_
  refine .bind (accept_spared (by simp) c₁ d₁ h₁) fun equals c₂ d₂ h₂ => ?_
  cases equals with
  | none => exact .pure target h₂
  | some equals =>
    refine .bind (hn.assignment c₂ d₂ h₂) fun value c₃ d₃ h₃ => ?_
    split
    · exact .pure _ h₃
    · exact .of_refused fun r hr => by cases hr

theorem binding_spared : s.Spared (binding nested) := by
  intro c d h
  refine .bind (requireKind_spared (by simp) _ c d h) fun _ c₁ d₁ h₁ => ?_
  refine .bind (accept_spared (by simp) c₁ d₁ h₁) fun equals c₂ d₂ h₂ => ?_
  cases equals with
  | none => exact .pure _ h₂
  | some _ => exact .bind (hn.assignment c₂ d₂ h₂) fun _ _ _ h₃ => .pure _ h₃

theorem condition_spared : s.Spared (condition nested) := by
  intro c d h
  refine .bind (requireMark_spared (by simp) _ c d h) fun _ c₁ d₁ h₁ => ?_
  refine .bind (hn.assignment c₁ d₁ h₁) fun _ c₂ d₂ h₂ => ?_
  exact .bind (requireMark_spared (by simp) _ c₂ d₂ h₂) fun _ _ _ h₃ => .pure _ h₃

omit hn in
theorem ending_met (x : Stmt) : s.Met (do optionalSemicolon; return x) :=
  fun c d h => .bind (optionalSemicolon_met c d h) fun _ _ _ h₁ => .pure x h₁

theorem varStatement_met : s.Met (varStatement nested) := by
  intro c d h
  refine .bind (requireKeyword_spared _ c d h) fun _ c₁ d₁ h₁ => .rounds ?_
  exact .bind (separated_spared (binding_spared hn) h₁.length_le h₁) fun _ c₂ d₂ h₂ => ending_met _ c₂ d₂ h₂

theorem ifStatement_met : s.Met (ifStatement nested) := by
  intro c d h
  refine .bind (requireKeyword_spared _ c d h) fun _ c₁ d₁ h₁ => ?_
  refine .bind (condition_spared hn c₁ d₁ h₁) fun _ c₂ d₂ h₂ => ?_
  refine .bind (hn.statement c₂ d₂ h₂) ?_
  rintro yes c₃ d₃ (h₃ | ⟨hc₃, rfl⟩)
  · refine .bind (accept_spared (by simp) c₃ d₃ h₃) fun found c₄ d₄ h₄ => ?_
    cases found with
    | none => exact .pure _ (.inl h₄)
    | some _ => exact .bind (hn.statement c₄ d₄ h₄) fun _ _ _ h₅ => .pure _ h₅
  · -- The semicolon closed the statement of the condition, and no `else` follows it.
    have hnone : accept (.keyword .elseWord) c₃ = .ok (none, c₃) := accept_none (by simp [hc₃])
    have hnone' := accept_none (c := ⟨s.rest, s.finish, c₃.budget⟩) s.starts
    refine .bind_or_refused fun found c₄ hfound => .inr ?_
    rw [hnone] at hfound
    cases hfound
    exact ⟨_, hnone', .pure _ (.inr ⟨hc₃, rfl⟩)⟩

theorem whileStatement_met : s.Met (whileStatement nested) := by
  intro c d h
  refine .bind (requireKeyword_spared _ c d h) fun _ c₁ d₁ h₁ => ?_
  refine .bind (condition_spared hn c₁ d₁ h₁) fun _ c₂ d₂ h₂ => ?_
  exact .bind (hn.statement c₂ d₂ h₂) fun _ _ _ h₃ => .pure _ h₃

theorem returnStatement_met : s.Met (returnStatement nested) := by
  intro c d h
  refine .bind (requireKeyword_spared _ c d h) fun _ c₁ d₁ h₁ => .get ?_
  have hstop : (d₁.sees (.mark .semicolon) || d₁.sees (.mark .braceClose) || d₁.atEnd) =
      (c₁.sees (.mark .semicolon) || c₁.sees (.mark .braceClose) || c₁.atEnd) := by
    obtain ⟨hc, hd⟩ | ⟨t, ts, us, hc, hd, -⟩ := h₁.cases
    · simp [Cursor.sees, Cursor.kind?, Cursor.atEnd, hc, hd, s.marked]
    · simp [Cursor.sees, Cursor.kind?, Cursor.atEnd, hc, hd]
  rw [hstop]
  split
  · exact ending_met _ c₁ d₁ h₁
  · exact .bind (hn.assignment c₁ d₁ h₁) fun _ c₂ d₂ h₂ => ending_met _ c₂ d₂ h₂

theorem throwStatement_met : s.Met (throwStatement nested) := by
  intro c d h
  refine .bind (requireKeyword_spared _ c d h) fun _ c₁ d₁ h₁ => ?_
  exact .bind (hn.assignment c₁ d₁ h₁) fun _ c₂ d₂ h₂ => ending_met _ c₂ d₂ h₂

theorem tryStatement_spared : s.Spared (tryStatement nested) := by
  intro c d h
  refine .bind (requireKeyword_spared _ c d h) fun _ c₁ d₁ h₁ => ?_
  refine .bind (block_spared hn c₁ d₁ h₁) fun _ c₂ d₂ h₂ => ?_
  refine .bind (requireKeyword_spared _ c₂ d₂ h₂) fun _ c₃ d₃ h₃ => ?_
  refine .bind (requireMark_spared (by simp) _ c₃ d₃ h₃) fun _ c₄ d₄ h₄ => ?_
  refine .bind (requireKind_spared (by simp) _ c₄ d₄ h₄) fun _ c₅ d₅ h₅ => ?_
  refine .bind (requireMark_spared (by simp) _ c₅ d₅ h₅) fun _ c₆ d₆ h₆ => ?_
  exact .bind (block_spared hn c₆ d₆ h₆) fun _ _ _ h₇ => .pure _ h₇

theorem statement_met : s.Met (statement nested) := by
  intro c d h
  obtain ⟨hc, -⟩ | ⟨t, ts, us, hc, hd, -⟩ := h.cases
  · have hend : c.Startless := by simp [Cursor.Startless, hc]
    exact .of_refused (statement_refuses (hn.refuses c hend) hend)
  have hkind : d.kind? = c.kind? := by rw [Cursor.kind?, Cursor.kind?, hc, hd]; rfl
  have hspan : d.span = c.span := by rw [Cursor.span, Cursor.span, hc, hd]
  refine .get ?_
  dsimp only
  rw [hkind, hspan]
  split
  · exact varStatement_met hn c d h
  · exact .bind (functionDecl_spared hn true c d h) fun _ _ _ h₁ => .pure _ (.inl h₁)
  · exact ifStatement_met hn c d h
  · exact whileStatement_met hn c d h
  · exact returnStatement_met hn c d h
  · exact throwStatement_met hn c d h
  · exact (tryStatement_spared hn c d h).mono fun _ _ => .inl
  · exact .bind (block_spared hn c d h) fun _ _ _ h₁ => .pure _ (.inl h₁)
  · exact ending_met _ c d h
  · exact .bind (hn.assignment c d h) fun _ c₁ d₁ h₁ => ending_met _ c₁ d₁ h₁

end Grammar

theorem levels_join (s : Sequel) (n : Nat) : (levels n).Joins s := by
  induction n with
  | zero =>
    exact ⟨fun _ _ _ => .of_refused (fail_refuses _), fun _ _ _ => .of_refused (fail_refuses _),
      fun _ _ _ => .of_refused (fail_refuses _), fun _ => levels_refuse 0⟩
  | succ n ih =>
    exact ⟨restoring_met (statement_met ih), lend_spared (assignment_spared ih), unary_spared ih,
      fun _ => levels_refuse (n + 1)⟩

section Scripts

variable {s : Sequel} {c d c' : Cursor} {n m : Nat}

theorem upTo_mono {α : Type} {done : Cursor → Bool} {item : ParseM α} {xs : List α} (hnm : n ≤ m)
    (h : upTo done item n c = .ok (xs, c')) : upTo done item m c = .ok (xs, c') := by
  induction n generalizing m c xs with
  | zero => cases h
  | succ n ih =>
    obtain ⟨m, rfl⟩ : ∃ m', m = m' + 1 := ⟨m - 1, by omega⟩
    obtain ⟨k, hk, ⟨hdone, rfl, rfl⟩ | ⟨hdone, x, ys, c₁, rfl, hx, hys⟩⟩ := upTo_cases h
    · exact upTo_of_done hdone
    · obtain rfl : n = k := by omega
      exact upTo_of_item hdone hx (ih (Nat.le_of_succ_le_succ hnm) hys)

theorem levels_budget {x : Stmt} (h : (levels n).statement c = .ok (x, c')) : c'.budget = c.budget :=
  ((levels_bounded n).statement c x c' h).2

theorem semicolon_statement {t : Token} {ts : List Token} (hc : c.rest = t :: ts) (ht : t.kind = .mark .semicolon)
    (hb : c.budget ≠ 0) (hn : n ≠ 0) :
    (levels n).statement c = .ok (.empty t.span, { c with rest := ts }) := by
  obtain ⟨n, rfl⟩ := Nat.exists_eq_succ_of_ne_zero hn
  obtain ⟨b, hb⟩ := Nat.exists_eq_succ_of_ne_zero hb
  have hspend : spend c = .ok ((), { c with budget := b }) := by
    rw [spend, get_bind, hb]
    rfl
  have hinner : statement (levels n) { c with budget := b } = .ok (.empty t.span, { c with rest := ts, budget := b }) := by
    have hkind : Cursor.kind? { c with budget := b } = some (.mark .semicolon) := by
      rw [Cursor.kind?, hc, ← ht]
      rfl
    have hspan : Cursor.span { c with budget := b } = t.span := by rw [Cursor.span, hc]
    rw [statement, get_bind, hkind, hspan]
    exact bind_of_ok (bind_of_ok (accept_some hc ht))
  show restoring (statement (levels n)) c = _
  rw [restoring, get_bind, bind_of_ok hspend, bind_of_ok hinner]
  rfl

theorem upTo_joined {items more : List Stmt} {k l : Nat} {e : Cursor} (hl : l ≠ 0) (hb : c.budget ≠ 0)
    (hmore : upTo Cursor.atEnd (levels l).statement k ⟨s.rest, s.finish, c.budget⟩ = .ok (more, e))
    (hitems : upTo Cursor.atEnd (levels l).statement n c = .ok (items, c')) (h : s.Ahead c d) (hm : n + k ≤ m) :
    ∃ between, (between = [] ∨ between = [.empty s.semicolon.span]) ∧
      upTo Cursor.atEnd (levels l).statement m d = .ok (items ++ (between ++ more), e) := by
  induction n generalizing m c d items with
  | zero => cases hitems
  | succ n ih =>
    obtain ⟨m, rfl⟩ : ∃ m', m = m' + 1 := ⟨m - 1, by omega⟩
    have hgoes : d.atEnd = false := by
      obtain rfl := h
      simp [Cursor.atEnd]
    obtain ⟨k', hk, ⟨hdone, rfl, -⟩ | ⟨-, x, ys, c₁, rfl, hx, hys⟩⟩ := upTo_cases hitems
    · -- The text has ended before the semicolon, which is a statement of its own.
      have hc : c.rest = [] := by simpa [Cursor.atEnd] using hdone
      have hd : d.rest = s.semicolon :: s.rest := by
        obtain rfl := h
        rw [hc]
        rfl
      have hempty := semicolon_statement hd s.marked (by rwa [h.budget]) hl
      obtain rfl := h
      exact ⟨_, .inr rfl, upTo_of_item hgoes hempty (upTo_mono (by omega) hmore)⟩
    obtain rfl : n = k' := by omega
    have hbudget := levels_budget hx
    obtain ⟨d₁, hd₁, hahead | ⟨hc₁, rfl⟩⟩ := (levels_join s l).statement c d h x c₁ hx
    · rw [← hbudget] at hb hmore
      obtain ⟨between, hbetween, hrest⟩ := ih (m := m) hb hmore hys hahead (by omega)
      exact ⟨between, hbetween, upTo_of_item hgoes hd₁ hrest⟩
    · -- The last statement has taken the semicolon.
      obtain ⟨-, -, ⟨-, rfl, -⟩ | ⟨hmoves, -⟩⟩ := upTo_cases hys
      · rw [hbudget] at hd₁
        exact ⟨[], .inl rfl, upTo_of_item hgoes hd₁ (upTo_mono (by omega) hmore)⟩
      · simp [Cursor.atEnd, hc₁] at hmoves

theorem script_eq (c : Cursor) :
    script c = upTo Cursor.atEnd (levels maxNesting).statement (c.rest.length + 1) c := rfl

theorem script_joined {ts : List Token} {finish : Span} {items more : List Stmt} {e : Cursor}
    (hitems : script ⟨ts, finish, maxNesting⟩ = .ok (items, c'))
    (hmore : script ⟨s.rest, s.finish, maxNesting⟩ = .ok (more, e)) :
    ∃ between, (between = [] ∨ between = [.empty s.semicolon.span]) ∧
      script ⟨ts ++ s.semicolon :: s.rest, s.finish, maxNesting⟩ = .ok (items ++ (between ++ more), e) := by
  rw [script_eq] at hitems hmore
  simp only [script_eq]
  refine upTo_joined (Nat.succ_ne_zero 199) (Nat.succ_ne_zero 199) hmore hitems rfl ?_
  simp only [List.length_append, List.length_cons]
  omega

theorem script_starts {items : List Stmt} (h : script c = .ok (items, c')) :
    ∀ t ∈ c.rest.head?, t.kind ≠ .keyword .elseWord := by
  intro t ht hkind
  obtain ⟨-, -, ⟨hdone, -⟩ | ⟨-, x, ys, c₁, -, hx, -⟩⟩ := upTo_cases h
  · have hc : c.rest = [] := by simpa [Cursor.atEnd] using hdone
    simp [hc] at ht
  · have hc : c.Startless := by
      intro u hu
      obtain rfl := Option.some.inj (ht.symm.trans hu)
      exact hkind
    exact levels_statement_refuses maxNesting hc _ hx

end Scripts

end Parser

theorem parse_eq_ok {source : String} {items : List Stmt} (h : parse source = .ok items) :
    ∃ ts c', scan source = .ok ts ∧ Parser.script ⟨ts.items, ts.finish, Parser.maxNesting⟩ = .ok (items, c') := by
  rw [parse] at h
  split at h
  · cases h
  next ts hts =>
  split at h
  · cases h
  next found hfound =>
  cases h
  obtain ⟨⟨_, c'⟩, hscript, rfl⟩ := Scanner.map_eq_ok hfound
  exact ⟨ts, c', hts, hscript⟩

theorem parse_of_words {source : String} {us : Tokens} {ts : List Token} (hs : scan source = .ok us)
    (hwords : us.items.map Token.word = ts.map Token.word) {finish : Span} {items : List Stmt} {c' : Parser.Cursor}
    (h : Parser.script ⟨ts, finish, Parser.maxNesting⟩ = .ok (items, c')) :
    ∃ found, parse source = .ok found ∧ Stmt.bares found = Stmt.bares items := by
  have hsame : Parser.Cursor.Same ⟨us.items, us.finish, Parser.maxNesting⟩ ⟨ts, finish, Parser.maxNesting⟩ :=
    ⟨hwords, rfl⟩
  have hagree := Parser.script_blind _ _ hsame
  unfold Parser.Agree at hagree
  split at hagree
  · rename_i found d' items' _ hu ht
    rw [h] at ht
    cases ht
    refine ⟨found, ?_, Stmt.bares_of_forall₂ hagree.1⟩
    have hparse : us.parse = (Parser.script ⟨us.items, us.finish, Parser.maxNesting⟩).map (·.1) := rfl
    simp only [parse, hs, hparse, hu]
    rfl
  · rename_i ht
    rw [h] at ht
    cases ht
  · exact hagree.elim

theorem Stmt.bares_append (xs ys : List Stmt) : Stmt.bares (xs ++ ys) = Stmt.bares xs ++ Stmt.bares ys := by
  induction xs with
  | nil => rfl
  | cons x xs ih => rw [List.cons_append, bares, bares, ih, List.cons_append]

theorem scripts_compose {a b : String} {first second : List Stmt} (ha : parse a = .ok first)
    (hb : parse b = .ok second) :
    ∃ whole between, parse (a ++ "\n;" ++ b) = .ok whole ∧ (between = [] ∨ between = [.empty .nowhere]) ∧
      Stmt.bares whole = Stmt.bares first ++ between ++ Stmt.bares second := by
  obtain ⟨ts, c, hts, hfirst⟩ := parse_eq_ok ha
  obtain ⟨us, e, hus, hsecond⟩ := parse_eq_ok hb
  obtain ⟨vs, hvs, hwords⟩ := scan_joined hts hus
  let s : Parser.Sequel := ⟨⟨.mark .semicolon, ";", .nowhere⟩, us.items, us.finish, rfl, Parser.script_starts hsecond⟩
  obtain ⟨between, hbetween, hjoined⟩ := Parser.script_joined (s := s) hfirst hsecond
  have hsame : vs.items.map Token.word = (ts.items ++ s.semicolon :: s.rest).map Token.word := by
    rw [hwords, List.map_append, List.map_cons]
    rfl
  obtain ⟨whole, hwhole, hbares⟩ := parse_of_words hvs hsame hjoined
  refine ⟨whole, Stmt.bares between, hwhole, ?_, ?_⟩
  · obtain rfl | rfl := hbetween
    · exact .inl rfl
    · exact .inr rfl
  · rw [hbares, Stmt.bares_append, Stmt.bares_append, List.append_assoc]

theorem scripts_compose_after_return : ∃ first second,
    parse "if (a) return // no value" = .ok first ∧ parse "{ !b }" = .ok second ∧
    ∃ whole between, parse ("if (a) return // no value" ++ "\n;" ++ "{ !b }") = .ok whole ∧
      (between = [] ∨ between = [.empty .nowhere]) ∧
      Stmt.bares whole = Stmt.bares first ++ between ++ Stmt.bares second := by
  have hfirst : (parse "if (a) return // no value").toOption.isSome = true := by decide +kernel
  have hsecond : (parse "{ !b }").toOption.isSome = true := by decide +kernel
  cases ha : parse "if (a) return // no value" with
  | error e =>
    rw [ha] at hfirst
    cases hfirst
  | ok first =>
    cases hb : parse "{ !b }" with
    | error e =>
      rw [hb] at hsecond
      cases hsecond
    | ok second => exact ⟨first, second, rfl, rfl, scripts_compose ha hb⟩

end ScriptEngine
