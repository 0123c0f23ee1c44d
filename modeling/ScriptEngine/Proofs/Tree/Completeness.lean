import ScriptEngine.Proofs.Tree.Joining
import ScriptEngine.Proofs.Tree.Spelling

namespace ScriptEngine

open Budget Grammar

namespace Parser

def Arrives {α : Type} (p : ParseM α) (R : α → Prop) (units : Option Nat) (rest : List Token) (c : Cursor) : Prop :=
  match units with
  | some b => ∃ a, p c = .ok (a, ⟨rest, c.finish, b⟩) ∧ R a
  | none => ∃ s, p c = .error ⟨.tooDeep, s⟩

namespace Arrives

variable {α β : Type} {p q : ParseM α} {f : α → ParseM β} {R : α → Prop} {S : β → Prop} {units : Option Nat}
  {t : Token} {ts us rest rest' : List Token} {finish : Span} {b b' : Nat}

theorem after {a : α} (hp : p ⟨ts, finish, b⟩ = .ok (a, ⟨us, finish, b'⟩))
    (h : Arrives (f a) S units rest ⟨us, finish, b'⟩) : Arrives (p >>= f) S units rest ⟨ts, finish, b⟩ := by
  unfold Arrives
  rw [bind_of_ok hp]
  exact h

theorem bind {k : Nat → Option Nat} (h : Arrives p R units rest ⟨ts, finish, b⟩)
    (hf : ∀ a b', units = some b' → R a → Arrives (f a) S (k b') rest' ⟨rest, finish, b'⟩) :
    Arrives (p >>= f) S (units.bind k) rest' ⟨ts, finish, b⟩ := by
  cases units with
  | none =>
    obtain ⟨s, hp⟩ := h
    refine ⟨s, ?_⟩
    show Except.bind (p _) _ = _
    rw [hp]
    rfl
  | some b' =>
    obtain ⟨a, hp, ha⟩ := h
    exact after hp (hf a b' rfl ha)

theorem pure {a : α} (h : R a) : Arrives (Pure.pure a) R (some b) ts ⟨ts, finish, b⟩ :=
  ⟨a, rfl, h⟩

theorem bind_free (h : Arrives p R units rest ⟨ts, finish, b⟩)
    (hf : ∀ a b', R a → Arrives (f a) S (some b') rest' ⟨rest, finish, b'⟩) :
    Arrives (p >>= f) S units rest' ⟨ts, finish, b⟩ := by
  have hbind := h.bind (k := some) fun a b' _ => hf a b'
  rwa [Option.bind_fun_some] at hbind

theorem spend : Arrives Parser.spend (fun _ => True) (spent b) ts ⟨ts, finish, b⟩ := by
  cases b with
  | zero => exact ⟨_, rfl⟩
  | succ b => exact ⟨⟨⟩, rfl, trivial⟩

theorem lend {inner : Nat → Option Nat} (h : ∀ b', b = b' + 1 → Arrives p R (inner b') rest ⟨ts, finish, b'⟩) :
    Arrives (Parser.lend p) R (lent inner b) rest ⟨ts, finish, b⟩ := by
  rw [lent, Option.map_eq_bind, Option.bind_assoc]
  refine spend.bind fun _ b' hb' _ => (h b' ?_).bind fun a b'' _ ha => ⟨a, rfl, ha⟩
  cases b with
  | zero => cases hb'
  | succ b => rw [Option.some.inj hb']

theorem accepted {kind : TokenKind} (ht : t.kind = kind) (h : Arrives p R units rest ⟨ts, finish, b⟩) :
    Arrives (do if (← accept kind).isSome then p else q) R units rest ⟨t :: ts, finish, b⟩ :=
  .after (accept_some rfl ht) h

theorem seeing {kind : TokenKind} {c : Cursor} (hc : c.sees kind = true) (h : Arrives p R units rest c) :
    Arrives (do if ← sees kind then p else q) R units rest c := by
  have hsees : (do if ← sees kind then p else q) c = p c := by
    show (if c.sees kind = true then p else q) c = p c
    rw [hc, if_pos rfl]
  unfold Arrives
  rw [hsees]
  exact h

theorem unseeing {kind : TokenKind} {c : Cursor} (hc : c.sees kind = false) (h : Arrives q R units rest c) :
    Arrives (do if ← sees kind then p else q) R units rest c := by
  have hsees : (do if ← sees kind then p else q) c = q c := by
    show (if c.sees kind = true then p else q) c = q c
    rw [hc, if_neg Bool.false_ne_true]
  unfold Arrives
  rw [hsees]
  exact h

theorem spending {test : Cursor → Bool} {c : Nat → Option Nat} (ht : test ⟨ts, finish, b⟩ = true)
    (h : ∀ b', spent b = some b' → Arrives p R (c b') rest ⟨ts, finish, b'⟩) :
    Arrives (do if test (← get) then do Parser.spend; p else p) R ((spent b).bind c) rest ⟨ts, finish, b⟩ := by
  have htest : (do if test (← get) then do Parser.spend; p else p : ParseM α) ⟨ts, finish, b⟩
      = (do Parser.spend; p) ⟨ts, finish, b⟩ := by
    show (if test _ = true then _ else _ : ParseM α) _ = _
    rw [ht, if_pos rfl]
  unfold Arrives
  rw [htest]
  exact spend.bind fun _ b' hb' _ => h b' hb'

theorem passed {kind : TokenKind} (ht : ∀ t ∈ ts.head?, t.kind ≠ kind) (h : Arrives q R units rest ⟨ts, finish, b⟩) :
    Arrives (do if (← accept kind).isSome then p else q) R units rest ⟨ts, finish, b⟩ :=
  .after (accept_none ht) h

end Arrives

section Tokens

variable {t : Token} {ts : List Token} {finish : Span} {b : Nat}

theorem require_some {α : Type} {test : Token → Option α} {a : α} (ht : test t = some a) (what : Expected) :
    require test what ⟨t :: ts, finish, b⟩ = .ok ((a, t.span), ⟨ts, finish, b⟩) :=
  bind_of_ok (takeIf_some rfl ht)

theorem requireMark_some {m : Mark} (ht : t.kind = .mark m) (what : Expected) :
    requireMark m what ⟨t :: ts, finish, b⟩ = .ok (t.span, ⟨ts, finish, b⟩) :=
  bind_of_ok (require_some (if_pos ht) what)

theorem propertyName?_of_names {name : String} (h : NamesProperty t name) : propertyName? t = some name := by
  obtain ⟨hkind | ⟨k, hkind⟩ | hkind | hkind, rfl⟩ := h <;> simp [propertyName?, hkind]

theorem atom_arrives (nested : Nested) {e : Expr} (x : Expr) (hatom : atom? t = some (.ok x)) (hx : x.Alike e) :
    Arrives (primary nested) (·.Alike e) (some b) ts ⟨t :: ts, finish, b⟩ := by
  refine ⟨x, ?_, hx⟩
  rw [primary, get_bind]
  simp only [hatom]
  rfl

theorem literal_arrives (nested : Nested) {value : Literal} (s : Span) (h : value.SpeltBy t) :
    Arrives (primary nested) (·.Alike (.literal value s)) (some b) ts ⟨t :: ts, finish, b⟩ := by
  refine atom_arrives nested (.literal value t.span) ?_ rfl
  match value, h with
  | .number x, h | .string x, h => simp only [atom?, h.1, h.2]
  | .boolean true, h | .boolean false, h | .null, h =>
    rw [Literal.SpeltBy] at h
    simp only [atom?, h]

end Tokens

def Reaches (link : Expr → ParseM (Option Expr)) (p : ParseM Expr) (e : Expr) (units : Option Nat) (rest : List Token)
    (c : Cursor) : Prop :=
  match units with
  | some b => ∃ left n, left.Alike e ∧ b < n ∧ p c = chain link n left ⟨rest, c.finish, b⟩
  | none => ∃ s, p c = .error ⟨.tooDeep, s⟩

namespace Reaches

variable {link : Expr → ParseM (Option Expr)} {p : ParseM Expr} {e e' : Expr} {units : Option Nat}
  {ts rest rest' : List Token} {finish : Span} {b : Nat}

theorem start (h : Arrives p (·.Alike e) units rest ⟨ts, finish, b⟩) :
    Reaches link (chained p link) e units rest ⟨ts, finish, b⟩ := by
  cases units with
  | none =>
    obtain ⟨s, hp⟩ := h
    refine ⟨s, ?_⟩
    show Except.bind (p _) _ = _
    rw [hp]
    rfl
  | some b' =>
    obtain ⟨left, hp, hleft⟩ := h
    exact ⟨left, b' + 1, hleft, Nat.lt_succ_self b', bind_of_ok hp⟩

theorem step {k : Nat → Option Nat} (h : Reaches link p e units rest ⟨ts, finish, b⟩)
    (hlink : ∀ left b', units = some b' → left.Alike e →
      Arrives (link left) (fun found => ∃ x, found = some x ∧ x.Alike e') (k b') rest' ⟨rest, finish, b'⟩)
    (hk : ∀ b₁ b₂, k b₁ = some b₂ → b₂ < b₁) : Reaches link p e' (units.bind k) rest' ⟨ts, finish, b⟩ := by
  cases units with
  | none => exact h
  | some b₁ =>
    obtain ⟨left, n, hleft, hn, hp⟩ := h
    obtain ⟨n, rfl⟩ := Nat.exists_eq_add_one_of_ne_zero (Nat.ne_zero_of_lt hn)
    have hnext := hlink left b₁ rfl hleft
    rw [Option.bind_some]
    cases hb₂ : k b₁ with
    | none =>
      rw [hb₂] at hnext
      obtain ⟨s, hs⟩ := hnext
      refine ⟨s, ?_⟩
      rw [hp]
      show Except.bind (link left _) _ = _
      rw [hs]
      rfl
    | some b₂ =>
      rw [hb₂] at hnext
      obtain ⟨_, hfound, x, rfl, hx⟩ := hnext
      have hlt := hk b₁ b₂ hb₂
      refine ⟨x, n, hx, by omega, ?_⟩
      rw [hp]
      exact bind_of_ok hfound

theorem done (h : Reaches link p e units rest ⟨ts, finish, b⟩)
    (hlink : ∀ left b', link left ⟨rest, finish, b'⟩ = .ok (none, ⟨rest, finish, b'⟩)) :
    Arrives p (·.Alike e) units rest ⟨ts, finish, b⟩ := by
  cases units with
  | none => exact h
  | some b' =>
    obtain ⟨left, n, hleft, hn, hp⟩ := h
    obtain ⟨n, rfl⟩ := Nat.exists_eq_add_one_of_ne_zero (Nat.ne_zero_of_lt hn)
    refine ⟨left, ?_, hleft⟩
    rw [hp]
    exact bind_of_ok (hlink left b')

end Reaches

def Completes (pay : (Nat → Option Nat) → Nat → Option Nat) (r k : Nat) (p : ParseM Expr) : Prop :=
  ∀ ⦃e : Expr⦄ ⦃ts rest : List Token⦄ ⦃finish : Span⦄ ⦃b : Nat⦄, e.Graded → e.SpeltBy ts → r ≤ e.rank → Stops r rest →
    b ≤ k → Arrives p (·.Alike e) (pay e.unitsLeft b) rest ⟨ts ++ rest, finish, b⟩

structure Nested.Complete (nested : Nested) (k : Nat) : Prop where
  assignment : Completes lent 0 k nested.assignment
  unary : Completes lent 7 k (lend nested.unary)

section Grammar

variable {nested : Nested} {k : Nat} (hn : nested.Complete k) {finish : Span} {b : Nat}
include hn

theorem separated_arrives : ∀ {xs : List Expr} {ts rest : List Token} {last : Token} {n b : Nat}, xs ≠ [] →
    Expr.AllGraded xs → Expr.AllSpeltBy xs ts → last.kind = .mark .parenClose → xs.length ≤ n → b ≤ k →
    Arrives (separated nested.assignment n) (List.Forall₂ Expr.Alike · xs) (Expr.allUnitsLeft xs b) (last :: rest)
      ⟨ts ++ last :: rest, finish, b⟩
  | [x], ts, rest, last, n + 1, b, _, hg, hs, hlast, _, hb => by
    rw [Expr.AllGraded] at hg
    rw [Expr.AllSpeltBy] at hs
    rw [Expr.allUnitsLeft, funext Expr.allUnitsLeft.eq_1]
    refine (hn.assignment hg.1 hs (Nat.zero_le _) (.unranked hlast rfl) hb).bind fun y b' _ hy => ?_
    refine .after (accept_none ?_) (.pure (.cons hy .nil))
    rintro _ ⟨⟩
    simp [hlast]
  | x :: y :: xs, ts, rest, last, n + 1, b, _, hg, hs, hlast, hlen, hb => by
    rw [Expr.AllGraded] at hg
    rw [Expr.AllSpeltBy] at hs
    obtain ⟨us, comma, vs, rfl, hx, hcomma, hrest⟩ := hs
    rw [Expr.allUnitsLeft, List.append_assoc, List.cons_append]
    refine (hn.assignment hg.1 hx (Nat.zero_le _) (.unranked hcomma rfl) hb).bind fun x' b' hb' hx' => ?_
    have hle := le_of_lent (fun _ _ => x.unitsLeft_le) hb'
    refine .after (accept_some rfl hcomma) ?_
    refine (separated_arrives (by simp) hg.2 hrest hlast (Nat.le_of_succ_le_succ hlen) (Nat.le_trans hle hb)).bind_free
      fun xs' _ hxs' => .pure (.cons hx' hxs')

theorem arguments_arrives {xs : List Expr} {ts rest : List Token} {last : Token} (hg : Expr.AllGraded xs)
    (hs : Expr.AllSpeltBy xs ts) (hlast : last.kind = .mark .parenClose) (hb : b ≤ k) :
    Arrives (arguments nested) (List.Forall₂ Expr.Alike · xs) (Expr.allUnitsLeft xs b) (last :: rest)
      ⟨ts ++ last :: rest, finish, b⟩ := by
  have hlen := hs.length_le
  rw [arguments]
  cases xs with
  | nil =>
    rw [Expr.AllSpeltBy] at hs
    subst hs
    rw [Expr.allUnitsLeft]
    exact .seeing (by simp [Cursor.sees, Cursor.kind?, hlast]) (.pure .nil)
  | cons x xs =>
    obtain ⟨t, us, rfl, ht⟩ := hs.head hg
    refine .unseeing (by simp [Cursor.sees, Cursor.kind?, ht]) (.after rfl ?_)
    refine separated_arrives hn (by simp) hg hs hlast ?_ hb
    simp only [List.length_append, List.length_cons] at hlen ⊢
    omega

theorem entry_arrives {name : String} {x : Expr} {key colon : Token} {ts rest : List Token}
    (hkey : NamesProperty key name) (hcolon : colon.kind = .mark .colon) (hg : x.Graded) (hs : x.SpeltBy ts)
    (hrest : Stops 0 rest) (hb : b ≤ k) :
    Arrives (entry nested) (fun found => found.1 = name ∧ found.2.Alike x) (lent x.unitsLeft b) rest
      ⟨key :: colon :: (ts ++ rest), finish, b⟩ := by
  refine .after (require_some (propertyName?_of_names hkey) _) (.after (requireMark_some hcolon _) ?_)
  exact (hn.assignment hg hs (Nat.zero_le _) hrest hb).bind_free fun x' _ hx' => .pure ⟨rfl, hx'⟩

theorem listed_arrives (xs : List (String × Expr)) {ts rest : List Token} {last : Token} {n b : Nat}
    (hg : Expr.EntriesGraded xs) (hs : Expr.EntriesSpeltBy xs ts) (hlast : last.kind = .mark .braceClose)
    (hlen : xs.length < n) (hb : b ≤ k) :
    Arrives (listed .braceClose (entry nested) n)
      (List.Forall₂ (fun x y => x.1 = y.1 ∧ x.2.Alike y.2) · xs) (Expr.entriesUnitsLeft xs b) (last :: rest)
      ⟨ts ++ last :: rest, finish, b⟩ := by
  obtain ⟨n, rfl⟩ := Nat.exists_eq_add_one_of_ne_zero (Nat.ne_zero_of_lt hlen)
  induction xs generalizing ts n b with
  | nil =>
    rw [Expr.EntriesSpeltBy] at hs
    subst hs
    rw [Expr.entriesUnitsLeft, listed]
    exact .seeing (by simp [Cursor.sees, Cursor.kind?, hlast]) (.pure .nil)
  | cons entry xs ih =>
    obtain ⟨name, x⟩ := entry
    rw [Expr.EntriesGraded] at hg
    rw [Expr.EntriesSpeltBy] at hs
    obtain ⟨key, colon, us, vs, rfl, hkey, hcolon, hx, hvs⟩ := hs
    have hunseen : Cursor.sees ⟨key :: colon :: (us ++ vs) ++ last :: rest, finish, b⟩ (.mark .braceClose) = false := by
      obtain ⟨h | ⟨w, h⟩ | h | h, _⟩ := hkey <;> simp [Cursor.sees, Cursor.kind?, h]
    rw [Expr.entriesUnitsLeft, listed]
    refine .unseeing hunseen ?_
    obtain ⟨rfl, rfl⟩ | ⟨comma, ws, rfl, hcomma, hws⟩ := hvs
    · rw [funext Expr.entriesUnitsLeft.eq_1, List.append_nil]
      refine (entry_arrives hn hkey hcolon hg.1 hx (.unranked hlast rfl) hb).bind fun y b' _ hy => ?_
      refine .after (accept_none ?_) (.pure (.cons hy .nil))
      rintro _ ⟨⟩
      simp [hlast]
    · simp only [List.cons_append, List.append_assoc]
      refine (entry_arrives hn hkey hcolon hg.1 hx (.unranked hcomma rfl) hb).bind fun y b' hb' hy => ?_
      refine .after (accept_some rfl hcomma) ?_
      have hle := le_of_lent (fun _ _ => x.unitsLeft_le) hb'
      obtain ⟨n, rfl⟩ := Nat.exists_eq_add_one_of_ne_zero (Nat.ne_zero_of_lt (Nat.lt_of_succ_lt_succ hlen))
      have hmore := ih hg.2 hws (Nat.le_trans hle hb) n (Nat.lt_of_succ_lt_succ hlen)
      exact hmore.bind_free fun ys _ hys => .pure (.cons hy hys)

theorem group_arrives {first last : Token} {inner : Expr} {s : Span} {ts rest : List Token}
    (hfirst : first.kind = .mark .parenOpen) (hg : inner.Graded) (hs : inner.SpeltBy ts)
    (hlast : last.kind = .mark .parenClose) (hb : b ≤ k) :
    Arrives (primary nested) (·.Alike (.group inner s)) (lent inner.unitsLeft b) rest
      ⟨first :: (ts ++ last :: rest), finish, b⟩ := by
  have hprimary : primary nested ⟨first :: (ts ++ last :: rest), finish, b⟩
      = group nested ⟨first :: (ts ++ last :: rest), finish, b⟩ := by
    have hatom : atom? first = none := by rw [atom?, hfirst]
    rw [primary, get_bind]
    simp only [hatom, hfirst]
  unfold Arrives
  rw [hprimary]
  refine Arrives.after (requireMark_some hfirst _) ?_
  refine (hn.assignment hg hs (Nat.zero_le _) (.unranked hlast rfl) hb).bind_free fun x _ hx => ?_
  exact .after (requireMark_some hlast _) (.pure (hx.group _ _))

theorem object_arrives {first last : Token} {entries : List (String × Expr)} {s : Span} {ts rest : List Token}
    (hfirst : first.kind = .mark .braceOpen) (hg : Expr.EntriesGraded entries) (hs : Expr.EntriesSpeltBy entries ts)
    (hlast : last.kind = .mark .braceClose) (hb : b ≤ k) :
    Arrives (primary nested) (·.Alike (.object entries s)) (Expr.entriesUnitsLeft entries b) rest
      ⟨first :: (ts ++ last :: rest), finish, b⟩ := by
  have hprimary : primary nested ⟨first :: (ts ++ last :: rest), finish, b⟩
      = object nested ⟨first :: (ts ++ last :: rest), finish, b⟩ := by
    have hatom : atom? first = none := by rw [atom?, hfirst]
    rw [primary, get_bind]
    simp only [hatom, hfirst]
  have hlen := hs.length_le
  unfold Arrives
  rw [hprimary]
  refine Arrives.after (requireMark_some hfirst _) (.after rfl ?_)
  refine (listed_arrives hn entries hg hs hlast ?_ hb).bind_free fun xs _ hxs => ?_
  · simp only [List.length_append, List.length_cons]
    omega
  · exact .after (requireMark_some hlast _) (.pure (.object hxs _ _))

theorem call_arrives {left callee : Expr} {args : List Expr} {s : Span} {first last : Token} {ts rest : List Token}
    (hleft : left.Alike callee) (hfirst : first.kind = .mark .parenOpen) (hg : Expr.AllGraded args)
    (hs : Expr.AllSpeltBy args ts) (hlast : last.kind = .mark .parenClose) (hb : b ≤ k) :
    Arrives (memberLink nested left) (fun found => ∃ x, found = some x ∧ x.Alike (.call callee args s))
      ((spent b).bind (Expr.allUnitsLeft args)) rest ⟨first :: (ts ++ last :: rest), finish, b⟩ := by
  rw [memberLink]
  refine .spending (by simp [Cursor.sees, Cursor.kind?, hfirst]) fun b' hb' => ?_
  refine .accepted hfirst ?_
  have hb'' := Nat.le_trans (Nat.le_of_lt (lt_of_spent hb')) hb
  refine (arguments_arrives hn hg hs hlast hb'').bind_free fun xs _ hxs => ?_
  exact .after (requireMark_some hlast _) (.pure ⟨_, rfl, .call hleft hxs _ _⟩)

theorem index_arrives {left target key : Expr} {s : Span} {first last : Token} {ts rest : List Token}
    (hleft : left.Alike target) (hfirst : first.kind = .mark .bracketOpen) (hg : key.Graded) (hs : key.SpeltBy ts)
    (hlast : last.kind = .mark .bracketClose) (hb : b ≤ k) :
    Arrives (memberLink nested left) (fun found => ∃ x, found = some x ∧ x.Alike (.index target key s))
      ((spent b).bind (lent key.unitsLeft)) rest ⟨first :: (ts ++ last :: rest), finish, b⟩ := by
  rw [memberLink]
  refine .spending (by simp [Cursor.sees, Cursor.kind?, hfirst]) fun b' hb' => ?_
  refine .passed (by simp [hfirst]) (.accepted hfirst ?_)
  have hle := Nat.le_trans (Nat.le_of_lt (lt_of_spent hb')) hb
  refine (hn.assignment hg hs (Nat.zero_le _) (.unranked hlast rfl) hle).bind_free fun x _ hx => ?_
  exact .after (requireMark_some hlast _) (.pure ⟨_, rfl, hleft.index hx _ _⟩)

omit hn in
theorem field_arrives {left target : Expr} {name : String} {s : Span} {dot last : Token} {rest : List Token}
    (hleft : left.Alike target) (hdot : dot.kind = .mark .dot) (hlast : NamesProperty last name) :
    Arrives (memberLink nested left) (fun found => ∃ x, found = some x ∧ x.Alike (.field target name s))
      (spent b) rest ⟨dot :: last :: rest, finish, b⟩ := by
  rw [memberLink, ← Option.bind_fun_some (spent b)]
  refine .spending (by simp [Cursor.sees, Cursor.kind?, hdot]) fun b' _ => ?_
  refine .passed (by simp [hdot]) (.passed (by simp [hdot]) (.accepted hdot ?_))
  exact .after (require_some (propertyName?_of_names hlast) _) (.pure ⟨_, rfl, hleft.field rfl _ _⟩)

omit hn in
theorem memberLink_none (left : Expr) {rest : List Token} (h : Stops 8 rest) :
    memberLink nested left ⟨rest, finish, b⟩ = .ok (none, ⟨rest, finish, b⟩) := by
  have hkind (m : Mark) (hm : TokenKind.rank? (.mark m) = some 8) : ∀ t ∈ rest.head?, t.kind ≠ .mark m := by
    rintro t ht hk
    exact h.rank?_ne t ht (hk ▸ hm)
  have hsees (m : Mark) (hm : TokenKind.rank? (.mark m) = some 8) :
      Cursor.sees ⟨rest, finish, b⟩ (.mark m) = false := by
    cases rest with
    | nil => rfl
    | cons t ts => simpa [Cursor.sees, Cursor.kind?] using hkind m hm t rfl
  rw [memberLink, get_bind, hsees .parenOpen rfl, hsees .bracketOpen rfl, hsees .dot rfl]
  refine (bind_of_ok (accept_none (hkind .parenOpen rfl))).trans ?_
  refine (bind_of_ok (accept_none (hkind .bracketOpen rfl))).trans ?_
  exact bind_of_ok (accept_none (hkind .dot rfl))

theorem member_reaches : ∀ (e : Expr) {ts rest : List Token} {b : Nat}, e.Graded → e.SpeltBy ts → e.rank = 8 → b ≤ k →
    Reaches (memberLink nested) (member nested) e (e.unitsLeft b) rest ⟨ts ++ rest, finish, b⟩
  | .literal value s, ts, rest, b, _, hs, _, _ => by
    rw [Expr.SpeltBy] at hs
    obtain ⟨t, rfl, ht⟩ := hs
    rw [Expr.unitsLeft]
    exact .start (literal_arrives nested s ht)
  | .name name s, ts, rest, b, _, hs, _, _ => by
    rw [Expr.SpeltBy] at hs
    obtain ⟨t, rfl, ht⟩ := hs
    rw [Expr.unitsLeft]
    exact .start (atom_arrives nested (.name name t.span) (by simp only [atom?, ht.1, ht.2]) rfl)
  | .this s, ts, rest, b, _, hs, _, _ => by
    rw [Expr.SpeltBy] at hs
    obtain ⟨t, rfl, ht⟩ := hs
    rw [Expr.unitsLeft]
    exact .start (atom_arrives nested (.this t.span) (by simp only [atom?, ht]) rfl)
  | .object entries s, ts, rest, b, hg, hs, _, hb => by
    rw [Expr.SpeltBy] at hs
    rw [Expr.Graded] at hg
    obtain ⟨first, us, last, rfl, hfirst, hentries, hlast⟩ := hs
    rw [Expr.unitsLeft, List.cons_append, List.append_assoc]
    exact .start (object_arrives hn hfirst hg hentries hlast hb)
  | .group inner s, ts, rest, b, hg, hs, _, hb => by
    rw [Expr.SpeltBy] at hs
    rw [Expr.Graded] at hg
    obtain ⟨first, us, last, rfl, hfirst, hinner, hlast⟩ := hs
    rw [Expr.unitsLeft, List.cons_append, List.append_assoc]
    exact .start (group_arrives hn hfirst hg hinner hlast hb)
  | .call callee args s, ts, rest, b, hg, hs, _, hb => by
    rw [Expr.SpeltBy] at hs
    rw [Expr.Graded] at hg
    obtain ⟨us, first, vs, last, rfl, hcallee, hfirst, hargs, hlast⟩ := hs
    rw [Expr.unitsLeft, Option.bind_assoc, List.append_assoc]
    refine (member_reaches callee hg.1 hcallee hg.2.1 hb).step (fun left b' hb' hleft => ?_) fun b₁ b₂ h => ?_
    · have hle := Nat.le_trans (callee.unitsLeft_le hb') hb
      rw [List.cons_append, List.append_assoc]
      exact call_arrives hn hleft hfirst hg.2.2 hargs hlast hle
    · obtain ⟨b', hb', hargs⟩ := Option.bind_eq_some_iff.mp h
      exact Nat.lt_of_le_of_lt (Expr.allUnitsLeft_le args hargs) (lt_of_spent hb')
  | .index target key s, ts, rest, b, hg, hs, _, hb => by
    rw [Expr.SpeltBy] at hs
    rw [Expr.Graded] at hg
    obtain ⟨us, first, vs, last, rfl, htarget, hfirst, hkey, hlast⟩ := hs
    rw [Expr.unitsLeft, Option.bind_assoc, List.append_assoc]
    refine (member_reaches target hg.1 htarget hg.2.1 hb).step (fun left b' hb' hleft => ?_) fun b₁ b₂ h => ?_
    · have hle := Nat.le_trans (target.unitsLeft_le hb') hb
      rw [List.cons_append, List.append_assoc]
      exact index_arrives hn hleft hfirst hg.2.2 hkey hlast hle
    · obtain ⟨b', hb', hkey⟩ := Option.bind_eq_some_iff.mp h
      exact Nat.lt_of_le_of_lt (le_of_lent (fun _ _ => key.unitsLeft_le) hkey) (lt_of_spent hb')
  | .field target name s, ts, rest, b, hg, hs, _, hb => by
    rw [Expr.SpeltBy] at hs
    rw [Expr.Graded] at hg
    obtain ⟨us, dot, last, rfl, htarget, hdot, hlast⟩ := hs
    rw [Expr.unitsLeft, List.append_assoc]
    exact (member_reaches target hg.1 htarget hg.2 hb).step (fun left b' _ hleft => field_arrives hleft hdot hlast)
      fun _ _ => lt_of_spent
  | .binary op .., ts, rest, b, _, _, hr, _ => by
    exfalso
    cases op <;> simp [Expr.rank, BinaryOp.rank] at hr
  | .logical op .., ts, rest, b, _, _, hr, _ => by
    exfalso
    cases op <;> simp [Expr.rank, LogicalOp.rank] at hr
  | .unary .., ts, rest, b, _, _, hr, _ | .assign .., ts, rest, b, _, _, hr, _ => by
    simp [Expr.rank] at hr
  | .function _, ts, rest, b, _, hs, _, _ => by
    rw [Expr.SpeltBy] at hs
    exact hs.elim
  termination_by e => sizeOf e

theorem member_completes : Completes id 8 k (member nested) := by
  intro e ts rest finish b hg hs hr hrest hb
  have h8 := Nat.le_antisymm e.rank_le hr
  exact (member_reaches hn e hg hs h8 hb).done fun left b' => memberLink_none left hrest

theorem unary_completes : Completes id 7 k (unary nested) := by
  intro e ts rest finish b hg hs hr hrest hb
  rw [unary]
  by_cases h8 : e.rank = 8
  · obtain ⟨t, us, rfl, _, ht⟩ := hs.head hg
    have hnone : takeIf unaryOp? ⟨t :: us ++ rest, finish, b⟩ = .ok (none, ⟨t :: us ++ rest, finish, b⟩) := by
      refine takeIf_none ?_
      rintro _ ⟨⟩
      exact ht h8
    exact .after hnone (member_completes hn hg hs (Nat.le_of_eq h8.symm) (hrest.mono (Nat.le_succ 7)) hb)
  · have h7 : e.rank = 7 := by
      have hle := e.rank_le
      omega
    obtain ⟨op, operand, s, rfl⟩ := Expr.unary_of_rank h7
    rw [Expr.SpeltBy] at hs
    rw [Expr.Graded] at hg
    obtain ⟨t, us, rfl, ht, hs⟩ := hs
    have hop : unaryOp? t = some op := by
      cases op <;> simp [unaryOp?, ht, UnaryOp.kind]
    rw [id, Expr.unitsLeft]
    exact .after (takeIf_some rfl hop)
      ((hn.unary hg.1 hs hg.2 hrest hb).bind_free fun x _ hx => .pure (.unary rfl hx _ _))

end Grammar

section Levels

variable {ω : Type} {r k : Nat} {op? : Token → Option ω} {join : ω → Expr → Expr → Span → Expr} {operand : ParseM Expr}

structure IsLevel (r : Nat) (op? : Token → Option ω) (join : ω → Expr → Expr → Span → Expr) : Prop where
  none : ∀ t : Token, t.kind.rank? ≠ some r → op? t = none
  some : ∀ {e left right : Expr} {m : Mark} {t : Token}, e.Joined m left right → e.rank = r → t.kind = .mark m →
    ∃ op, op? t = some op ∧ ∀ x y s, x.Alike left → y.Alike right → (join op x y s).Alike e

theorem level_reaches (hl : IsLevel r op? join) (hr : 1 ≤ r) (hr' : r ≤ 6) (hoperand : Completes id (r + 1) k operand)
    (e : Expr) {ts rest : List Token} {finish : Span} {b : Nat} (hg : e.Graded) (hs : e.SpeltBy ts) (he : r ≤ e.rank)
    (hrest : Stops (r + 1) rest) (hb : b ≤ k) :
    Reaches (operatorLink op? operand join) (level op? join operand) e (e.unitsLeft b) rest ⟨ts ++ rest, finish, b⟩ := by
  by_cases heq : e.rank = r
  · obtain ⟨m, left, right, hj⟩ := Expr.joined_of_rank (heq ▸ hr) (heq ▸ hr')
    obtain ⟨hleft, hright, hle, hlt⟩ := hj.graded hg
    obtain ⟨us, t, vs, rfl, hus, ht, hvs⟩ := hj.spelt hs
    obtain ⟨op, hop, halike⟩ := hl.some hj heq ht
    have hstops : Stops (r + 1) (t :: (vs ++ rest)) := by
      refine .cons fun k hk => ?_
      rw [ht, hj.rank?_mark, heq] at hk
      exact Nat.lt_succ_of_le (Nat.le_of_eq (Option.some.inj hk).symm)
    rw [hj.unitsLeft, List.append_assoc]
    refine (level_reaches hl hr hr' hoperand left hleft hus (heq ▸ hle) hstops hb).step (fun x b' hb' hx => ?_) ?_
    · refine .after (takeIf_some rfl hop) (Arrives.spend.bind fun _ b₂ hb₂ _ => ?_)
      have hle₂ : b₂ ≤ k := Nat.le_trans (Nat.le_of_lt (lt_of_spent hb₂)) (Nat.le_trans (left.unitsLeft_le hb') hb)
      exact (hoperand hright hvs (heq ▸ hlt) hrest hle₂).bind_free fun y _ hy => .pure ⟨_, rfl, halike x y _ hx hy⟩
    · intro b₁ b₂ h
      obtain ⟨b', hb', hright⟩ := Option.bind_eq_some_iff.mp h
      exact Nat.lt_of_le_of_lt (right.unitsLeft_le hright) (lt_of_spent hb')
  · exact .start (hoperand hg hs (by omega) hrest hb)
  termination_by sizeOf e
  decreasing_by exact hj.sizeOf_lt

theorem level_completes (hl : IsLevel r op? join) (hr : 1 ≤ r) (hr' : r ≤ 6)
    (hoperand : Completes id (r + 1) k operand) : Completes id r k (level op? join operand) := by
  intro e ts rest finish b hg hs he hrest hb
  refine (level_reaches hl hr hr' hoperand e hg hs he (hrest.mono (Nat.le_succ r)) hb).done fun left b' => ?_
  exact bind_of_ok (takeIf_none fun t ht => hl.none t (hrest.rank?_ne t ht))

theorem isLevel_binary {op? : Token → Option BinaryOp} (hr : 3 ≤ r)
    (hnone : ∀ t : Token, t.kind.rank? ≠ some r → op? t = none)
    (hsome : ∀ (t : Token) (op : BinaryOp), op.rank = r → t.kind = .mark op.mark → op? t = some op) :
    IsLevel r op? .binary := by
  refine ⟨hnone, fun {e left right m t} hj he ht => ?_⟩
  cases hj with
  | binary op => exact ⟨op, hsome t op he ht, fun x y s hx hy => hx.binary op _ _ hy⟩
  | logical op => cases op <;> simp only [Expr.rank, LogicalOp.rank] at he <;> omega

theorem isLevel_logical {op? : Token → Option LogicalOp} (hr : r ≤ 2)
    (hnone : ∀ t : Token, t.kind.rank? ≠ some r → op? t = none)
    (hsome : ∀ (t : Token) (op : LogicalOp), op.rank = r → t.kind = .mark op.mark → op? t = some op) :
    IsLevel r op? .logical := by
  refine ⟨hnone, fun {e left right m t} hj he ht => ?_⟩
  cases hj with
  | binary op => cases op <;> simp only [Expr.rank, BinaryOp.rank] at he <;> omega
  | logical op => exact ⟨op, hsome t op he ht, fun x y s hx hy => hx.logical op _ _ hy⟩

theorem isLevel_factor : IsLevel 6 factorOp? .binary := by
  refine isLevel_binary (by decide) (fun t ht => ?_) fun t op hop ht => ?_
  · unfold factorOp?
    split <;> simp_all [TokenKind.rank?]
  · cases op <;> simp_all [factorOp?, BinaryOp.rank, BinaryOp.mark]

theorem isLevel_term : IsLevel 5 termOp? .binary := by
  refine isLevel_binary (by decide) (fun t ht => ?_) fun t op hop ht => ?_
  · unfold termOp?
    split <;> simp_all [TokenKind.rank?]
  · cases op <;> simp_all [termOp?, BinaryOp.rank, BinaryOp.mark]

theorem isLevel_comparison : IsLevel 4 comparisonOp? .binary := by
  refine isLevel_binary (by decide) (fun t ht => ?_) fun t op hop ht => ?_
  · unfold comparisonOp?
    split <;> simp_all [TokenKind.rank?]
  · cases op <;> simp_all [comparisonOp?, BinaryOp.rank, BinaryOp.mark]

theorem isLevel_equality : IsLevel 3 equalityOp? .binary := by
  refine isLevel_binary (by decide) (fun t ht => ?_) fun t op hop ht => ?_
  · unfold equalityOp?
    split <;> simp_all [TokenKind.rank?]
  · cases op <;> simp_all [equalityOp?, BinaryOp.rank, BinaryOp.mark]

theorem isLevel_conjunction : IsLevel 2 andOp? .logical := by
  refine isLevel_logical (by decide) (fun t ht => if_neg fun hk => ht ?_) fun t op hop ht => ?_
  · rw [hk]
    rfl
  · cases op <;> simp_all [andOp?, LogicalOp.rank, LogicalOp.mark]

theorem isLevel_disjunction : IsLevel 1 orOp? .logical := by
  refine isLevel_logical (by decide) (fun t ht => if_neg fun hk => ht ?_) fun t op hop ht => ?_
  · rw [hk]
    rfl
  · cases op <;> simp_all [orOp?, LogicalOp.rank, LogicalOp.mark]

end Levels

variable {nested : Nested} {k : Nat}

theorem disjunction_completes (hn : nested.Complete k) : Completes id 1 k (disjunction nested) := by
  have hfactor := level_completes isLevel_factor (by decide) (by decide) (unary_completes hn)
  have hterm := level_completes isLevel_term (by decide) (by decide) hfactor
  have hcomparison := level_completes isLevel_comparison (by decide) (by decide) hterm
  have hequality := level_completes isLevel_equality (by decide) (by decide) hcomparison
  have hconjunction := level_completes isLevel_conjunction (by decide) (by decide) hequality
  exact level_completes isLevel_disjunction (by decide) (by decide) hconjunction

theorem isTarget_of_assignable {e x : Expr} (h : e.Assignable) (hx : x.Alike e) : isTarget x = true := by
  rw [isTarget_of_alike hx]
  cases h <;> rfl

theorem assignment_completes (hn : nested.Complete k) : Completes id 0 k (assignment nested) := by
  intro e ts rest finish b hg hs _ hrest hb
  rw [assignment]
  by_cases h0 : e.rank = 0
  · obtain ⟨target, value, s, rfl⟩ := Expr.assign_of_rank h0
    rw [Expr.SpeltBy] at hs
    rw [Expr.Graded] at hg
    obtain ⟨us, t, vs, rfl, htarget, ht, hvalue⟩ := hs
    have hstops : Stops 1 (t :: (vs ++ rest)) := by
      refine .cons fun k hk => ?_
      rw [ht] at hk
      cases hk
      exact Nat.one_pos
    have hrank : 1 ≤ target.rank := by cases hg.2.2 <;> simp [Expr.rank]
    rw [id, Expr.unitsLeft, List.append_assoc]
    refine (disjunction_completes hn hg.1 htarget hrank hstops hb).bind fun x b' hb' hx => ?_
    refine .after (accept_some rfl ht) ?_
    refine (hn.assignment hg.2.1 hvalue (Nat.zero_le _) hrest (Nat.le_trans (target.unitsLeft_le hb') hb)).bind_free
      fun y _ hy => ?_
    simp only [isTarget_of_assignable hg.2.2 hx, if_true]
    exact .pure (hx.assign hy _ _)
  · refine (disjunction_completes hn hg hs (Nat.one_le_iff_ne_zero.mpr h0) (hrest.mono (Nat.zero_le 1)) hb).bind_free
      fun x _ hx => ?_
    refine .after (accept_none fun t ht hk => hrest.rank?_ne t ht ?_) (.pure hx)
    rw [hk]
    rfl

theorem levels_complete (n : Nat) : (levels n).Complete n := by
  induction n with
  | zero =>
    refine ⟨?_, ?_⟩
    · intro e ts rest finish b _ _ _ _ hb
      obtain rfl := Nat.le_zero.mp hb
      exact ⟨_, rfl⟩
    · intro e ts rest finish b _ _ _ _ hb
      obtain rfl := Nat.le_zero.mp hb
      exact .lend fun _ h => nomatch h
  | succ n ih =>
    refine ⟨?_, ?_⟩
    · intro e ts rest finish b hg hs hr hrest hb
      exact .lend fun b' hb' => assignment_completes ih hg hs hr hrest (by omega)
    · intro e ts rest finish b hg hs hr hrest hb
      exact .lend fun b' hb' => unary_completes ih hg hs hr hrest (by omega)

end Parser

/-- The tokens of an expression are read as that expression up to the last one of them, if the tree needs no more than
the budget, and refused for too much nesting otherwise. -/
theorem expressions_read_back {e : Expr} {ts : List Token} (finish : Span) (hg : e.Graded) (hs : e.SpeltBy ts) :
    match lent e.unitsLeft Parser.maxNesting with
    | some b => ∃ e', (Parser.levels Parser.maxNesting).assignment ⟨ts, finish, Parser.maxNesting⟩
        = .ok (e', ⟨[], finish, b⟩) ∧ e'.bare = e.bare
    | none => ∃ error, (Parser.levels Parser.maxNesting).assignment ⟨ts, finish, Parser.maxNesting⟩ = .error error ∧
        error.fault = .tooDeep ∧ error.diagnostic.message = "too much nesting" := by
  have h : Parser.Arrives _ _ _ _ ⟨ts ++ [], finish, _⟩ :=
    (Parser.levels_complete Parser.maxNesting).assignment hg hs (Nat.zero_le _) .nil (Nat.le_refl Parser.maxNesting)
  rw [List.append_nil] at h
  cases hunits : lent e.unitsLeft Parser.maxNesting with
  | none =>
    rw [hunits] at h
    obtain ⟨s, hs⟩ := h
    exact ⟨_, hs, rfl, rfl⟩
  | some b =>
    rw [hunits] at h
    exact h

def Token.bare (kind : TokenKind) (lexeme : String) : Token := ⟨kind, lexeme, .nowhere⟩

def reckoning (x : Float) : Expr :=
  .assign (.name "sum" .nowhere)
    (.binary .add
      (.binary .mul
        (.unary .negate
          (.call (.field (.name "item" .nowhere) "count" .nowhere)
            [.literal (.number x) .nowhere, .literal (.string "b") .nowhere] .nowhere) .nowhere)
        (.name "n" .nowhere) .nowhere)
      (.group (.logical .and (.name "a" .nowhere) (.this .nowhere) .nowhere) .nowhere) .nowhere) .nowhere

def reckoningTokens : List Token :=
  let item := [Token.bare .identifier "item"] ++ [.bare (.mark .dot) ".", .bare .identifier "count"]
  let args := [Token.bare .number "2"] ++ .bare (.mark .comma) "," :: [.bare .string "b"]
  let call := item ++ .bare (.mark .parenOpen) "(" :: (args ++ [.bare (.mark .parenClose) ")"])
  let product := .bare (.mark .minus) "-" :: call ++ .bare (.mark .star) "*" :: [.bare .identifier "n"]
  let inner := [Token.bare .identifier "a"] ++ .bare (.mark .doubleAmpersand) "&&" :: [.bare (.keyword .thisWord) "this"]
  let group := .bare (.mark .parenOpen) "(" :: (inner ++ [.bare (.mark .parenClose) ")"])
  [.bare .identifier "sum"] ++ .bare (.mark .assign) "=" :: (product ++ .bare (.mark .plus) "+" :: group)

theorem expressions_read_back_reckoning : ∃ x, (reckoning x).Graded ∧ (reckoning x).SpeltBy reckoningTokens ∧
    ∃ e' b, (Parser.levels Parser.maxNesting).assignment ⟨reckoningTokens, .nowhere, Parser.maxNesting⟩
      = .ok (e', ⟨[], .nowhere, b⟩) ∧ e'.bare = (reckoning x).bare := by
  have hread : (Decimal.read? "2").isSome = true := by decide +kernel
  obtain ⟨x, hx⟩ := Option.isSome_iff_exists.mp hread
  have hg : (reckoning x).Graded := by
    simp [reckoning, Expr.Graded, Expr.AllGraded, Expr.rank, BinaryOp.rank, LogicalOp.rank, Expr.Assignable.name]
  have hname (id : String) : (Expr.name id .nowhere).SpeltBy [.bare .identifier id] := ⟨_, rfl, rfl, rfl⟩
  have hargs : Expr.AllSpeltBy [.literal (.number x) .nowhere, .literal (.string "b") .nowhere]
      ([.bare .number "2"] ++ .bare (.mark .comma) "," :: [.bare .string "b"]) :=
    ⟨_, _, _, rfl, ⟨_, rfl, rfl, hx⟩, rfl, _, rfl, rfl, rfl⟩
  have hitem : (Expr.field (.name "item" .nowhere) "count" .nowhere).SpeltBy
      ([.bare .identifier "item"] ++ [.bare (.mark .dot) ".", .bare .identifier "count"]) :=
    ⟨_, _, _, rfl, hname _, rfl, .inl rfl, rfl⟩
  have hs : (reckoning x).SpeltBy reckoningTokens :=
    ⟨_, _, _, rfl, hname _, rfl, _, _, _, rfl,
      ⟨_, _, _, rfl, ⟨_, _, rfl, rfl, _, _, _, _, rfl, hitem, rfl, hargs, rfl⟩, rfl, hname _⟩, rfl,
      _, _, _, rfl, rfl, ⟨_, _, _, rfl, hname _, rfl, _, rfl, rfl⟩, rfl⟩
  refine ⟨x, hg, hs, ?_⟩
  have hall := expressions_read_back .nowhere hg hs
  have hunits : lent (reckoning x).unitsLeft Parser.maxNesting = some 195 := by rfl
  rw [hunits] at hall
  obtain ⟨e', he', hbare⟩ := hall
  exact ⟨e', _, he', hbare⟩

end ScriptEngine
