import ScriptEngine.Proofs.Token.Partition

namespace ScriptEngine

open Text Scanner

def Blank (cs : List Char) : Prop :=
  ∀ c ∈ cs, isBlank c = true

instance (cs : List Char) : Decidable (Blank cs) :=
  List.decidableBAll (isBlank · = true) cs

inductive Spaced : List (List Char) → List Char → Prop
  | last {gap : List Char} : Blank gap → Spaced [] gap
  | next {gap text rest : List Char} {texts : List (List Char)} : gap ≠ [] → Blank gap → Spaced texts rest →
      Spaced (text :: texts) (gap ++ (text ++ rest))

/-- The texts with blanks between them; there may be blanks before the first and after the last. -/
inductive Respaced : List (List Char) → List Char → Prop
  | blank {gap : List Char} : Blank gap → Respaced [] gap
  | texts {gap text rest : List Char} {texts : List (List Char)} : Blank gap → Spaced texts rest →
      Respaced (text :: texts) (gap ++ (text ++ rest))

def Token.word (t : Token) : TokenKind × String :=
  (t.kind, t.lexeme)

def Tokens.texts (ts : Tokens) (source : String) : List (List Char) :=
  ts.items.map fun t => textBetween source t.span.first t.span.last

theorem Spaced.apart {texts : List (List Char)} {cs : List Char} (h : Spaced texts cs) : Apart cs := by
  intro c hc
  cases h with
  | last hb => exact hb c (List.mem_of_mem_head? hc)
  | @next gap text rest texts hne hb _ =>
    rw [List.head?_append_of_ne_nil _ hne] at hc
    exact hb c (List.mem_of_mem_head? hc)

namespace Scanner

theorem skip_cons {c : Char} {cs : List Char} (h : c = '/' → cs.head? ≠ some '/' ∧ cs.head? ≠ some '*') (p : Position) :
    skip .blank p (c :: cs) = if isBlank c then skip .blank (p.step c) cs else .ok (p, c :: cs) := by
  rw [skip]
  · rintro ds rfl rfl
    exact (h rfl).1 rfl
  · rintro ds rfl rfl
    exact (h rfl).2 rfl

theorem skip_blank {gap cs : List Char} (hb : Blank gap) (hc : cs = [] ∨ Opens cs) (p : Position) :
    skip .blank p (gap ++ cs) = .ok (p.past gap, cs) := by
  induction gap generalizing p with
  | nil =>
    obtain rfl | ⟨c, ds, rfl, hc, hslash⟩ := hc
    · simp [skip]
    · rw [List.nil_append, skip_cons hslash, if_neg (by simp [hc])]
      rfl
  | cons b gap ih =>
    have hblank := hb b List.mem_cons_self
    have hslash : b ≠ '/' := by
      rintro rfl
      exact absurd hblank (by decide)
    rw [List.cons_append, skip_cons fun h => (hslash h).elim, if_pos hblank,
      ih fun c hc => hb c (List.mem_cons_of_mem b hc)]
    rfl

theorem Opens.respaced {text rest cs : List Char} (h : Opens (text ++ rest)) (hne : text ≠ []) (hcs : Apart cs) :
    Opens (text ++ cs) := by
  obtain ⟨c, ds, hds, hc, hslash⟩ := h
  cases text with
  | nil => exact (hne rfl).elim
  | cons b text =>
    obtain ⟨rfl, rfl⟩ := List.cons.inj hds
    refine ⟨b, text ++ cs, rfl, hc, fun hb => ?_⟩
    cases text with
    | nil => exact ⟨hcs.head_ne (by decide), hcs.head_ne (by decide)⟩
    | cons d text => exact hslash hb

theorem tokens_blank {gap : List Char} (hb : Blank gap) (p : Position) :
    tokens p gap = .ok ⟨[], .between (p.past gap) (p.past gap)⟩ := by
  have hs := skip_blank hb (.inl rfl) p
  rw [List.append_nil] at hs
  rw [tokens]
  split
  · rename_i h
    rw [hs] at h
    cases h
  · rename_i h
    rw [hs] at h
    cases h
    rfl
  · rename_i h
    rw [hs] at h
    cases h

theorem tokens_text {gap text rest : List Char} {kind : TokenKind} {lexeme : String} {ts : Tokens} {p : Position}
    (hb : Blank gap) (ho : Opens (text ++ rest)) (hd : Decides text kind lexeme) (hr : Apart rest)
    (ht : tokens ((p.past gap).past text) rest = .ok ts) :
    tokens p (gap ++ (text ++ rest)) =
      .ok ⟨⟨kind, lexeme, .between (p.past gap) ((p.past gap).past text)⟩ :: ts.items, ts.finish⟩ := by
  have hs := skip_blank hb (.inr ho) p
  obtain ⟨c, cs, rfl, hd⟩ := hd
  have hd := hd rest hr
  rw [List.cons_append] at hs ⊢
  rw [tokens]
  split
  · rename_i h
    rw [hs] at h
    cases h
  · rename_i h
    rw [hs] at h
    cases h
  · rename_i q d ds h
    rw [hs] at h
    cases h
    split
    · rename_i hp
      rw [hd] at hp
      cases hp
    · rename_i hp
      rw [hd] at hp
      cases hp
      dsimp only
      rw [ht]
      rfl

theorem Laid.respaced {p q : Position} {cs ds : List Char} {texts : List (List Char)} {ts : Tokens}
    (h : Laid p cs texts ts) (hs : Respaced texts ds) :
    ∃ us, tokens q ds = .ok us ∧ us.items.map Token.word = ts.items.map Token.word := by
  induction h generalizing q ds with
  | finish hf =>
    cases hs with
    | blank hb => exact ⟨_, tokens_blank hb q, rfl⟩
  | @token p gap text rest texts kind lexeme ts hgap ho hd hm hrest ih =>
    cases hs with
    | @texts gap' _ rest' _ hb hspaced =>
      have hrest' : Respaced texts rest' := by
        cases hspaced with
        | last hb => exact .blank hb
        | next _ hb hs => exact .texts hb hs
      obtain ⟨us, hus, hwords⟩ := ih (q := (q.past gap').past text) hrest'
      refine ⟨_, tokens_text hb (ho.respaced hd.ne_nil hspaced.apart) hd hspaced.apart hus, ?_⟩
      simp only [List.map_cons, hwords]
      rfl

theorem Laid.texts_eq {source : String} {p : Position} {before cs : List Char} {texts : List (List Char)} {ts : Tokens}
    (h : Laid p cs texts ts) (hp : p = .past .start before) (hs : source.toList = before ++ cs) :
    ts.texts source = texts := by
  induction h generalizing before with
  | finish => rfl
  | @token p gap text rest texts kind lexeme ts hgap ho hd hm hrest ih =>
    subst hp
    have hrest := ih (past_token before gap text) (by rw [hs]; simp only [List.append_assoc])
    have hsplit : source.toList = (before ++ gap) ++ (text ++ rest) := by rw [hs, List.append_assoc]
    have htext := textBetween_eq hsplit
    rw [Tokens.texts, List.map_cons]
    congr 1
    simp only [Span.between, ← Position.past_append, offset_start_past]
    exact htext

end Scanner

theorem scan_respaced {source target : String} {ts : Tokens} (h : scan source = .ok ts)
    (hs : Respaced (ts.texts source) target.toList) :
    ∃ us, scan target = .ok us ∧ us.items.map Token.word = ts.items.map Token.word := by
  obtain ⟨texts, hlaid⟩ := tokens_laid h
  have hstart : Position.start = .past .start [] := rfl
  have hwhole : source.toList = [] ++ source.toList := rfl
  rw [hlaid.texts_eq hstart hwhole] at hs
  exact hlaid.respaced hs

end ScriptEngine
