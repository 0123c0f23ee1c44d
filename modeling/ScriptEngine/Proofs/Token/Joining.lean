import ScriptEngine.Proofs.Token.Respacing

namespace ScriptEngine

open Text

namespace Scanner

def EndsLine (rest : List Char) : Prop :=
  ∀ c ∈ rest.head?, c = '\n'

theorem EndsLine.apart {rest : List Char} (h : EndsLine rest) : Apart rest := by
  intro c hc
  rw [h c hc]
  decide

inductive Gap.Alike : Gap → Gap → Prop
  | blank : Alike .blank .blank
  | line : Alike .line .line
  | block (opened opened' : Position) : Alike (.block opened) (.block opened')

def Cut.followedBy (cut : Cut) (rest : List Char) : Cut :=
  { cut with rest := cut.rest ++ rest }

def Piece.followedBy (t : Piece) (rest : List Char) : Piece :=
  { t with cut := t.cut.followedBy rest }

section Append

variable {rest : List Char}

theorem head?_append_ne {c d : Char} {cs : List Char} (hr : Apart rest) (hd : isBlank d = false)
    (h : ∀ ds, c = '/' → cs = d :: ds → False) (hc : c = '/') : (cs ++ rest).head? ≠ some d := by
  cases cs with
  | nil => exact hr.head_ne hd
  | cons b cs =>
    rintro ⟨⟩
    exact h cs hc rfl

theorem skip_blank_eq (hr : EndsLine rest) (p : Position) : skip .line p rest = skip .blank p rest := by
  cases rest with
  | nil => simp only [skip]
  | cons c rest =>
    obtain rfl := hr c rfl
    rw [skip_cons fun h => absurd h (by decide), if_pos (by decide), skip, if_pos rfl]

theorem skip_append (hr : EndsLine rest) {g g' : Gap} {p q : Position} {cs ds : List Char}
    (h : skip g p cs = .ok (q, ds)) (hg : g.Alike g') (p' : Position) :
    ∃ q', skip g' p' (cs ++ rest) = if ds = [] then skip .blank q' rest else .ok (q', ds ++ rest) := by
  fun_induction skip g p cs generalizing g' p' with
  | case1 p cs ih =>
    cases hg
    exact ih h .line _
  | case2 p cs ih =>
    cases hg
    exact ih h (.block p p') _
  | case3 p c cs hline hblock hc ih =>
    cases hg
    obtain ⟨q', hq⟩ := ih h .blank (p'.step c)
    refine ⟨q', ?_⟩
    rw [List.cons_append, skip_cons fun hs => ⟨head?_append_ne hr.apart (by decide) hline hs,
      head?_append_ne hr.apart (by decide) hblock hs⟩, if_pos hc, hq]
  | case4 p c cs hline hblock hc =>
    cases hg
    cases h
    refine ⟨p', ?_⟩
    rw [List.cons_append, skip_cons fun hs => ⟨head?_append_ne hr.apart (by decide) hline hs,
      head?_append_ne hr.apart (by decide) hblock hs⟩, if_neg hc, if_neg (List.cons_ne_nil c cs)]
  | case5 p c cs ih =>
    cases hg
    rw [List.cons_append, skip]
    refine ih h ?_ _
    split
    · exact .blank
    · exact .line
  | case6 opened p cs ih =>
    cases hg
    exact ih h .blank _
  | case7 opened p c cs hopen ih =>
    cases hg with
    | block _ opened' =>
      cases cs with
      | nil => cases h
      | cons d cs =>
        rw [List.cons_append, List.cons_append, skip]
        · exact ih h (.block opened opened') _
        · rintro es rfl hes
          obtain ⟨rfl, rfl⟩ := List.cons.inj hes
          exact hopen cs rfl rfl
  | case8 => cases h
  | case9 g p hopen =>
    cases h
    refine ⟨p', ?_⟩
    rw [if_pos rfl, List.nil_append]
    cases hg with
    | blank => rfl
    | line => exact skip_blank_eq hr p'
    | block opened _ => exact (hopen opened rfl).elim

theorem identifierTail_append (hr : Apart rest) (cs : List Char) :
    identifierTail (cs ++ rest) = (identifierTail cs).followedBy rest := by
  fun_induction identifierTail cs with
  | case1 => exact identifierTail_again [] hr
  | case2 c cs hc ih =>
    rw [List.cons_append, identifierTail, if_pos hc, ih]
    rfl
  | case3 c cs hc =>
    rw [List.cons_append, identifierTail, if_neg hc]
    rfl

theorem numberTail_append (hr : Apart rest) (pointed : Bool) (cs : List Char) :
    numberTail pointed (cs ++ rest) = (numberTail pointed cs).followedBy rest := by
  fun_induction numberTail pointed cs with
  | case1 => exact numberTail_apart _ hr
  | case2 pointed c cs hc ih =>
    rw [List.cons_append, numberTail_cons, if_pos hc, ih]
    rfl
  | case3 pointed c cs hc hp ih =>
    rw [List.cons_append, numberTail_cons, if_neg hc, if_pos hp, ih]
    rfl
  | case4 pointed c hc hp he cs ih =>
    rw [List.cons_append, numberTail_cons, if_neg hc, if_neg hp, if_pos he]
    simp only [List.cons_append, ih]
    rfl
  | case5 pointed c hc hp he cs ih =>
    rw [List.cons_append, numberTail_cons, if_neg hc, if_neg hp, if_pos he]
    simp only [List.cons_append, ih]
    rfl
  | case6 pointed c hc hp he cs hplus hminus ih =>
    have hunsigned {d : Char} (hd : isBlank d = false) (hcs : ∀ ds, cs = d :: ds → False) (ds : List Char) :
        cs ++ rest ≠ d :: ds := by
      intro hsign
      cases cs with
      | nil => exact hr.head_ne hd (by rw [show rest = d :: ds from hsign]; rfl)
      | cons b cs => exact hcs cs (by rw [(List.cons.inj hsign).1])
    rw [List.cons_append, numberTail_cons, if_neg hc, if_neg hp, if_pos he]
    split
    · rename_i ds hds
      exact (hunsigned (by decide) hplus ds hds).elim
    · rename_i ds hds
      exact (hunsigned (by decide) hminus ds hds).elim
    · rw [ih]
      rfl
  | case7 pointed c cs hc hp he =>
    rw [List.cons_append, numberTail_cons, if_neg hc, if_neg hp, if_neg he]
    rfl

theorem quoted_append {quote : Char} {inside : Inside} {cs vs : List Char}
    (h : (quoted quote inside cs).value = .ok vs) (rest : List Char) :
    quoted quote inside (cs ++ rest) = ⟨.ok vs, (quoted quote inside cs).cut.followedBy rest⟩ := by
  have hagain := quoted_again h ((quoted quote inside cs).cut.rest ++ rest)
  have hof : (quoted quote inside cs).cut.taken ++ (quoted quote inside cs).cut.rest = cs :=
    quoted_of quote inside cs
  rwa [← List.append_assoc, hof] at hagain

theorem ofIdentifier_followedBy (cut : Cut) (rest : List Char) :
    Piece.ofIdentifier (cut.followedBy rest) = (Piece.ofIdentifier cut).followedBy rest := by
  rw [Piece.ofIdentifier, Piece.ofIdentifier]
  dsimp only [Cut.followedBy]
  split <;> rfl

theorem piece_append (hr : Apart rest) {c : Char} {cs : List Char} {t : Piece} (h : piece c cs = .ok t) :
    piece c (cs ++ rest) = .ok (t.followedBy rest) := by
  rw [piece] at h
  split at h
  · next hc =>
    cases h
    rw [piece, if_pos hc, identifierTail_append hr, ← ofIdentifier_followedBy]
    rfl
  next hc =>
  split at h
  · next hd =>
    cases h
    rw [piece, if_neg hc, if_pos hd, numberTail_append hr]
    rfl
  next hd =>
  split at h
  · next hq =>
    dsimp only at h
    split at h
    · next vs hv =>
      cases h
      rw [piece, if_neg hc, if_neg hd, if_pos hq, quoted_append hv]
      rfl
    · cases h
  next hq =>
  have hlead := leading?_apart (c :: cs) hr
  rw [List.cons_append] at hlead
  rw [piece, if_neg hc, if_neg hd, if_neg hq, hlead]
  split at h
  · next m hm =>
    cases h
    have hlength : m.spelling.length - 1 ≤ cs.length := by
      have := (Mark.spelling_prefix_of_leading? hm).length_le
      rw [List.length_cons] at this
      omega
    rw [List.take_append_of_le_length hlength, List.drop_append_of_le_length hlength]
    rfl
  · cases h
    rfl

end Append

section Tokens

variable {p q : Position} {cs rest : List Char} {ts us : Tokens}

theorem tokens_congr {ds : List Char} (h : skip .blank p cs = skip .blank q ds) : tokens p cs = tokens q ds := by
  rw [tokens, tokens, h]

theorem tokens_piece {c : Char} {ds : List Char} {t : Piece} (hs : skip .blank p cs = .ok (q, c :: ds))
    (ht : piece c ds = .ok t) (hts : tokens (q.past t.cut.taken) t.cut.rest = .ok ts) :
    tokens p cs = .ok ⟨⟨t.kind, t.lexeme, .between q (q.past t.cut.taken)⟩ :: ts.items, ts.finish⟩ := by
  rw [tokens]
  split
  · rename_i h
    rw [hs] at h
    cases h
  · rename_i h
    rw [hs] at h
    cases h
  · rename_i h
    rw [hs] at h
    cases h
    split
    · rename_i hp
      rw [ht] at hp
      cases hp
    · rename_i hp
      rw [ht] at hp
      cases hp
      dsimp only
      rw [hts]
      rfl

def Yields (cs : List Char) (ws : List (TokenKind × String)) : Prop :=
  ∀ p, ∃ ts, tokens p cs = .ok ts ∧ ts.items.map Token.word = ws

theorem yields_nil : Yields [] [] :=
  fun p => ⟨_, tokens_blank (by simp [Blank]) p, rfl⟩

theorem tokens_append (hr : EndsLine rest) {ws : List (TokenKind × String)} (hws : Yields rest ws)
    (h : tokens p cs = .ok ts) : Yields (cs ++ rest) (ts.items.map Token.word ++ ws) := by
  fun_induction tokens p cs generalizing ts with
  | case1 => cases h
  | case2 p cs q hs =>
    cases h
    intro p'
    obtain ⟨q', hq⟩ := skip_append hr hs .blank p'
    rw [tokens_congr hq]
    exact hws q'
  | case3 => cases h
  | case4 p cs q c ds hs t ht r =>
    rename_i ih
    obtain ⟨us, hus, rfl⟩ := map_eq_ok h
    intro p'
    obtain ⟨q', hq⟩ := skip_append hr hs .blank p'
    obtain ⟨vs, hvs, hwords⟩ := ih hus (q'.past t.cut.taken)
    exact ⟨_, tokens_piece hq (piece_append hr.apart ht) hvs, congrArg ((t.kind, t.lexeme) :: ·) hwords⟩

theorem tokens_yields (h : tokens p cs = .ok ts) : Yields cs (ts.items.map Token.word) := by
  have hend : EndsLine [] := by simp [EndsLine]
  simpa only [List.append_nil] using tokens_append hend yields_nil h

theorem semicolon_yields {ws : List (TokenKind × String)} (h : Yields rest ws) :
    Yields ('\n' :: ';' :: rest) ((.mark .semicolon, ";") :: ws) := by
  intro p
  have hs : skip .blank p ('\n' :: ';' :: rest) = .ok (p.step '\n', ';' :: rest) := by
    rw [skip_cons fun h => absurd h (by decide), if_pos (by decide), skip_cons fun h => absurd h (by decide),
      if_neg (by decide)]
  have ht : piece ';' rest = .ok (.ofCut (.mark .semicolon) ⟨[';'], rest⟩) := by
    have hlead : Mark.leading? (';' :: rest) = some .semicolon := by
      simp [Mark.leading?, Mark.all, Mark.spelling, List.find?, List.isPrefixOf]
    rw [piece, if_neg (by decide), if_neg (by decide), if_neg (by decide), hlead]
    rfl
  obtain ⟨ts, hts, hwords⟩ := h ((p.step '\n').past [';'])
  exact ⟨_, tokens_piece hs ht hts, congrArg ((TokenKind.mark .semicolon, ";") :: ·) hwords⟩

end Tokens

end Scanner

open Scanner

theorem scan_joined {a b : String} {ts us : Tokens} (ha : scan a = .ok ts) (hb : scan b = .ok us) :
    ∃ vs, scan (a ++ "\n;" ++ b) = .ok vs ∧
      vs.items.map Token.word = ts.items.map Token.word ++ (.mark .semicolon, ";") :: us.items.map Token.word := by
  have hline : EndsLine ('\n' :: ';' :: b.toList) := by
    rintro c ⟨⟩
    rfl
  have htext : (a ++ "\n;" ++ b).toList = a.toList ++ '\n' :: ';' :: b.toList := by
    simp [String.toList_append]
  rw [scan, htext]
  exact tokens_append hline (semicolon_yields (tokens_yields hb)) ha .start

end ScriptEngine
