import ScriptEngine.Token.Scanner

namespace ScriptEngine

open Text

theorem not_identifierPart_of_isBlank {c : Char} (h : isBlank c = true) : Scanner.isIdentifierPart c = false := by
  have hapart : ∀ r ∈ blankRanges, ∀ s ∈ alphanumericRanges, r.last < s.first ∨ s.last < r.first := by
    decide +kernel
  obtain ⟨r, hr, hc⟩ := exists_covers_of_inRanges h
  have halpha : isAlphanumeric c = false := by
    refine Bool.eq_false_iff.mpr fun hs => ?_
    obtain ⟨s, hs, hd⟩ := exists_covers_of_inRanges hs
    have hrs := hapart r hr s hs
    simp only [CharRange.Covers] at hc hd
    omega
  have hother : c ≠ '_' ∧ c ≠ '$' := by
    constructor
    · rintro rfl
      exact absurd h (by decide)
    · rintro rfl
      exact absurd h (by decide)
  simp [Scanner.isIdentifierPart, halpha, hother]

namespace Scanner

/-- What can stand between tokens: blanks and whole comments. A line comment goes on to the end of
its line, which at the end of the text needs no newline. -/
inductive Filler (last : Bool) : List Char → Prop
  | nil : Filler last []
  | blank {c : Char} {cs : List Char} : isBlank c = true → Filler last cs → Filler last (c :: cs)
  | line {body cs : List Char} : '\n' ∉ body → Filler last cs → Filler last ('/' :: '/' :: (body ++ '\n' :: cs))
  | lastLine {body : List Char} : last = true → '\n' ∉ body → Filler last ('/' :: '/' :: body)
  | block {body cs : List Char} : ¬['*', '/'] <:+: body → Filler last cs →
      Filler last ('/' :: '*' :: (body ++ '*' :: '/' :: cs))

def Gap.Rest (last : Bool) : Gap → List Char → Prop
  | .blank, cs => Filler last cs
  | .line, cs => (∃ body ds, '\n' ∉ body ∧ cs = body ++ '\n' :: ds ∧ Filler last ds) ∨ (last = true ∧ '\n' ∉ cs)
  | .block _, cs => ∃ body ds, ¬['*', '/'] <:+: body ∧ cs = body ++ '*' :: '/' :: ds ∧ Filler last ds

def Opens (cs : List Char) : Prop :=
  ∃ c ds, cs = c :: ds ∧ isBlank c = false ∧ (c = '/' → ds.head? ≠ some '/' ∧ ds.head? ≠ some '*')

theorem skip_fills {g : Gap} {p q : Position} {cs ds : List Char} (h : skip g p cs = .ok (q, ds)) :
    ∃ gap, cs = gap ++ ds ∧ q = p.past gap ∧ g.Rest ds.isEmpty gap ∧ (ds = [] ∨ Opens ds) := by
  fun_induction skip g p cs with
  | case1 p cs ih =>
    obtain ⟨gap, rfl, rfl, hr, ho⟩ := ih h
    refine ⟨'/' :: '/' :: gap, rfl, rfl, ?_, ho⟩
    obtain ⟨body, es, hb, rfl, hf⟩ | ⟨hl, hb⟩ := hr
    · exact .line hb hf
    · exact .lastLine hl hb
  | case2 p cs ih =>
    obtain ⟨gap, rfl, rfl, ⟨body, es, hb, rfl, hf⟩, ho⟩ := ih h
    exact ⟨'/' :: '*' :: (body ++ '*' :: '/' :: es), rfl, rfl, .block hb hf, ho⟩
  | case3 p c cs _ _ hc ih =>
    obtain ⟨gap, rfl, rfl, hr, ho⟩ := ih h
    exact ⟨c :: gap, rfl, rfl, .blank hc hr, ho⟩
  | case4 p c cs hline hblock hc =>
    cases h
    refine ⟨[], rfl, rfl, .nil, .inr ⟨c, cs, rfl, Bool.eq_false_iff.mpr hc, ?_⟩⟩
    rintro rfl
    cases cs with
    | nil => simp
    | cons d cs =>
      constructor
      · rintro ⟨⟩
        exact hline cs rfl rfl
      · rintro ⟨⟩
        exact hblock cs rfl rfl
  | case5 p c cs ih =>
    obtain ⟨gap, rfl, rfl, hr, ho⟩ := ih h
    refine ⟨c :: gap, rfl, rfl, ?_, ho⟩
    by_cases hc : c = '\n'
    · rw [if_pos hc] at hr
      exact .inl ⟨[], gap, by simp, by rw [hc]; rfl, hr⟩
    · rw [if_neg hc] at hr
      obtain ⟨body, es, hb, rfl, hf⟩ | ⟨hl, hb⟩ := hr
      · exact .inl ⟨c :: body, es, by simp [hb, Ne.symm hc], rfl, hf⟩
      · exact .inr ⟨hl, by simp [hb, Ne.symm hc]⟩
  | case6 opened p cs ih =>
    obtain ⟨gap, rfl, rfl, hr, ho⟩ := ih h
    exact ⟨'*' :: '/' :: gap, rfl, rfl, ⟨[], gap, by simp, rfl, hr⟩, ho⟩
  | case7 opened p c cs hopen ih =>
    obtain ⟨gap, rfl, rfl, ⟨body, es, hb, rfl, hf⟩, ho⟩ := ih h
    refine ⟨c :: (body ++ '*' :: '/' :: es), rfl, rfl, ⟨c :: body, es, ?_, rfl, hf⟩, ho⟩
    -- The end of a comment inside the longer body would stand at its start.
    rw [List.infix_cons_iff]
    rintro (hp | hp)
    · cases body with
      | nil => simp at hp
      | cons d body =>
        simp only [List.cons_prefix_cons, List.nil_prefix, and_true] at hp
        obtain ⟨rfl, rfl⟩ := hp
        exact hopen _ rfl rfl
    · exact hb hp
  | case8 => cases h
  | case9 g p hg =>
    cases h
    refine ⟨[], rfl, rfl, ?_, .inl rfl⟩
    cases g with
    | blank => exact .nil
    | line => exact .inr ⟨rfl, by simp⟩
    | block opened => exact (hg opened rfl).elim

def Apart (rest : List Char) : Prop :=
  ∀ c ∈ rest.head?, isBlank c = true

theorem Apart.head_ne {rest : List Char} (h : Apart rest) {c : Char} (hc : isBlank c = false) : rest.head? ≠ some c := by
  intro hh
  rw [h c hh] at hc
  cases hc

theorem identifierTail_again (cs : List Char) {rest : List Char} (hr : Apart rest) :
    identifierTail ((identifierTail cs).taken ++ rest) = ⟨(identifierTail cs).taken, rest⟩ := by
  have hstop : identifierTail rest = ⟨[], rest⟩ := by
    cases rest with
    | nil => rfl
    | cons b rest => rw [identifierTail, not_identifierPart_of_isBlank (hr b rfl)]; rfl
  fun_induction identifierTail cs with
  | case1 => exact hstop
  | case2 c cs hc ih =>
    simp only [Cut.push, List.cons_append]
    rw [identifierTail, if_pos hc, ih]
    rfl
  | case3 => exact hstop

theorem isIdentifierPart_of_isDigit {c : Char} (h : c.isDigit = true) : isIdentifierPart c = true := by
  have hrange : inRanges c (⟨0x30, 0x39⟩ :: alphanumericRanges.tail) = true := by
    simp only [Char.isDigit, Bool.and_eq_true, decide_eq_true_eq, ge_iff_le, UInt32.le_iff_toNat_le] at h
    have hlow : 48 ≤ c.toNat := h.1
    have hhigh : c.toNat ≤ 57 := h.2
    rw [inRanges, if_neg (Nat.not_lt.mpr hlow), if_pos hhigh]
  have halpha : isAlphanumeric c = true := hrange
  simp [isIdentifierPart, halpha]

theorem numberTail_cons (pointed : Bool) (c : Char) (cs : List Char) :
    numberTail pointed (c :: cs) =
      if c.isDigit then (numberTail pointed cs).push c
      else if c = '.' ∧ pointed = false then (numberTail true cs).push c
      else if c = 'e' ∨ c = 'E' then
        match cs with
        | '+' :: ds => ((numberTail pointed ds).push '+').push c
        | '-' :: ds => ((numberTail pointed ds).push '-').push c
        | ds => (numberTail pointed ds).push c
      else ⟨[], c :: cs⟩ :=
  numberTail.eq_def pointed (c :: cs)

theorem numberTail_apart (pointed : Bool) {rest : List Char} (hr : Apart rest) : numberTail pointed rest = ⟨[], rest⟩ := by
  cases rest with
  | nil => rfl
  | cons b rest =>
    have hne {c : Char} (hc : isBlank c = false) : b ≠ c := by
      rintro rfl
      exact hr.head_ne hc rfl
    have hdigit : b.isDigit = false := by
      refine Bool.eq_false_iff.mpr fun hd => ?_
      have hpart := not_identifierPart_of_isBlank (hr b rfl)
      rw [isIdentifierPart_of_isDigit hd] at hpart
      cases hpart
    rw [numberTail_cons, hdigit, if_neg (by simp), if_neg (by simp [hne (c := '.') (by decide)]),
      if_neg (by simp [hne (c := 'e') (by decide), hne (c := 'E') (by decide)])]

theorem numberTail_again (pointed : Bool) (cs : List Char) {rest : List Char} (hr : Apart rest) :
    numberTail pointed ((numberTail pointed cs).taken ++ rest) = ⟨(numberTail pointed cs).taken, rest⟩ := by
  fun_induction numberTail pointed cs with
  | case1 => exact numberTail_apart _ hr
  | case2 pointed c cs hc ih =>
    simp only [Cut.push, List.cons_append]
    rw [numberTail_cons, if_pos hc, ih]
    rfl
  | case3 pointed c cs hc hp ih =>
    simp only [Cut.push, List.cons_append]
    rw [numberTail_cons, if_neg hc, if_pos hp, ih]
    rfl
  | case4 pointed c hc hp he cs ih =>
    simp only [Cut.push, List.cons_append]
    rw [numberTail_cons, if_neg hc, if_neg hp, if_pos he]
    simp only [ih]
    rfl
  | case5 pointed c hc hp he cs ih =>
    simp only [Cut.push, List.cons_append]
    rw [numberTail_cons, if_neg hc, if_neg hp, if_pos he]
    simp only [ih]
    rfl
  | case6 pointed c hc hp he cs hplus hminus ih =>
    -- A sign right after the exponent mark was not there, and none comes from the rest.
    have hunsigned {d : Char} (hd : isBlank d = false) (hcs : ∀ ds, cs = d :: ds → False) (ds : List Char) :
        (numberTail pointed cs).taken ++ rest ≠ d :: ds := by
      intro hsign
      have hof := numberTail_of pointed cs
      cases htaken : (numberTail pointed cs).taken with
      | nil =>
        rw [htaken, List.nil_append] at hsign
        exact hr.head_ne hd (by rw [hsign]; rfl)
      | cons x xs =>
        rw [htaken] at hsign
        rw [Cut.Of, htaken] at hof
        obtain rfl : x = d := (List.cons.inj hsign).1
        exact hcs _ hof.symm
    simp only [Cut.push, List.cons_append]
    rw [numberTail_cons, if_neg hc, if_neg hp, if_pos he]
    split
    · rename_i ds hds
      exact (hunsigned (by decide) hplus ds hds).elim
    · rename_i ds hds
      exact (hunsigned (by decide) hminus ds hds).elim
    · rw [ih]
      rfl
  | case7 => exact numberTail_apart _ hr

/-- The characters between the quotes of a string literal, and the text that they stand for. -/
inductive Spells (quote : Char) : List Char → List Char → Prop
  | nil : Spells quote [] []
  | plain {c : Char} {cs vs : List Char} : c ≠ '\n' → c ≠ quote → c ≠ '\\' → Spells quote cs vs →
      Spells quote (c :: cs) (c :: vs)
  | escape {c : Char} {cs vs : List Char} : c ≠ 'u' → Spells quote cs vs →
      Spells quote ('\\' :: c :: cs) (unescape c :: vs)
  | code {digits cs vs : List Char} {values : List Nat} : digits.length = 4 → digits.mapM hexDigit? = some values →
      Spells quote cs vs →
      Spells quote ('\\' :: 'u' :: (digits ++ cs)) (ofCode (values.foldl (16 * · + ·) 0) :: vs)

def Inside.Rest (quote : Char) : Inside → List Char → List Char → Prop
  | .plain, cs, vs => Spells quote cs vs
  | .escape, cs, vs => Spells quote ('\\' :: cs) vs
  | .code n v, cs, vs => ∃ digits values ds ws, digits.length = max n 1 ∧ digits.mapM hexDigit? = some values ∧
      cs = digits ++ ds ∧ vs = ofCode (values.foldl (16 * · + ·) v) :: ws ∧ Spells quote ds ws

theorem map_eq_ok {ε α β : Type} {x : Except ε α} {f : α → β} {b : β} (h : x.map f = .ok b) : ∃ a, x = .ok a ∧ f a = b := by
  cases x with
  | error e => cases h
  | ok a => exact ⟨a, rfl, Except.ok.inj h⟩

theorem quoted_spells {quote : Char} {inside : Inside} {cs vs : List Char}
    (h : (quoted quote inside cs).value = .ok vs) :
    ∃ body, (quoted quote inside cs).cut.taken = body ++ [quote] ∧ inside.Rest quote body vs := by
  fun_induction quoted quote inside cs generalizing vs with
  | case1 => cases h
  | case2 => cases h
  | case3 => cases h
  | case4 cs hn =>
    cases h
    exact ⟨[], rfl, .nil⟩
  | case5 cs hn hq ih =>
    obtain ⟨body, htaken, hrest⟩ := ih h
    exact ⟨'\\' :: body, by simp [Quoted.push, Cut.push, htaken], hrest⟩
  | case6 c cs hn hq hb ih =>
    obtain ⟨ws, hws, rfl⟩ := map_eq_ok h
    obtain ⟨body, htaken, hrest⟩ := ih hws
    exact ⟨c :: body, by simp [Quoted.push, Quoted.stand, Cut.push, htaken], .plain hn hq hb hrest⟩
  | case7 cs ih =>
    obtain ⟨body, htaken, digits, values, ds, ws, hlength, hvalues, rfl, rfl, hrest⟩ := ih h
    exact ⟨'u' :: (digits ++ ds), by simp [Quoted.push, Cut.push, htaken], .code hlength hvalues hrest⟩
  | case8 c cs hc ih =>
    obtain ⟨ws, hws, rfl⟩ := map_eq_ok h
    obtain ⟨body, htaken, hrest⟩ := ih hws
    exact ⟨c :: body, by simp [Quoted.push, Quoted.stand, Cut.push, htaken], .escape hc hrest⟩
  | case9 => cases h
  | case10 n v c cs d hd hn ih =>
    obtain ⟨ws, hws, rfl⟩ := map_eq_ok h
    obtain ⟨body, htaken, hrest⟩ := ih hws
    refine ⟨c :: body, by simp [Quoted.push, Quoted.stand, Cut.push, htaken], [c], [d], body, ws, ?_, ?_, rfl, rfl, hrest⟩
    · simp only [List.length_singleton]
      omega
    · simp [hd]
  | case11 n v c cs d hd hn ih =>
    obtain ⟨body, htaken, digits, values, ds, ws, hlength, hvalues, rfl, rfl, hrest⟩ := ih h
    refine ⟨c :: (digits ++ ds), by simp [Quoted.push, Cut.push, htaken], c :: digits, d :: values, ds, ws, ?_, ?_,
      rfl, rfl, hrest⟩
    · simp only [List.length_cons, hlength]
      omega
    · simp [hd, hvalues]

theorem quoted_again {quote : Char} {inside : Inside} {cs vs : List Char}
    (h : (quoted quote inside cs).value = .ok vs) (rest : List Char) :
    quoted quote inside ((quoted quote inside cs).cut.taken ++ rest) =
      ⟨.ok vs, (quoted quote inside cs).cut.taken, rest⟩ := by
  fun_induction quoted quote inside cs generalizing vs with
  | case1 => cases h
  | case2 => cases h
  | case3 => cases h
  | case4 cs hn =>
    cases h
    simp [Quoted.stop, quoted, hn]
  | case5 cs hn hq ih =>
    simp [Quoted.push, Cut.push, quoted, hq, ih h]
  | case6 c cs hn hq hb ih =>
    obtain ⟨ws, hws, rfl⟩ := map_eq_ok h
    simp [Quoted.push, Quoted.stand, Cut.push, quoted, hn, hq, hb, ih hws, Except.map]
  | case7 cs ih => simp [Quoted.push, Cut.push, quoted, ih h]
  | case8 c cs hc ih =>
    obtain ⟨ws, hws, rfl⟩ := map_eq_ok h
    simp [Quoted.push, Quoted.stand, Cut.push, quoted, hc, ih hws, Except.map]
  | case9 => cases h
  | case10 n v c cs d hd hn ih =>
    obtain ⟨ws, hws, rfl⟩ := map_eq_ok h
    simp [Quoted.push, Quoted.stand, Cut.push, quoted, hd, hn, ih hws, Except.map]
  | case11 n v c cs d hd hn ih => simp [Quoted.push, Cut.push, quoted, hd, hn, ih h]

theorem leading?_apart (cs : List Char) {rest : List Char} (hr : Apart rest) :
    Mark.leading? (cs ++ rest) = Mark.leading? cs := by
  have hsolid (m : Mark) : m.spelling.all (!isBlank ·) = true := by cases m <;> decide
  have hsame (m : Mark) : m.spelling <+: cs ++ rest ↔ m.spelling <+: cs := by
    refine ⟨fun h => ?_, fun h => h.trans (List.prefix_append _ _)⟩
    obtain hin | ⟨ds, hds⟩ := List.prefix_or_prefix_of_prefix h (List.prefix_append cs rest)
    · exact hin
    · rw [← hds, List.prefix_append_right_inj] at h
      cases ds with
      | nil => simp [← hds]
      | cons d ds =>
        obtain ⟨es, rfl⟩ := h
        have hd : isBlank d = false := by simpa using List.all_eq_true.mp (hsolid m) d (by simp [← hds])
        exact (hr.head_ne hd rfl).elim
  have hfun : (fun m : Mark => m.spelling.isPrefixOf (cs ++ rest)) = fun m => m.spelling.isPrefixOf cs := by
    funext m
    rw [Bool.eq_iff_iff, List.isPrefixOf_iff_prefix, List.isPrefixOf_iff_prefix, hsame]
  rw [Mark.leading?, hfun, Mark.leading?]

theorem leading?_spelling (m : Mark) : Mark.leading? m.spelling = some m := by
  cases m <;> decide

def Decides (text : List Char) (kind : TokenKind) (lexeme : String) : Prop :=
  ∃ c cs, text = c :: cs ∧ ∀ rest, Apart rest → piece c (cs ++ rest) = .ok ⟨kind, lexeme, ⟨text, rest⟩⟩

/-- A string token is a quoted literal of its lexeme; all other tokens are their lexemes. -/
def Means (text : List Char) (kind : TokenKind) (lexeme : String) : Prop :=
  if kind = .string then
    ∃ quote body vs, (quote = '"' ∨ quote = '\'') ∧ text = quote :: (body ++ [quote]) ∧ Spells quote body vs ∧
      lexeme = String.ofList vs
  else lexeme = String.ofList text

structure Piece.Decided (p : Piece) : Prop where
  decides : Decides p.cut.taken p.kind p.lexeme
  means : Means p.cut.taken p.kind p.lexeme

theorem ofIdentifier_eq (cut : Cut) : ∃ kind, kind ≠ .string ∧
    ∀ rest, Piece.ofIdentifier ⟨cut.taken, rest⟩ = ⟨kind, String.ofList cut.taken, ⟨cut.taken, rest⟩⟩ := by
  cases hk : Keyword.ofSpelling? (String.ofList cut.taken) with
  | none => exact ⟨.identifier, by simp, fun rest => by simp only [Piece.ofIdentifier, hk, Piece.ofCut]⟩
  | some k => exact ⟨.keyword k, by simp, fun rest => by simp only [Piece.ofIdentifier, hk, Piece.ofCut]⟩

theorem identifier_decided {c : Char} (hc : isIdentifierStart c = true) (cs : List Char) :
    (Piece.ofIdentifier ((identifierTail cs).push c)).Decided := by
  obtain ⟨kind, hkind, hof⟩ := ofIdentifier_eq ((identifierTail cs).push c)
  have hself := hof ((identifierTail cs).push c).rest
  refine ⟨?_, ?_⟩
  · rw [hself]
    refine ⟨c, (identifierTail cs).taken, rfl, fun rest hr => ?_⟩
    rw [piece, if_pos hc, identifierTail_again cs hr]
    exact congrArg Except.ok (hof rest)
  · rw [hself, Means, if_neg hkind]

theorem number_decided {c : Char} (hc : isIdentifierStart c = false) (hd : c.isDigit = true) (cs : List Char) :
    (Piece.ofCut .number ((numberTail false cs).push c)).Decided := by
  refine ⟨⟨c, (numberTail false cs).taken, rfl, fun rest hr => ?_⟩, rfl⟩
  rw [piece, if_neg (by simp [hc]), if_pos hd, numberTail_again false cs hr]
  rfl

theorem string_decided {c : Char} (hc : isIdentifierStart c = false) (hd : c.isDigit = false) (hq : c = '"' ∨ c = '\'')
    {cs vs : List Char} (hv : (quoted c .plain cs).value = .ok vs) :
    Piece.Decided ⟨.string, String.ofList vs, ((quoted c .plain cs).push c).cut⟩ := by
  refine ⟨⟨c, (quoted c .plain cs).cut.taken, rfl, fun rest hr => ?_⟩, ?_⟩
  · rw [piece, if_neg (by simp [hc]), if_neg (by simp [hd]), if_pos hq, quoted_again hv]
    rfl
  · obtain ⟨body, htaken, hrest⟩ := quoted_spells hv
    exact ⟨c, body, vs, hq, congrArg (c :: ·) htaken, hrest, rfl⟩

theorem mark_decided {c : Char} (hc : isIdentifierStart c = false) (hd : c.isDigit = false)
    (hq : ¬(c = '"' ∨ c = '\'')) {m : Mark} {cs : List Char} (hm : m.spelling = c :: cs) (ds : List Char) :
    (Piece.ofCut (.mark m) ⟨c :: cs, ds⟩).Decided := by
  refine ⟨⟨c, cs, rfl, fun rest hr => ?_⟩, rfl⟩
  have hlead : Mark.leading? (c :: (cs ++ rest)) = some m := by
    rw [← List.cons_append, ← hm, leading?_apart _ hr, leading?_spelling]
  have hlength : m.spelling.length - 1 = cs.length := by rw [hm]; rfl
  rw [piece, if_neg (by simp [hc]), if_neg (by simp [hd]), if_neg hq]
  simp only [hlead, hlength, List.take_left, List.drop_left]
  rfl

theorem unknown_decided {c : Char} (hc : isIdentifierStart c = false) (hd : c.isDigit = false)
    (hq : ¬(c = '"' ∨ c = '\'')) {cs : List Char} (hm : Mark.leading? (c :: cs) = none) :
    (Piece.ofCut .unknown ⟨[c], cs⟩).Decided := by
  refine ⟨⟨c, [], rfl, fun rest hr => ?_⟩, rfl⟩
  have hlead : Mark.leading? (c :: rest) = none := by
    rw [← List.singleton_append, leading?_apart _ hr, Mark.leading?, List.find?_eq_none]
    intro m hall hm'
    rw [Mark.leading?, List.find?_eq_none] at hm
    rw [List.isPrefixOf_iff_prefix] at hm'
    exact hm m hall (List.isPrefixOf_iff_prefix.mpr (hm'.trans (List.prefix_append [c] cs)))
  rw [piece, if_neg (by simp [hc]), if_neg (by simp [hd]), if_neg hq]
  simp only [List.nil_append, hlead]
  rfl

theorem piece_decided {c : Char} {cs : List Char} {p : Piece} (h : piece c cs = .ok p) : p.Decided := by
  rw [piece] at h
  split at h
  · next hc =>
    cases h
    exact identifier_decided hc cs
  next hc =>
  have hc := Bool.eq_false_iff.mpr hc
  split at h
  · next hd =>
    cases h
    exact number_decided hc hd cs
  next hd =>
  have hd := Bool.eq_false_iff.mpr hd
  split at h
  · next hq =>
    dsimp only at h
    split at h
    · next vs hv =>
      cases h
      exact string_decided hc hd hq hv
    · cases h
  next hq =>
  split at h
  · next m hm =>
    cases h
    obtain ⟨ds, hds⟩ := Mark.spelling_prefix_of_leading? hm
    cases hs : m.spelling with
    | nil => cases m <;> cases hs
    | cons d es =>
      rw [hs, List.cons_append] at hds
      obtain ⟨rfl, rfl⟩ := List.cons.inj hds
      simp only [List.length_cons, Nat.add_sub_cancel, List.take_left, List.drop_left]
      exact mark_decided hc hd hq hs ds
  · next hm =>
    cases h
    exact unknown_decided hc hd hq hm

inductive Laid : Position → List Char → List (List Char) → Tokens → Prop
  | finish {p : Position} {gap : List Char} : Filler true gap →
      Laid p gap [] ⟨[], .between (p.past gap) (p.past gap)⟩
  | token {p : Position} {gap text rest : List Char} {texts : List (List Char)} {kind : TokenKind} {lexeme : String}
      {ts : Tokens} : Filler false gap → Opens (text ++ rest) → Decides text kind lexeme → Means text kind lexeme →
      Laid ((p.past gap).past text) rest texts ts →
      Laid p (gap ++ (text ++ rest)) (text :: texts)
        ⟨⟨kind, lexeme, .between (p.past gap) ((p.past gap).past text)⟩ :: ts.items, ts.finish⟩

theorem tokens_laid {p : Position} {cs : List Char} {ts : Tokens} (h : tokens p cs = .ok ts) :
    ∃ texts, Laid p cs texts ts := by
  fun_induction tokens p cs generalizing ts with
  | case1 => cases h
  | case2 p cs q hs =>
    cases h
    obtain ⟨gap, rfl, rfl, hr, -⟩ := skip_fills hs
    rw [List.append_nil]
    exact ⟨[], .finish hr⟩
  | case3 => cases h
  | case4 p cs q c ds hs t ht r =>
    rename_i ih
    obtain ⟨us, hus, rfl⟩ := map_eq_ok h
    obtain ⟨texts, hlaid⟩ := ih hus
    obtain ⟨gap, rfl, rfl, hr, ho⟩ := skip_fills hs
    have hof : t.cut.taken ++ t.cut.rest = c :: ds := (piece_of ht).1
    rw [← hof] at ho ⊢
    have ho := ho.resolve_left (by rw [hof]; simp)
    exact ⟨t.cut.taken :: texts, .token hr ho (piece_decided ht).decides (piece_decided ht).means hlaid⟩

end Scanner

end ScriptEngine
