import ScriptEngine.Source.Diagnostic
import ScriptEngine.Text.Alphanumeric
import ScriptEngine.Text.Blank
import ScriptEngine.Text.Lossy
import ScriptEngine.Token

namespace ScriptEngine

inductive ScanFault where
  | openComment
  | openString
  | malformedEscape
deriving DecidableEq, Repr

def ScanFault.message : ScanFault → String
  | .openComment => "unterminated comment"
  | .openString => "unterminated string literal"
  | .malformedEscape => "malformed unicode escape"

structure ScanError where
  fault : ScanFault
  span : Span
deriving DecidableEq, Repr

def ScanError.diagnostic (e : ScanError) : Diagnostic :=
  .of .scanning e.fault.message e.span

namespace Scanner

inductive Gap where
  | blank
  | line
  | block (opened : Position)
deriving DecidableEq, Repr

def skip : Gap → Position → List Char → Except ScanError (Position × List Char)
  | .blank, p, '/' :: '/' :: cs => skip .line ((p.step '/').step '/') cs
  | .blank, p, '/' :: '*' :: cs => skip (.block p) ((p.step '/').step '*') cs
  | .blank, p, c :: cs => if Text.isBlank c then skip .blank (p.step c) cs else .ok (p, c :: cs)
  | .line, p, c :: cs => skip (if c = '\n' then .blank else .line) (p.step c) cs
  | .block _, p, '*' :: '/' :: cs => skip .blank ((p.step '*').step '/') cs
  | .block opened, p, c :: cs => skip (.block opened) (p.step c) cs
  | .block opened, p, [] => .error ⟨.openComment, .between opened p⟩
  | _, p, [] => .ok (p, [])

theorem length_skip_le {g : Gap} {p q : Position} {cs ds : List Char}
    (h : skip g p cs = .ok (q, ds)) : ds.length ≤ cs.length := by
  fun_induction skip g p cs with
  | case1 _ _ ih => have := ih h; simp only [List.length_cons]; omega
  | case2 _ _ ih => have := ih h; simp only [List.length_cons]; omega
  | case3 _ _ _ _ _ _ ih => have := ih h; simp only [List.length_cons]; omega
  | case4 => simp_all
  | case5 _ _ _ ih => have := ih h; simp only [List.length_cons]; omega
  | case6 _ _ _ ih => have := ih h; simp only [List.length_cons]; omega
  | case7 _ _ _ _ _ ih => have := ih h; simp only [List.length_cons]; omega
  | case8 => simp at h
  | case9 => simp_all

def isIdentifierStart (c : Char) : Bool :=
  c.isAlpha || c = '_' || c = '$'

def isIdentifierPart (c : Char) : Bool :=
  Text.isAlphanumeric c || c = '_' || c = '$'

structure Cut where
  taken : List Char
  rest : List Char
deriving DecidableEq, Repr

def Cut.push (c : Char) (cut : Cut) : Cut :=
  { cut with taken := c :: cut.taken }

def Cut.Of (cut : Cut) (cs : List Char) : Prop :=
  cut.taken ++ cut.rest = cs

theorem Cut.Of.push {cut : Cut} {cs : List Char} (h : cut.Of cs) (c : Char) :
    (cut.push c).Of (c :: cs) := by
  simpa [Cut.Of, Cut.push] using h

theorem Cut.Of.length_le {cut : Cut} {cs : List Char} (h : cut.Of cs) :
    cut.rest.length ≤ cs.length := by
  rw [← h, List.length_append]
  omega

def identifierTail : List Char → Cut
  | [] => ⟨[], []⟩
  | c :: cs => if isIdentifierPart c then (identifierTail cs).push c else ⟨[], c :: cs⟩

theorem identifierTail_of (cs : List Char) : (identifierTail cs).Of cs := by
  fun_induction identifierTail cs with
  | case1 => rfl
  | case2 c cs _ ih => exact ih.push c
  | case3 => rfl

def numberTail (pointed : Bool) : List Char → Cut
  | [] => ⟨[], []⟩
  | c :: cs =>
    if c.isDigit then (numberTail pointed cs).push c
    else if c = '.' ∧ pointed = false then (numberTail true cs).push c
    else if c = 'e' ∨ c = 'E' then
      match cs with
      | '+' :: ds => ((numberTail pointed ds).push '+').push c
      | '-' :: ds => ((numberTail pointed ds).push '-').push c
      | ds => (numberTail pointed ds).push c
    else ⟨[], c :: cs⟩

theorem numberTail_of (pointed : Bool) (cs : List Char) : (numberTail pointed cs).Of cs := by
  fun_induction numberTail pointed cs with
  | case1 => rfl
  | case2 _ c _ _ ih => exact ih.push c
  | case3 _ c _ _ _ ih => exact ih.push c
  | case4 _ c _ _ _ _ ih => exact (ih.push '+').push c
  | case5 _ c _ _ _ _ ih => exact (ih.push '-').push c
  | case6 _ c _ _ _ _ _ _ ih => exact ih.push c
  | case7 => rfl

def hexDigit? (c : Char) : Option Nat :=
  if c.isDigit then some (c.toNat - '0'.toNat)
  else if 'a' ≤ c ∧ c ≤ 'f' then some (c.toNat - 'a'.toNat + 10)
  else if 'A' ≤ c ∧ c ≤ 'F' then some (c.toNat - 'A'.toNat + 10)
  else none

def ofCode (code : Nat) : Char :=
  if code.isValidChar then Char.ofNat code else Text.replacement

def unescape (c : Char) : Char :=
  if c = 'n' then '\n'
  else if c = 'r' then '\r'
  else if c = 't' then '\t'
  else if c = '0' then Char.ofNat 0
  else c

inductive Inside where
  | plain
  | escape
  | code (missing : Nat) (value : Nat)
deriving DecidableEq, Repr

structure Quoted where
  value : Except ScanFault (List Char)
  cut : Cut

namespace Quoted

def stop (value : Except ScanFault (List Char)) (taken rest : List Char) : Quoted :=
  ⟨value, ⟨taken, rest⟩⟩

def push (c : Char) (q : Quoted) : Quoted :=
  { q with cut := q.cut.push c }

def stand (c : Char) (q : Quoted) : Quoted :=
  { q with value := q.value.map (c :: ·) }

end Quoted

def quoted (quote : Char) : Inside → List Char → Quoted
  | .code _ _, [] => .stop (.error .malformedEscape) [] []
  | _, [] => .stop (.error .openString) [] []
  | .plain, c :: cs =>
    if c = '\n' then .stop (.error .openString) [c] cs
    else if c = quote then .stop (.ok []) [c] cs
    else if c = '\\' then (quoted quote .escape cs).push c
    else ((quoted quote .plain cs).stand c).push c
  | .escape, c :: cs =>
    if c = 'u' then (quoted quote (.code 4 0) cs).push c
    else ((quoted quote .plain cs).stand (unescape c)).push c
  | .code n v, c :: cs =>
    match hexDigit? c with
    | none => .stop (.error .malformedEscape) [c] cs
    | some d =>
      if n ≤ 1 then ((quoted quote .plain cs).stand (ofCode (16 * v + d))).push c
      else (quoted quote (.code (n - 1) (16 * v + d)) cs).push c

theorem quoted_of (quote : Char) (inside : Inside) (cs : List Char) :
    (quoted quote inside cs).cut.Of cs := by
  fun_induction quoted quote inside cs with
  | case1 => rfl
  | case2 => rfl
  | case3 => rfl
  | case4 => rfl
  | case5 _ _ _ ih => exact ih.push _
  | case6 c _ _ _ _ ih => exact ih.push c
  | case7 _ ih => exact ih.push _
  | case8 c _ _ ih => exact ih.push c
  | case9 => rfl
  | case10 _ _ c _ _ _ _ ih => exact ih.push c
  | case11 _ _ c _ _ _ _ ih => exact ih.push c

structure Piece where
  kind : TokenKind
  lexeme : String
  cut : Cut

namespace Piece

def ofCut (kind : TokenKind) (cut : Cut) : Piece :=
  ⟨kind, String.ofList cut.taken, cut⟩

def ofIdentifier (cut : Cut) : Piece :=
  match Keyword.ofSpelling? (String.ofList cut.taken) with
  | some k => ofCut (.keyword k) cut
  | none => ofCut .identifier cut

end Piece

structure Spoilt where
  fault : ScanFault
  taken : List Char

def piece (c : Char) (cs : List Char) : Except Spoilt Piece :=
  if isIdentifierStart c then .ok (.ofIdentifier ((identifierTail cs).push c))
  else if c.isDigit then .ok (.ofCut .number ((numberTail false cs).push c))
  else if c = '"' ∨ c = '\'' then
    let q := (quoted c .plain cs).push c
    match q.value with
    | .ok value => .ok ⟨.string, String.ofList value, q.cut⟩
    | .error fault => .error ⟨fault, q.cut.taken⟩
  else match Mark.leading? (c :: cs) with
    | some m => .ok (.ofCut (.mark m) ⟨c :: cs.take (m.spelling.length - 1), cs.drop (m.spelling.length - 1)⟩)
    | none => .ok (.ofCut .unknown ⟨[c], cs⟩)

theorem piece_of {c : Char} {cs : List Char} {p : Piece} (h : piece c cs = .ok p) :
    p.cut.Of (c :: cs) ∧ p.cut.rest.length ≤ cs.length := by
  rw [piece] at h
  split at h
  · cases h
    have hc : (Piece.ofIdentifier ((identifierTail cs).push c)).cut = (identifierTail cs).push c := by
      rw [Piece.ofIdentifier]; split <;> rfl
    rw [hc]
    exact ⟨(identifierTail_of cs).push c, (identifierTail_of cs).length_le⟩
  · split at h
    · cases h
      exact ⟨(numberTail_of false cs).push c, (numberTail_of false cs).length_le⟩
    · split at h
      · simp only at h
        split at h
        · cases h
          exact ⟨(quoted_of c .plain cs).push c, (quoted_of c .plain cs).length_le⟩
        · cases h
      · split at h
        · cases h
          exact ⟨by simp [Piece.ofCut, Cut.Of], by simp [Piece.ofCut]⟩
        · cases h
          exact ⟨rfl, Nat.le_refl _⟩

def tokens (p : Position) (cs : List Char) : Except ScanError Tokens :=
  match _h : skip .blank p cs with
  | .error e => .error e
  | .ok (q, []) => .ok ⟨[], .between q q⟩
  | .ok (q, c :: ds) =>
    match _hp : piece c ds with
    | .error s => .error ⟨s.fault, .between q (q.past s.taken)⟩
    | .ok t =>
      let r := q.past t.cut.taken
      (tokens r t.cut.rest).map fun ts =>
        { ts with items := ⟨t.kind, t.lexeme, .between q r⟩ :: ts.items }
termination_by cs.length
decreasing_by
  have hs := length_skip_le _h
  have := (piece_of _hp).2
  simp only [List.length_cons] at hs
  omega

end Scanner

def scan (source : String) : Except ScanError Tokens :=
  Scanner.tokens .start source.toList

end ScriptEngine
