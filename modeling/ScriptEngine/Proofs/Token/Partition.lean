import Mathlib.Data.String.Basic
import ScriptEngine.Proofs.Token.Layout

namespace ScriptEngine

open Position Scanner

def textBetween (source : String) (first last : Nat) : List Char :=
  (String.Pos.Raw.extract source ⟨first⟩ ⟨last⟩).toList

theorem byteLength_eq (cs : List Char) : byteLength cs = String.utf8Len cs := by
  induction cs with
  | nil => rfl
  | cons c cs ih => rw [byteLength, ih, String.utf8Len, Nat.add_comm]

theorem byteLength_append (cs ds : List Char) : byteLength (cs ++ ds) = byteLength cs + byteLength ds := by
  simp only [byteLength_eq, String.utf8Len_append]

theorem byteLength_toList (source : String) : byteLength source.toList = source.utf8ByteSize := by
  rw [byteLength_eq, String.utf8Len_toList]

theorem textBetween_eq {source : String} {before text after : List Char} (h : source.toList = before ++ (text ++ after)) :
    textBetween source (byteLength before) (byteLength (before ++ text)) = text := by
  have hs : source = String.ofList (before ++ text ++ after) := by
    rw [List.append_assoc, ← h, String.ofList_toList]
  rw [textBetween, byteLength_append, byteLength_eq, byteLength_eq, hs, String.extract_of_valid, String.toList_ofList]

theorem valid_of_append {source : String} {before after : List Char} (h : source.toList = before ++ after) :
    String.Pos.Raw.Valid source ⟨byteLength before⟩ :=
  .intro ⟨before, after, h.symm, byteLength_eq before⟩

def FilledFrom (source : String) (finish : Span) : Nat → List Token → Prop
  | start, [] => start ≤ finish.first ∧ Filler true (textBetween source start finish.first)
  | start, t :: ts =>
    start ≤ t.span.first ∧ Filler false (textBetween source start t.span.first) ∧ FilledFrom source finish t.span.last ts

def Token.Placed (source : String) (t : Token) : Prop :=
  ∃ before text after, source.toList = before ++ (text ++ after) ∧
    t.span = .between (Position.start.past before) (Position.start.past (before ++ text)) ∧
    text ≠ [] ∧ Means text t.kind t.lexeme

theorem Scanner.Decides.ne_nil {text : List Char} {kind : TokenKind} {lexeme : String} (h : Decides text kind lexeme) :
    text ≠ [] := by
  obtain ⟨c, cs, rfl, -⟩ := h
  exact List.cons_ne_nil c cs

section Laid

variable {source : String} {p : Position} {before cs : List Char} {texts : List (List Char)} {ts : Tokens}

theorem offset_start_past (cs : List Char) : (Position.start.past cs).offset = byteLength cs := by
  rw [offset_past]
  exact Nat.zero_add _

theorem past_token (before gap text : List Char) :
    ((Position.start.past before).past gap).past text = .past .start (before ++ gap ++ text) := by
  simp only [past_append]

theorem Scanner.Laid.placed (h : Laid p cs texts ts) (hp : p = .past .start before) (hs : source.toList = before ++ cs) :
    ∀ t ∈ ts.items, t.Placed source := by
  induction h generalizing before with
  | finish => simp
  | @token p gap text rest texts kind lexeme ts hgap ho hd hm hrest ih =>
    subst hp
    rintro t (_ | ⟨_, ht⟩)
    · exact ⟨before ++ gap, text, rest, by rw [hs, List.append_assoc], by simp only [past_append], hd.ne_nil, hm⟩
    · exact ih (past_token before gap text) (by rw [hs]; simp only [List.append_assoc]) t ht

theorem Scanner.Laid.finish_eq (h : Laid p cs texts ts) (hp : p = .past .start before)
    (hs : source.toList = before ++ cs) :
    ts.finish = .between (Position.start.past source.toList) (Position.start.past source.toList) := by
  induction h generalizing before with
  | finish => rw [hs, past_append, ← hp]
  | @token p gap text rest texts kind lexeme ts hgap ho hd hm hrest ih =>
    subst hp
    exact ih (past_token before gap text) (by rw [hs]; simp only [List.append_assoc])

theorem Scanner.Laid.filled (h : Laid p cs texts ts) (hp : p = .past .start before) (hs : source.toList = before ++ cs) :
    FilledFrom source ts.finish (byteLength before) ts.items := by
  have hgap (gap : List Char) : ((Position.start.past before).past gap).offset = byteLength (before ++ gap) := by
    rw [← past_append, offset_start_past]
  induction h generalizing before with
  | @finish p gap hfill =>
    subst hp
    have hlast : source.toList = before ++ (gap ++ []) := by rw [hs, List.append_nil]
    simp only [FilledFrom, Span.between, hgap]
    refine ⟨?_, ?_⟩
    · rw [byteLength_append]
      exact Nat.le_add_right _ _
    · rwa [textBetween_eq hlast]
  | @token p gap text rest texts kind lexeme ts hfill ho hd hm hrest ih =>
    subst hp
    have hrest := ih (past_token before gap text) (by rw [hs]; simp only [List.append_assoc])
      fun gap => by rw [← past_append, offset_start_past]
    simp only [FilledFrom, Span.between, hgap]
    refine ⟨?_, ?_, ?_⟩
    · rw [byteLength_append]
      exact Nat.le_add_right _ _
    · rwa [textBetween_eq hs]
    · rwa [past_token, offset_start_past]

end Laid

section Spans

variable {source : String} {finish : Span} {start : Nat} {items : List Token}

theorem FilledFrom.start_le (h : FilledFrom source finish start items) (hle : ∀ t ∈ items, t.span.first ≤ t.span.last) :
    ∀ s ∈ items.map (·.span) ++ [finish], start ≤ s.first := by
  induction items generalizing start with
  | nil =>
    intro s hs
    obtain rfl := List.mem_singleton.mp hs
    exact h.1
  | cons t items ih =>
    obtain ⟨hstart, -, hrest⟩ := h
    have ht := hle t List.mem_cons_self
    intro s hs
    rcases List.mem_cons.mp hs with rfl | hs
    · exact hstart
    · have := ih hrest (fun u hu => hle u (List.mem_cons_of_mem t hu)) s hs
      omega

theorem FilledFrom.ordered (h : FilledFrom source finish start items) (hle : ∀ t ∈ items, t.span.first ≤ t.span.last) :
    (items.map (·.span) ++ [finish]).Pairwise fun s t => s.last ≤ t.first := by
  induction items generalizing start with
  | nil => exact List.pairwise_singleton _ _
  | cons t items ih =>
    obtain ⟨-, -, hrest⟩ := h
    have hle' : ∀ u ∈ items, u.span.first ≤ u.span.last := fun u hu => hle u (List.mem_cons_of_mem t hu)
    exact .cons (hrest.start_le hle') (ih hrest hle')

theorem boundaries_between {before text after : List Char} (hs : source.toList = before ++ (text ++ after)) :
    let s := Span.between (Position.start.past before) (Position.start.past (before ++ text))
    String.Pos.Raw.Valid source ⟨s.first⟩ ∧ String.Pos.Raw.Valid source ⟨s.last⟩ ∧
      s.line = 1 + (textBetween source 0 s.first).count '\n' := by
  have hline := line_past Position.start before
  have hfirst : source.toList = [] ++ (before ++ (text ++ after)) := hs
  have hbefore := textBetween_eq hfirst
  simp only [Span.between, offset_start_past]
  refine ⟨valid_of_append hs, valid_of_append (by rw [hs, List.append_assoc]), ?_⟩
  rw [hline]
  simp only [List.nil_append, byteLength] at hbefore
  rw [hbefore]
  rfl

end Spans

namespace Tokens

def spans (ts : Tokens) : List Span :=
  ts.items.map (·.span) ++ [ts.finish]

/-- The end of the text stands behind all tokens, at its last byte. -/
structure Partition (source : String) (ts : Tokens) : Prop where
  finish : ts.finish.first = source.utf8ByteSize ∧ ts.finish.last = source.utf8ByteSize
  nonempty : ∀ t ∈ ts.items, t.span.first < t.span.last
  ordered : ts.spans.Pairwise fun s t => s.last ≤ t.first
  boundaries : ∀ s ∈ ts.spans, String.Pos.Raw.Valid source ⟨s.first⟩ ∧ String.Pos.Raw.Valid source ⟨s.last⟩
  texts : ∀ t ∈ ts.items, Means (textBetween source t.span.first t.span.last) t.kind t.lexeme
  filled : FilledFrom source ts.finish 0 ts.items
  lines : ∀ s ∈ ts.spans, s.line = 1 + (textBetween source 0 s.first).count '\n'

end Tokens

theorem byteLength_pos {cs : List Char} (h : cs ≠ []) : 0 < byteLength cs := by
  cases cs with
  | nil => exact (h rfl).elim
  | cons c cs => exact Nat.add_pos_left c.utf8Size_pos _

theorem partition_of_scan {source : String} {ts : Tokens} (h : scan source = .ok ts) : ts.Partition source := by
  obtain ⟨texts, hlaid⟩ := tokens_laid h
  have hstart : Position.start = .past .start [] := rfl
  have hwhole : source.toList = [] ++ source.toList := rfl
  have hplaced := hlaid.placed hstart hwhole
  have hfinish := hlaid.finish_eq hstart hwhole
  have hfilled := hlaid.filled hstart hwhole
  have hnonempty : ∀ t ∈ ts.items, t.span.first < t.span.last := by
    intro t ht
    obtain ⟨before, text, after, hs, hspan, hne, -⟩ := hplaced t ht
    have := byteLength_pos hne
    simp only [hspan, Span.between, offset_start_past, byteLength_append]
    omega
  have hspans : ∀ s ∈ ts.spans, String.Pos.Raw.Valid source ⟨s.first⟩ ∧ String.Pos.Raw.Valid source ⟨s.last⟩ ∧
      s.line = 1 + (textBetween source 0 s.first).count '\n' := by
    intro s hs
    rcases List.mem_append.mp hs with hs | hs
    · obtain ⟨t, ht, rfl⟩ := List.mem_map.mp hs
      obtain ⟨before, text, after, hs, hspan, -, -⟩ := hplaced t ht
      rw [hspan]
      exact boundaries_between hs
    · obtain rfl := List.mem_singleton.mp hs
      rw [hfinish]
      have hend : source.toList = source.toList ++ ([] ++ []) := by simp
      have hbounds := boundaries_between hend
      rwa [List.append_nil] at hbounds
  refine ⟨?_, hnonempty, hfilled.ordered fun t ht => Nat.le_of_lt (hnonempty t ht), fun s hs => ?_, ?_, hfilled,
    fun s hs => (hspans s hs).2.2⟩
  · rw [hfinish]
    simp only [Span.between, offset_start_past, byteLength_toList, and_self]
  · exact ⟨(hspans s hs).1, (hspans s hs).2.1⟩
  · intro t ht
    obtain ⟨before, text, after, hs, hspan, -, hm⟩ := hplaced t ht
    rw [hspan]
    simp only [Span.between, offset_start_past]
    rwa [textBetween_eq hs]

theorem partition_of_scan_commented :
    ∃ ts, scan "/* é\n */ x = 'a\\\nb'; // last" = .ok ts ∧ ts.items.map (·.span.line) = [2, 2, 2, 3] ∧
      ts.Partition "/* é\n */ x = 'a\\\nb'; // last" := by
  have hok : (scan "/* é\n */ x = 'a\\\nb'; // last").toOption.map (·.items.map (·.span.line)) = some [2, 2, 2, 3] := by
    decide +kernel
  cases h : scan "/* é\n */ x = 'a\\\nb'; // last" with
  | error e =>
    rw [h] at hok
    cases hok
  | ok ts =>
    rw [h] at hok
    exact ⟨ts, rfl, Option.some.inj hok, partition_of_scan h⟩

end ScriptEngine
