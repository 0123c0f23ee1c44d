import ScriptEngine.Proofs.Token.Partition

namespace ScriptEngine

open Position Scanner

/-- The span covers a piece of the text, from one boundary of characters to another, and knows the line
that the piece begins on. -/
structure Span.PointsInto (s : Span) (source : String) : Prop where
  ordered : s.first ≤ s.last
  within : s.last ≤ source.utf8ByteSize
  first : String.Pos.Raw.Valid source ⟨s.first⟩
  last : String.Pos.Raw.Valid source ⟨s.last⟩
  line : s.line = 1 + (textBetween source 0 s.first).count '\n'

namespace Span

variable {source : String} {s t : Span}

theorem PointsInto.through (hs : s.PointsInto source) (ht : t.PointsInto source) (h : s.first ≤ t.last) :
    (s.through t).PointsInto source :=
  ⟨h, ht.within, hs.first, ht.last, hs.line⟩

theorem pointsInto_between {before text after : List Char} (hs : source.toList = before ++ (text ++ after)) :
    (between (Position.start.past before) (Position.start.past (before ++ text))).PointsInto source := by
  have hlength : source.utf8ByteSize = byteLength before + (byteLength text + byteLength after) := by
    rw [← byteLength_toList, hs, byteLength_append, byteLength_append]
  obtain ⟨hfirst, hlast, hline⟩ := boundaries_between hs
  refine ⟨?_, ?_, hfirst, hlast, hline⟩
  all_goals
    simp only [between, offset_start_past, byteLength_append]
    omega

end Span

namespace Scanner

variable {source : String} {p : Position} {before cs : List Char}

def Gap.Behind (before : List Char) : Gap → Prop
  | .blank | .line => True
  | .block opened => ∃ earlier text, before = earlier ++ text ∧ opened = .past .start earlier

theorem Gap.Behind.push {g : Gap} (h : g.Behind before) (text : List Char) : g.Behind (before ++ text) := by
  cases g with
  | blank | line => trivial
  | block opened =>
    obtain ⟨earlier, passed, rfl, hopened⟩ := h
    exact ⟨earlier, passed ++ text, List.append_assoc .., hopened⟩

theorem past_before (hp : p = .past .start before) (text : List Char) : p.past text = .past .start (before ++ text) := by
  rw [hp, past_append]

theorem skip_points {g : Gap} {e : ScanError} (h : skip g p cs = .error e) (hg : g.Behind before)
    (hp : p = .past .start before) (hs : source.toList = before ++ cs) : e.span.PointsInto source := by
  fun_induction skip g p cs generalizing before with
  | case1 p cs ih => exact ih h trivial (past_before hp ['/', '/']) (by simpa using hs)
  | case2 p cs ih => exact ih h ⟨before, ['/', '*'], rfl, hp⟩ (past_before hp ['/', '*']) (by simpa using hs)
  | case3 p c cs _ _ hc ih => exact ih h trivial (past_before hp [c]) (by simpa using hs)
  | case4 => cases h
  | case5 p c cs ih =>
    refine ih h ?_ (past_before hp [c]) (by simpa using hs)
    split <;> trivial
  | case6 opened p cs ih => exact ih h trivial (past_before hp ['*', '/']) (by simpa using hs)
  | case7 opened p c cs _ ih => exact ih h (hg.push [c]) (past_before hp [c]) (by simpa using hs)
  | case8 opened p =>
    -- The comment goes on to the end of the text.
    cases h
    obtain ⟨earlier, text, rfl, rfl⟩ := hg
    have hwhole : source.toList = earlier ++ (text ++ []) := by rw [hs, List.append_assoc]
    rw [hp]
    exact Span.pointsInto_between hwhole
  | case9 => cases h

theorem piece_spoils {c : Char} {s : Spoilt} (h : piece c cs = .error s) : s.taken <+: c :: cs := by
  rw [piece] at h
  split at h
  · cases h
  · split at h
    · cases h
    · split at h
      · simp only at h
        split at h
        · cases h
        · cases h
          exact ⟨_, (quoted_of c .plain cs).push c⟩
      · split at h <;> cases h

theorem map_eq_error {ε α β : Type} {x : Except ε α} {f : α → β} {e : ε} (h : x.map f = .error e) : x = .error e := by
  cases x with
  | error _ => exact congrArg _ (Except.error.inj h)
  | ok _ => cases h

theorem tokens_points {e : ScanError} (h : tokens p cs = .error e) (hp : p = .past .start before)
    (hs : source.toList = before ++ cs) : e.span.PointsInto source := by
  fun_induction tokens p cs generalizing before with
  | case1 p cs e' hskip =>
    cases h
    exact skip_points hskip trivial hp hs
  | case2 => cases h
  | case3 p cs q c ds hskip s hpiece =>
    cases h
    obtain ⟨gap, rfl, rfl, -⟩ := skip_fills hskip
    obtain ⟨after, hafter⟩ := piece_spoils hpiece
    rw [← hafter, ← List.append_assoc] at hs
    rw [hp, ← past_append, ← past_append]
    exact Span.pointsInto_between hs
  | case4 p cs q c ds hskip t hpiece r =>
    rename_i ih
    obtain ⟨gap, rfl, rfl, -⟩ := skip_fills hskip
    subst hp
    refine ih (map_eq_error h) (past_token before gap t.cut.taken) ?_
    rw [hs, List.append_assoc, List.append_assoc, (piece_of hpiece).1]

end Scanner

theorem points_of_scan_error {source : String} {e : ScanError} (h : scan source = .error e) :
    e.span.PointsInto source := by
  have hwhole : source.toList = [] ++ source.toList := rfl
  exact tokens_points h rfl hwhole

namespace Tokens.Partition

variable {source : String} {ts : Tokens}

theorem points (h : ts.Partition source) : ∀ s ∈ ts.spans, s.PointsInto source := by
  have hend : ∀ s ∈ ts.spans, s.first ≤ s.last ∧ s.last ≤ source.utf8ByteSize := by
    intro s hs
    obtain ⟨hfinish, hlast⟩ := h.finish
    rcases List.mem_append.mp hs with hs | hs
    · have hbefore := (List.pairwise_append.mp h.ordered).2.2 s hs ts.finish (List.mem_singleton_self _)
      obtain ⟨t, ht, rfl⟩ := List.mem_map.mp hs
      have := h.nonempty t ht
      omega
    · obtain rfl := List.mem_singleton.mp hs
      omega
  intro s hs
  obtain ⟨hfirst, hlast⟩ := h.boundaries s hs
  exact ⟨(hend s hs).1, (hend s hs).2, hfirst, hlast, h.lines s hs⟩

end Tokens.Partition

end ScriptEngine
