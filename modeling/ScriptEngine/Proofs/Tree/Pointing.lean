import ScriptEngine.Proofs.Code.Legality
import ScriptEngine.Proofs.Tree.Blame
import ScriptEngine.Proofs.Tree.Reading

namespace ScriptEngine

namespace Grammar

section Lists

variable {α : Type} {R : List Token → α → Prop} {ts : List Token} {as : List α} {a : α}

theorem Sequence.mem (h : Sequence R ts as) (ha : a ∈ as) : ∃ us, us <:+: ts ∧ R us a := by
  induction h with
  | nil => cases ha
  | @cons ts us b bs hb _ ih =>
    rcases List.mem_cons.mp ha with rfl | ha
    · exact ⟨ts, ⟨[], us, rfl⟩, hb⟩
    · obtain ⟨vs, hvs, hR⟩ := ih ha
      exact ⟨vs, hvs.trans (List.suffix_append ts us).isInfix, hR⟩

theorem Separated.mem (h : Separated R ts as) (ha : a ∈ as) : ∃ us, us <:+: ts ∧ R us a := by
  induction h with
  | @one ts b hb =>
    obtain rfl := List.mem_singleton.mp ha
    exact ⟨ts, List.infix_rfl, hb⟩
  | @cons ts us comma b bs hb _ _ ih =>
    rcases List.mem_cons.mp ha with rfl | ha
    · exact ⟨ts, (List.prefix_append ts _).isInfix, hb⟩
    · obtain ⟨vs, hvs, hR⟩ := ih ha
      exact ⟨vs, hvs.trans ⟨ts ++ [comma], [], by simp⟩, hR⟩

theorem Listed.mem (h : Listed R ts as) (ha : a ∈ as) : ∃ us, us <:+: ts ∧ R us a := by
  cases h with
  | none => cases ha
  | some h => exact h.mem ha

theorem Trailing.mem (h : Trailing R ts as) (ha : a ∈ as) : ∃ us, us <:+: ts ∧ R us a := by
  cases h with
  | plain h => exact h.mem ha
  | comma h =>
    obtain ⟨us, hus, hR⟩ := h.mem ha
    exact ⟨us, hus.trans (List.prefix_append _ _).isInfix, hR⟩

end Lists

inductive Derives : List Token → Node → Prop
  | expr {ts : List Token} {x : Expr} : Expression ts x → Derives ts (.expr x)
  | stmt {ts ending : List Token} {x : Stmt} (inFunction : Bool) : Statement ts ending x → Derives ts (.stmt inFunction x)
  | decl {ts : List Token} {x : FunctionDecl} : Function ts x → Derives ts (.decl x)

def Among (ts : List Token) (n : Node) : Prop :=
  ∃ us, us <:+: ts ∧ Derives us n

variable {ts us : List Token} {n c m : Node}

theorem Among.mono (h : Among us n) (hus : us <:+: ts) : Among ts n := by
  obtain ⟨vs, hvs, hn⟩ := h
  exact ⟨vs, hvs.trans hus, hn⟩

theorem Derives.among (h : Derives us n) (before after : List Token) (ht : ts = before ++ us ++ after) : Among ts n :=
  ⟨us, ⟨before, after, ht.symm⟩, h⟩

theorem Item.among {x : Stmt} (h : Item us x) (inFunction : Bool) : Among us (.stmt inFunction x) := by
  cases h with
  | @intro ts ending x h => exact (Derives.stmt inFunction h).among [] ending rfl

theorem Block.among {items : List Stmt} {x : Stmt} (h : Block us items) (hx : x ∈ items) (inFunction : Bool) :
    Among us (.stmt inFunction x) := by
  cases h with
  | @intro ts first last items _ hitems _ =>
    obtain ⟨vs, hvs, hitem⟩ := hitems.mem hx
    exact (hitem.among inFunction).mono (hvs.trans ⟨[first], [last], rfl⟩)

theorem Derives.bounds (h : Derives ts n) : n.span.Bounds ts := by
  cases h with
  | expr h => exact h.bounds
  | stmt _ h => exact h.bounds
  | decl h => exact h.bounds

theorem Expression.child {x : Expr} (h : Expression ts x) (hc : c ∈ (Node.expr x).children) : Among ts c := by
  cases h with
  | number | string | true | false | null | this | name => cases hc
  | function h =>
    obtain rfl := List.mem_singleton.mp hc
    exact (Derives.decl h).among [] [] (by simp)
  | @group ts first last inner s _ h =>
    obtain rfl := List.mem_singleton.mp hc
    exact (Derives.expr h).among [first] [last] rfl
  | @object ts first last entries s _ h =>
    obtain ⟨⟨name, value⟩, hentry, rfl⟩ := List.mem_map.mp hc
    obtain ⟨us, hus, hentry⟩ := h.mem hentry
    cases hentry with
    | @intro vs key colon name value _ _ h =>
      have hvalue : Among (key :: colon :: vs) (.expr value) := (Derives.expr h).among [key, colon] [] (by simp)
      exact hvalue.mono (hus.trans ⟨[first], [last], rfl⟩)
  | @call ts us first last callee args s h _ _ hargs =>
    rcases List.mem_cons.mp hc with rfl | hc
    · exact (Derives.expr h).among [] (first :: us ++ [last]) rfl
    · obtain ⟨arg, harg, rfl⟩ := List.mem_map.mp hc
      obtain ⟨vs, hvs, h⟩ := hargs.mem harg
      exact (Among.mono ⟨vs, List.infix_rfl, .expr h⟩ hvs).mono ⟨ts ++ [first], [last], by simp⟩
  | @index ts us first last target index s h _ _ h' =>
    rcases List.mem_pair.mp hc with rfl | rfl
    · exact (Derives.expr h).among [] (first :: us ++ [last]) rfl
    · exact (Derives.expr h').among (ts ++ [first]) [last] (by simp)
  | @field ts dot last target name s h =>
    obtain rfl := List.mem_singleton.mp hc
    exact (Derives.expr h).among [] [dot, last] rfl
  | @unary ts first op operand s _ h =>
    obtain rfl := List.mem_singleton.mp hc
    exact (Derives.expr h).among [first] [] (by simp)
  | @binary ts us t op left right s h _ _ h' =>
    rcases List.mem_pair.mp hc with rfl | rfl
    · exact (Derives.expr h).among [] (t :: us) rfl
    · exact (Derives.expr h').among (ts ++ [t]) [] (by simp)
  | @logical ts us t op left right s h _ _ h' =>
    rcases List.mem_pair.mp hc with rfl | rfl
    · exact (Derives.expr h).among [] (t :: us) rfl
    · exact (Derives.expr h').among (ts ++ [t]) [] (by simp)
  | @assign ts us t target value s h _ _ h' =>
    rcases List.mem_pair.mp hc with rfl | rfl
    · exact (Derives.expr h).among [] (t :: us) rfl
    · exact (Derives.expr h').among (ts ++ [t]) [] (by simp)

theorem Function.child {x : FunctionDecl} (h : Function ts x) (hc : c ∈ (Node.decl x).children) : Among ts c := by
  obtain ⟨name, params, body, s⟩ := x
  cases h with
  | @intro ns ps bs first parenOpen parenClose _ _ _ _ _ _ hbody =>
    obtain ⟨item, hitem, rfl⟩ := List.mem_map.mp hc
    exact (hbody.among hitem true).mono ⟨first :: ns ++ (parenOpen :: ps ++ [parenClose]), [], by simp⟩

theorem Statement.child {ending : List Token} {x : Stmt} {inFunction : Bool} (h : Statement ts ending x)
    (hc : c ∈ (Node.stmt inFunction x).children) : Among ts c := by
  cases h with
  | @var ts ending first bindings s _ hbindings =>
    obtain ⟨⟨name, value⟩, hbinding, hc⟩ := List.mem_flatMap.mp hc
    obtain ⟨x, hx, rfl⟩ := List.mem_map.mp hc
    obtain ⟨us, hus, hbinding⟩ := hbindings.mem hbinding
    cases hbinding with
    | plain => cases hx
    | @value vs t equals name value _ _ h =>
      obtain rfl := List.mem_singleton.mp hx
      have hvalue : Among (t :: equals :: vs) (.expr x) := (Derives.expr h).among [t, equals] [] (by simp)
      exact hvalue.mono (hus.trans ⟨[first], [], by simp⟩)
  | function h =>
    obtain rfl := List.mem_singleton.mp hc
    exact (Derives.decl h).among [] [] (by simp)
  | expr h =>
    obtain rfl := List.mem_singleton.mp hc
    exact (Derives.expr h).among [] [] (by simp)
  | block h =>
    obtain ⟨item, hitem, rfl⟩ := List.mem_map.mp hc
    exact h.among hitem inFunction
  | @cond ts us ending first parenOpen parenClose test yes s _ _ htest _ hyes =>
    rcases List.mem_pair.mp hc with rfl | rfl
    · exact (Derives.expr htest).among [first, parenOpen] (parenClose :: us) (by simp)
    · exact (Derives.stmt inFunction hyes).among (first :: parenOpen :: ts ++ [parenClose]) [] (by simp)
  | @condElse ts us vs ending first parenOpen parenClose other test yes no s _ _ htest _ hyes _ _ hno =>
    rcases List.mem_cons.mp hc with rfl | hc
    · exact (Derives.expr htest).among [first, parenOpen] (parenClose :: us ++ other :: vs) (by simp)
    rcases List.mem_pair.mp hc with rfl | rfl
    · exact (hyes.among inFunction).mono ⟨first :: parenOpen :: ts ++ [parenClose], other :: vs, by simp⟩
    · refine (Derives.stmt inFunction hno).among (first :: parenOpen :: ts ++ parenClose :: us ++ [other]) [] ?_
      simp
  | @loop ts us ending first parenOpen parenClose test body s _ _ htest _ hbody =>
    rcases List.mem_pair.mp hc with rfl | rfl
    · exact (Derives.expr htest).among [first, parenOpen] (parenClose :: us) (by simp)
    · exact (Derives.stmt inFunction hbody).among (first :: parenOpen :: ts ++ [parenClose]) [] (by simp)
  | returnNothing => cases hc
  | @«return» ts ending first value s _ h =>
    obtain rfl := List.mem_singleton.mp hc
    exact (Derives.expr h).among [first] [] (by simp)
  | @throw ts ending first value s _ h =>
    obtain rfl := List.mem_singleton.mp hc
    exact (Derives.expr h).among [first] [] (by simp)
  | @«try» bs hs first word parenOpen t parenClose body handler name s _ hbody _ _ _ _ hhandler =>
    rcases List.mem_append.mp hc with hc | hc
    · obtain ⟨item, hitem, rfl⟩ := List.mem_map.mp hc
      refine (hbody.among hitem inFunction).mono ⟨[first], word :: parenOpen :: t :: parenClose :: hs, ?_⟩
      simp
    · obtain ⟨item, hitem, rfl⟩ := List.mem_map.mp hc
      refine (hhandler.among hitem inFunction).mono ⟨first :: bs ++ [word, parenOpen, t, parenClose], [], ?_⟩
      simp
  | empty => cases hc

theorem Derives.child (h : Derives ts n) (hc : c ∈ n.children) : Among ts c := by
  cases h with
  | expr h => exact h.child hc
  | stmt _ h => exact h.child hc
  | decl h => exact h.child hc

theorem Among.within (h : Among ts n) (hm : m.Within n) : Among ts m := by
  induction hm with
  | self => exact h
  | deeper _ hc ih =>
    obtain ⟨us, hus, hn⟩ := h
    exact ih ((hn.child hc).mono hus)

end Grammar

theorem Node.place_eq (n : Node) : n.place = n.span ∨ ∃ c ∈ n.children, n.place = c.span := by
  cases n with
  | expr x => cases x with
    | assign target value s => exact .inr ⟨.expr target, List.mem_cons_self, rfl⟩
    | _ => exact .inl rfl
  | stmt => exact .inl rfl
  | decl => exact .inl rfl

theorem Tokens.Partition.bounds_point {source : String} {ts : Tokens} (h : ts.Partition source) {s : Span} {us : List Token}
    (hs : s.Bounds us)
    (hus : us <:+: ts.items) : s.PointsInto source := by
  obtain ⟨first, last, hfirst, hlast, rfl⟩ := hs
  have hmem : ∀ t ∈ us, t.span ∈ ts.spans := fun t ht =>
    List.mem_append_left _ (List.mem_map_of_mem (hus.subset ht))
  have hfirst' := List.mem_of_mem_head? hfirst
  have hlast' := List.mem_of_getLast? hlast
  refine (h.points _ (hmem first hfirst')).through (h.points _ (hmem last hlast')) ?_
  have hnonempty := h.nonempty first (hus.subset hfirst')
  have hnonempty' := h.nonempty last (hus.subset hlast')
  obtain ⟨us', rfl⟩ : ∃ us', us = first :: us' := by
    cases us with
    | nil => cases hfirst
    | cons t us' =>
      cases hfirst
      exact ⟨us', rfl⟩
  have hordered : (first :: us').Pairwise fun t u => t.span.last ≤ u.span.first := by
    have hspans := (List.pairwise_append.mp h.ordered).1
    exact (List.pairwise_map.mp hspans).sublist hus.sublist
  rcases List.mem_cons.mp hlast' with rfl | hlast'
  · exact Nat.le_of_lt hnonempty
  · have := List.rel_of_pairwise_cons hordered hlast'
    omega

/-- A diagnostic tells a span, and this points into the source. -/
def Diagnostic.PointsInto (d : Diagnostic) (source : String) : Prop :=
  ∃ s, d.span = some s ∧ s.PointsInto source

theorem Diagnostic.PointsInto.inFile {d : Diagnostic} {source : String} (h : d.PointsInto source) (name : String) :
    (d.inFile name).PointsInto source :=
  h

theorem points_of_parse_error {source : String} {d : Diagnostic} (h : parse source = .error d) : d.PointsInto source := by
  unfold parse at h
  split at h
  · next e hscan =>
    cases h
    exact ⟨e.span, rfl, points_of_scan_error hscan⟩
  · next ts hscan =>
    split at h
    · next e hparse =>
      cases h
      exact ⟨e.span, rfl, (partition_of_scan hscan).points _ (Tokens.blames hparse)⟩
    · cases h

namespace SyntaxTree

variable {tree : SyntaxTree} {source : String}

theorem place_points (h : parse source = .ok tree.items) {n : Node} (hn : tree.Contains n) : n.place.PointsInto source := by
  obtain ⟨tokens, hscan, hitems⟩ := derives_of_parse h
  obtain ⟨item, hitem, hn⟩ := hn
  obtain ⟨us, hus, hitem⟩ := hitems.mem hitem
  have hspan (m : Node) (hm : m.Within (.stmt false item)) : m.span.PointsInto source := by
    obtain ⟨vs, hvs, hm⟩ := ((hitem.among false).within hm).mono hus
    exact (partition_of_scan hscan).bounds_point hm.bounds hvs
  obtain hplace | ⟨c, hc, hplace⟩ := n.place_eq
  · rw [hplace]
    exact hspan n hn
  · rw [hplace]
    exact hspan c (.trans (.deeper (.self c) hc) hn)

theorem points_of_compile_error (h : parse source = .ok tree.items) {strict : Bool} {d : Diagnostic}
    (hd : tree.compile strict = .error d) : d.PointsInto source ∧ d.file = some tree.name := by
  obtain ⟨n, e, hn, ⟨-, hplace⟩, rfl⟩ := breaks_of_compile hd
  exact ⟨⟨e.span, rfl, hplace ▸ place_points h hn⟩, rfl⟩

end SyntaxTree

theorem diagnostics_point_into_source (source name : String) (strict : Bool) (l : Ledger) :
    (∀ e, scan source = .error e → e.diagnostic.PointsInto source) ∧
      (∀ d, parse source = .error d → d.PointsInto source) ∧
      (∀ d, (SyntaxTree.acquire name source l).1 = .error d → d.PointsInto source ∧ d.file = some name) ∧
      ∀ tree d, (SyntaxTree.acquire name source l).1 = .ok tree → tree.compile strict = .error d →
        d.PointsInto source ∧ d.file = some name := by
  refine ⟨fun e h => ⟨e.span, rfl, points_of_scan_error h⟩, fun d h => points_of_parse_error h, ?_, ?_⟩
  · intro d h
    unfold SyntaxTree.acquire at h
    split at h
    · cases h
    · next d' hparse =>
      cases h
      exact ⟨(points_of_parse_error hparse).inFile name, rfl⟩
  · intro tree d h hd
    unfold SyntaxTree.acquire at h
    split at h
    · next items hparse =>
      cases h
      exact SyntaxTree.points_of_compile_error hparse hd
    · cases h

theorem diagnostics_point_into_source_multibyte :
    (ScanError.diagnostic ⟨.malformedEscape, ⟨5, 15, 1⟩⟩).PointsInto "é = 'ü\\\n\\u12g'" ∧
    ∃ tree d, (SyntaxTree.acquire "lines" "/* é\n */ return" .empty).1 = .ok tree ∧ tree.compile false = .error d ∧
      d.PointsInto "/* é\n */ return" ∧ d.file = some "lines" := by
  constructor
  · have hscan : scan "é = 'ü\\\n\\u12g'" = .error ⟨.malformedEscape, ⟨5, 15, 1⟩⟩ := by decide +kernel
    exact (diagnostics_point_into_source _ "literal" true .empty).1 _ hscan
  · have hread : (SyntaxTree.acquire "lines" "/* é\n */ return" .empty).1.toOption.map
        (fun tree => (tree.compile false).toOption.isSome) = some false := by decide +kernel
    cases htree : (SyntaxTree.acquire "lines" "/* é\n */ return" .empty).1 with
    | error d =>
      rw [htree] at hread
      cases hread
    | ok tree =>
      cases hcompile : tree.compile false with
      | ok unit =>
        rw [htree] at hread
        simp [Except.toOption, hcompile] at hread
      | error d =>
        have hpoints := (diagnostics_point_into_source "/* é\n */ return" "lines" false .empty).2.2.2 tree d htree hcompile
        exact ⟨tree, d, rfl, hcompile, hpoints⟩

end ScriptEngine
