import ScriptEngine.Proofs.Machine.Tower

namespace ScriptEngine

def Slides {α : Type} (l l' : List α) : Prop :=
  l' <+: l ∨ ∃ x, l' = l ++ [x]

namespace Slides

variable {α : Type} {k l l' : List α}

theorem refl (l : List α) : Slides l l := .inl List.prefix_rfl

theorem keeps (h : Slides l l') (hk : k <+: l) (hl : k.length ≤ l'.length) : k <+: l' := by
  rcases h with h | ⟨x, rfl⟩
  · exact List.prefix_of_prefix_length_le hk h hl
  · exact hk.trans (List.prefix_append _ _)

end Slides

namespace CallFrame

inductive Changes (g : CallFrame) (N : Level) (g' : CallFrame) (N' : Level) : Prop
  | slides (hc : Slides N.chain N'.chain) (hh : g'.handlers = g.handlers) (hf : N'.frames = N.frames)
  | opens {h : Handler} {f : ProtectedFrame} (hh : g'.handlers = h :: g.handlers)
      (hf : N'.frames = f :: N.frames) (hc : N'.chain = N.chain) (he : N.chain[f.scopeDepth]? = some f.env)
  | leaves {h : Handler} {f : ProtectedFrame} (hh : g.handlers = h :: g'.handlers)
      (hf : N.frames = f :: N'.frames) (hc : N'.chain = N.chain)
  | resumes {h : Handler} {f : ProtectedFrame} (hh : g.handlers = h :: g'.handlers)
      (hf : N.frames = f :: N'.frames) (hd : f.scopeDepth ≤ N.scopes.length)
      (hc : N'.chain = N.scopes.take f.scopeDepth ++ [f.env])

structure Works (floor : Nat) (g : CallFrame) (N : Level) (g' : CallFrame) (N' : Level) : Prop where
  frame : ∃ next, g' = { g with next, handlers := g'.handlers }
  stack : ∀ i < floor, g.completion ≠ some i → N'.stack[i]? = N.stack[i]?
  places : N'.places = N.places
  changes : g.Changes N g' N'
  below : Layer.below (.frame g') N' = Layer.below (.frame g) N

structure Alters (floor : Nat) (g : CallFrame) (N M : Level) : Prop where
  level : ∃ stack trace, M = { N with stack, trace }
  stack : ∀ i < floor, g.completion ≠ some i → M.stack[i]? = N.stack[i]?
  places : M.places = N.places
  below : Layer.below (.frame g) M = Layer.below (.frame g) N

/-- What a frame refers to can be found on the stack or in the chain of scopes, and so can what its
open try statements go back to. -/
structure Moored (global : Handle) (g : CallFrame) (N : Level) : Prop where
  scope : N.chain[g.savedScope + 1]? = some g.scope
  receiver : ∃ v, N.stack[g.base + 1]? = some v ∧
    g.receiver = if v.isNullish && !g.unit.strict then .object global else v
  tries : ∀ f ∈ N.frames.take g.handlers.length, N.chain[f.scopeDepth]? = some f.env

variable {g g' : CallFrame} {σ : Nat → Shape} {floor : Nat} {s : Shape} {L M N N' : Level}

namespace Sits

theorem base_lt (h : g.Sits σ floor s L M) : g.base + 2 ≤ floor := by
  obtain ⟨argc, hf⟩ := h.call
  omega

theorem completion_ne (h : g.Sits σ floor s L M) {i : Nat} (hi : i < g.base + 2) : g.completion ≠ some i := by
  obtain ⟨argc, hf⟩ := h.call
  rw [h.completion]
  split
  · rename_i hscript
    rw [if_pos hscript] at hf
    simp only [ne_eq, Option.some.injEq]
    omega
  · simp

theorem take_base (h : g.Sits σ floor s L M) {l : List Value}
    (hl : ∀ i < floor, g.completion ≠ some i → l[i]? = M.stack[i]?) : l.take g.base = M.stack.take g.base := by
  have hbase := h.base_lt
  apply List.ext_getElem?
  intro i
  rw [List.getElem?_take, List.getElem?_take]
  split
  · exact hl i (by omega) (h.completion_ne (by omega))
  · rfl

theorem saved_lt (h : g.Sits σ floor s L M) : g.savedScope < M.scopes.length := by
  obtain ⟨cs, -, hcs⟩ := h.scopes
  rw [h.saved, hcs, List.length_append, List.length_cons]
  omega

theorem alters_stack (h : g.Sits σ floor s L M) {l : List Value}
    (hl : ∀ i < floor, g.completion ≠ some i → l[i]? = M.stack[i]?) : g.Alters floor M { M with stack := l } where
  level := ⟨l, M.trace, rfl⟩
  stack := hl
  places := rfl
  below := by
    have ht := h.take_base hl
    simp only [Layer.below, ht]

theorem works_on_stack (h : g.Sits σ floor s L M) {l : List Value} (next : Nat)
    (hl : ∀ i < floor, g.completion ≠ some i → l[i]? = M.stack[i]?) :
    g.Works floor M { g with next } { M with stack := l } :=
  ⟨⟨next, rfl⟩, hl, rfl, .slides (.refl _) rfl rfl, (h.alters_stack hl).below⟩

end Sits

theorem Alters.trans {K : Level} (h : g.Alters floor K N) (h' : g.Alters floor N M) : g.Alters floor K M := by
  obtain ⟨stack, trace, rfl⟩ := h.level
  obtain ⟨stack', trace', rfl⟩ := h'.level
  refine ⟨⟨stack', trace', rfl⟩, ?_, h'.places.trans h.places, h'.below.trans h.below⟩
  intro i hi hc
  rw [h'.stack i hi hc]
  exact h.stack i hi hc

theorem Works.since {n : Nat} (h : g.Works floor M g' N') (ha : g.Alters floor N M) :
    { g with next := n }.Works floor N g' N' := by
  obtain ⟨stack, trace, rfl⟩ := ha.level
  refine ⟨?_, ?_, h.places.trans ha.places, ?_, h.below.trans ha.below⟩
  · obtain ⟨next, hn⟩ := h.frame
    exact ⟨next, hn⟩
  · intro i hi hc
    rw [h.stack i hi hc]
    exact ha.stack i hi hc
  · rcases h.changes with ⟨hc, hh, hf⟩ | ⟨hh, hf, hc, he⟩ | ⟨hh, hf, hc⟩ | ⟨hh, hf, hd, hc⟩
    · exact .slides hc hh hf
    · exact .opens hh hf hc he
    · exact .leaves hh hf hc
    · exact .resumes hh hf hd hc

end CallFrame

theorem Ensures.both {ε σ α : Type} {x : EStateM ε σ α} {Q Q' : α → σ → Prop} {R R' : ε → σ → Prop} {s : σ}
    (h : Ensures x Q R s) (h' : Ensures x Q' R' s) :
    Ensures x (fun a t => Q a t ∧ Q' a t) (fun e t => R e t ∧ R' e t) s := by
  unfold Ensures at h h' ⊢
  split at h <;> simp_all

namespace Engine

variable {e : Engine}

theorem callSite_receiver (argc : Nat) (e : Engine) :
    Ensures (callSite argc) (fun site _ => site.receiver = e.stack[site.base + 1]?.getD .undefined)
      (fun _ _ => True) e := by
  refine .get ?_
  split
  · exact .bind (.fault trivial)
  · refine .bind (.pure ?_)
    split
    · exact .fault trivial
    · exact .pure rfl

theorem enterClosure_receiver (unit : CodeUnit) (env : Handle) (site : CallSite) (e : Engine) :
    Ensures (enterClosure unit env site) (fun frame _ => frame.receiver = e.boundReceiver unit site.receiver)
      (fun _ _ => True) e := by
  refine .get (.bind ((openScope_ensures unit env site.args e).mono ?_ fun _ _ _ => trivial))
  intro scope e₁ _
  refine .get ?_
  have hrest (completion : Option Nat) (e₂ : Engine) : Ensures (do
      enterTrace ⟨unit.name, unit.file, unit.line⟩
      let savedScope := (← get).scopes.size
      modify (enterScope scope)
      return ({ unit, next := 0, receiver := e.boundReceiver unit site.receiver, scope, completion,
                base := site.base, savedScope, handlers := [] } : CallFrame))
      (fun frame _ => frame.receiver = e.boundReceiver unit site.receiver) (fun _ _ => True) e₂ :=
    .bind ((enterTrace_ensures _ e₂).mono (fun _ _ _ => .get (.bind (.modified (.pure rfl)))) fun _ _ _ => trivial)
  by_cases hscript : unit.isScript = true
  · rw [if_pos hscript, ← reset_self e₁]
    exact .bind (.push (hrest _ _) trivial)
  · rw [if_neg hscript]
    exact hrest _ e₁

theorem below_entered {low ops : List Value} {unit : CodeUnit} {scope : Handle} {t : TraceEntry} {new : CallFrame}
    (hs : e.level.stack = low ++ ops) (hb : new.base = low.length) (hv : new.savedScope = e.scopes.size)
    (hh : new.handlers = []) :
    Layer.below (.frame new) (e.entered unit scope t) = { e.level with stack := low } := by
  have hsize : e.scopes.size = e.level.scopes.length := (length_scopes e).symm
  have hloops : (e.entered unit scope t).loops = e.level.loops := rfl
  simp only [Layer.below, entered, hs, hb, hv, hh, hsize, List.append_assoc, List.take_left,
    List.dropLast_concat, List.length_nil, List.drop_zero, List.getElem?_append_right (Nat.le_refl _), Nat.sub_self,
    List.getElem?_cons_zero, Option.getD_some]
  rfl

theorem moored_entered {low ops : List Value} {unit : CodeUnit} {scope : Handle} {t : TraceEntry} {new : CallFrame}
    {receiver : Value} (hs : e.level.stack = low ++ ops) (ho : 2 ≤ ops.length) (hu : new.unit = unit)
    (hb : new.base = low.length) (hv : new.savedScope = e.scopes.size) (hh : new.handlers = [])
    (hscope : new.scope = scope) (hsite : receiver = e.stack[new.base + 1]?.getD .undefined)
    (hr : new.receiver = e.boundReceiver unit receiver) : new.Moored e.global (e.entered unit scope t) := by
  have hlt : new.base + 1 < e.level.stack.length := by
    rw [hb, hs, List.length_append]
    omega
  refine ⟨?_, ⟨receiver, ?_, ?_⟩, by simp [hh]⟩
  · have hsize : e.scopes.size = e.level.scopes.length := (length_scopes e).symm
    simp [Level.chain, entered, hv, hscope, hsize]
  · have hget : e.stack[new.base + 1]? = some receiver := by
      have hlt' : new.base + 1 < e.stack.size := by
        rw [← length_stack]
        exact hlt
      rw [hsite, Array.getElem?_eq_getElem hlt']
      rfl
    rw [← hget]
    show (e.level.stack ++ _)[new.base + 1]? = _
    rw [List.getElem?_append_left hlt]
    exact Array.getElem?_toList
  · rw [hr, hu]
    rfl

end Engine

namespace Loop

open Engine

inductive Acts (floor : Nat) (L : Level) (e : Engine) (g : CallFrame) (cs : List CallFrame) (instr : Option Instr) :
    Signal → Loop → Prop
  | works {g' : CallFrame} {e' : Engine} : g'.handlers <:+ g.handlers →
      g.Works floor e.level g' e'.level → Acts floor L e g cs instr .proceed ⟨e', g' :: cs⟩
  | opens {g' : CallFrame} {c x : Nat} {f : ProtectedFrame} {e' : Engine} : instr = some (.try c x) → e.Opens f →
      f.stackDepth = floor → e'.level.frames = f :: e.level.frames → g'.handlers = ⟨f.id, c, x⟩ :: g.handlers →
      g.Works floor e.level g' e'.level → Acts floor L e g cs instr .proceed ⟨e', g' :: cs⟩
  | enters {g' new : CallFrame} {e' : Engine} : new.handlers = [] → new.Moored e'.global e'.level →
      g'.handlers <:+ g.handlers → g.Works floor e.level g' (Layer.below (.frame new) e'.level) →
      Acts floor L e g cs instr .proceed ⟨e', new :: g' :: cs⟩
  | evaluates {g' : CallFrame} {closure : Value} {base : Nat} {e' : Engine} : g'.handlers <:+ g.handlers →
      g.Works floor e.level g' (Layer.below (.native base) e'.level) →
      Acts floor L e g cs instr (.evaluate closure base) ⟨e', g' :: cs⟩
  | returns {v : Value} {e' : Engine} : cs ≠ [] → e'.level = { L with stack := L.stack ++ [v] } →
      Acts floor L e g cs instr .proceed ⟨e', cs⟩
  | finishes {v : Value} {e' : Engine} {extra : List Value} : cs = [] →
      e'.level = { L with stack := L.stack ++ extra } → Acts floor L e g cs instr (.finished v) ⟨e', cs⟩

inductive Trips (floor : Nat) (L : Level) (e : Engine) (g : CallFrame) (cs : List CallFrame) : Loop → Prop
  | inside {σ : Nat → Shape} {s : Shape} {next : Nat} {e' : Engine} : { g with next }.Sits σ floor s L e'.level →
      g.Alters floor e.level e'.level → Trips floor L e g cs ⟨e', { g with next } :: cs⟩
  | behind {e' : Engine} : e'.level = L → Trips floor L e g cs ⟨e', cs⟩

section Since

variable {floor : Nat} {L : Level} {e₀ e : Engine} {g : CallFrame} {cs : List CallFrame} {next : Nat} {s : Loop}

theorem Acts.since {instr : Option Instr} {signal : Signal} (h : Acts floor L e { g with next } cs instr signal s)
    (ha : g.Alters floor e₀.level e.level) (ho : ∀ f, e.Opens f → e₀.Opens f) :
    Acts floor L e₀ g cs instr signal s := by
  have hframes : e.level.frames = e₀.level.frames := by
    obtain ⟨stack, trace, hl⟩ := ha.level
    rw [hl]
  have ha' : { g with next }.Alters floor e₀.level e.level := ⟨ha.level, ha.stack, ha.places, ha.below⟩
  cases h with
  | works hh hw => exact .works hh (hw.since ha')
  | opens hi hop hd hf hh hw => exact .opens hi (ho _ hop) hd (by rw [hf, hframes]) hh (hw.since ha')
  | enters hn hm hh hw => exact .enters hn hm hh (hw.since ha')
  | evaluates hh hw => exact .evaluates hh (hw.since ha')
  | returns hc hl => exact .returns hc hl
  | finishes hc hl => exact .finishes hc hl

theorem Trips.since (h : Trips floor L e { g with next } cs s) (ha : g.Alters floor e₀.level e.level) :
    Trips floor L e₀ g cs s := by
  cases h with
  | inside hs ha' => exact .inside hs (ha.trans ⟨ha'.level, ha'.stack, ha'.places, ha'.below⟩)
  | behind hl => exact .behind hl

end Since

theorem getElem?_of_low {low l : List Value} {i : Nat} (hp : low <+: l) (hi : i < low.length) (out : List Value) :
    (low ++ out)[i]? = l[i]? := by
  obtain ⟨rest, rfl⟩ := hp
  rw [List.getElem?_append_left hi, List.getElem?_append_left hi]

namespace Faces

variable {L₀ L : Level} {ls : List Layer} {fl : List Nat} {σ : Nat → Shape} {floor : Nat} {s : Shape}
  {e e' : Engine} {frame : CallFrame} {callers : List CallFrame} {instr : Instr} {low : List Value}

theorem works_low (h : Faces L₀ ls fl σ floor s L e frame callers instr) (hp : low <+: e.level.stack)
    (hl : floor ≤ low.length) (out : List Value) (next : Nat) :
    frame.Works floor e.level { frame with next } { e.level with stack := low ++ out } :=
  h.sits.works_on_stack next fun _ hi _ => getElem?_of_low hp (by omega) _

theorem works_settled (h : Faces L₀ ls fl σ floor s L e frame callers instr) (hp : low <+: e.level.stack)
    (hl : floor ≤ low.length) {k : Nat} (he : e.Settles low k e') : frame.Works floor e.level frame e'.level := by
  obtain ⟨out, heap, -, rfl, -⟩ := he
  exact h.works_low hp hl out frame.next

theorem trips_low (h : Faces L₀ ls fl σ floor s L e frame callers instr) (hp : low <+: e.level.stack)
    (hl : floor ≤ low.length) (out : List Value) (he : e'.level = { e.level with stack := low ++ out }) :
    Trips floor L e frame callers ⟨e', frame :: callers⟩ := by
  have hs : frame.Sits σ floor s L e'.level := by
    rw [he]
    exact h.sits.restack hp hl out s rfl rfl
  refine .inside hs ?_
  rw [he]
  exact h.sits.alters_stack fun _ hi _ => getElem?_of_low hp (by omega) _

theorem trips_disturbed (h : Faces L₀ ls fl σ floor s L e frame callers instr) (hp : low <+: e.level.stack)
    (hl : floor ≤ low.length) {error : Error} (he : e.Disturbed low error e') :
    Trips floor L e frame callers ⟨e', frame :: callers⟩ := by
  obtain ⟨-, extra, heap, rfl, -⟩ := he
  exact h.trips_low hp hl extra rfl

theorem trips_same (h : Faces L₀ ls fl σ floor s L e frame callers instr) :
    Trips floor L e frame callers ⟨e, frame :: callers⟩ :=
  .inside h.sits (h.sits.alters_stack fun _ _ _ => rfl)

theorem acts_plain (h : Faces L₀ ls fl σ floor s L e frame callers instr) (hp : instr.isPlain = true)
    (hc : ∀ n, instr ≠ .call n) :
    Ensures (within (simple frame instr) >>= fun _ => Pure.pure .proceed) (Acts floor L e frame callers (some instr))
      (fun _ => Trips floor L e frame callers) ⟨e, frame :: callers⟩ := by
  obtain ⟨a, hn, hf⟩ := h.flows
  obtain ⟨hle, -⟩ := (Instr.flows_of_isPlain hp).mp hf
  obtain ⟨low, ops, he, ho, hpre, hlow⟩ := h.split hle
  have hx := simple_ensures frame e low .refl ho hp hc
  rw [← he] at hx
  refine .bind (.within (hx.mono (fun _ e' hset => .pure ?_) fun error e' hd => ?_))
  · exact .works List.suffix_rfl (h.works_settled hpre (by omega) hset)
  · exact h.trips_disturbed hpre (by omega) hd

theorem acts_closure {i : Nat} (h : Faces L₀ ls fl σ floor s L e frame callers (.closure i)) :
    Ensures (Loop.execute frame callers (.closure i)) (Acts floor L e frame callers (some (.closure i)))
      (fun _ => Trips floor L e frame callers) ⟨e, frame :: callers⟩ := by
  obtain ⟨a, hn, hi, -⟩ := h.flows
  have hx := closure_ensures frame e e.level.stack .refl h.sits.compiled hi
  refine .bind (.within (hx.mono (fun _ e' hset => .pure ?_) fun error e' hd => ?_))
  · exact .works List.suffix_rfl (h.works_settled List.prefix_rfl h.sits.floor_le hset)
  · exact h.trips_disturbed List.prefix_rfl h.sits.floor_le hd

theorem acts_throw (h : Faces L₀ ls fl σ floor s L e frame callers .throw) :
    Ensures (Loop.execute frame callers .throw) (Acts floor L e frame callers (some .throw))
      (fun _ => Trips floor L e frame callers) ⟨e, frame :: callers⟩ := by
  obtain ⟨a, hn, hle⟩ := h.flows
  obtain ⟨low, ops, he, ho, hpre, hlow⟩ := h.split hle
  obtain ⟨v, rfl⟩ := List.length_eq_one_iff.mp ho
  have hx := throw_ensures frame e low (v := v) .refl
  rw [← he] at hx
  refine .bind (.within (hx.mono (fun _ e' hF => hF.elim) fun error e' hd => ?_))
  exact h.trips_disturbed hpre (by omega) hd

theorem acts_setCompletion (h : Faces L₀ ls fl σ floor s L e frame callers .setCompletion) :
    Ensures (Loop.execute frame callers .setCompletion) (Acts floor L e frame callers (some .setCompletion))
      (fun _ => Trips floor L e frame callers) ⟨e, frame :: callers⟩ := by
  obtain ⟨a, hn, hscript, hle, -⟩ := h.flows
  obtain ⟨low, ops, he, ho, hpre, hlow⟩ := h.split hle
  obtain ⟨v, rfl⟩ := List.length_eq_one_iff.mp ho
  have hslot : frame.completion = some (floor - 1) := by
    rw [h.sits.completion, hscript]
    rfl
  have hx := setCompletion_ensures frame e low (h := e.heap) (v := v)
    (R := fun _ e' => Trips floor L e frame callers ⟨e', frame :: callers⟩) hslot
  rw [← he] at hx
  refine .bind (.within (hx.mono (fun _ e' he' => .pure (.works List.suffix_rfl ?_)) fun _ _ ht => ht))
  rw [he', level_reset]
  refine h.sits.works_on_stack frame.next fun i hi hc => ?_
  have hne : floor - 1 ≠ i := fun heq => hc (by rw [hslot, heq])
  obtain ⟨rest, hrest⟩ := hpre
  rw [List.getElem?_set_ne hne, ← hrest, List.getElem?_append_left (by omega)]

theorem acts_enterCatch {name : String} (h : Faces L₀ ls fl σ floor s L e frame callers (.enterCatch name)) :
    Ensures (Loop.execute frame callers (.enterCatch name)) (Acts floor L e frame callers (some (.enterCatch name)))
      (fun _ => Trips floor L e frame callers) ⟨e, frame :: callers⟩ := by
  obtain ⟨a, hn, hle, -⟩ := h.flows
  obtain ⟨low, ops, he, ho, hpre, hlow⟩ := h.split hle
  obtain ⟨v, rfl⟩ := List.length_eq_one_iff.mp ho
  have hx := enterCatch_ensures frame e low name (v := v) .refl
  rw [← he] at hx
  refine .bind (.within (hx.mono (fun _ e' he' => .pure (.works List.suffix_rfl ?_)) fun error e' hd => ?_))
  · obtain ⟨env, heap, -, rfl⟩ := he'
    have hlevel : ((e.reset low heap).enterScope env).level =
        { e.level with stack := low, scopes := e.level.scopes ++ [e.env], env } := by
      simp [level, enterScope, reset]
    have hstack : ∀ i < floor, frame.completion ≠ some i → low[i]? = e.level.stack[i]? := by
      intro i hi _
      have hlow' := getElem?_of_low hpre (show i < low.length by omega) []
      rwa [List.append_nil] at hlow'
    have hsaved := h.sits.saved_lt
    rw [hlevel]
    refine ⟨⟨frame.next, rfl⟩, hstack, rfl, .slides (.inr ⟨env, rfl⟩) rfl rfl, ?_⟩
    simp only [Layer.below, h.sits.take_base hstack, List.take_append_of_le_length (Nat.le_of_lt hsaved),
      List.getElem?_append_left hsaved, List.getElem?_eq_getElem hsaved, Option.getD_some]
  · exact h.trips_disturbed hpre (by omega) hd

theorem acts_exitCatch (h : Faces L₀ ls fl σ floor s L e frame callers .exitCatch) :
    Ensures (Loop.execute frame callers .exitCatch) (Acts floor L e frame callers (some .exitCatch))
      (fun _ => Trips floor L e frame callers) ⟨e, frame :: callers⟩ := by
  obtain ⟨a, hn, hle, -, -⟩ := h.flows
  obtain ⟨cs, hcs, hsc⟩ := h.sits.scopes
  obtain ⟨cs, env, rfl⟩ : ∃ cs' env, cs = cs' ++ [env] := by
    rcases List.eq_nil_or_concat cs with rfl | ⟨cs', env, rfl⟩
    · simp only [List.length_nil] at hcs
      omega
    · exact ⟨cs', env, List.concat_eq_append⟩
  have hlevel : e.leaveScope.level = { e.level with scopes := L.scopes ++ L.env :: cs, env } := by
    have hsc' : e.scopes.toList = (L.scopes ++ L.env :: cs) ++ [env] := by
      simpa [level] using hsc
    have hback : e.scopes.back? = some env := by
      rw [← Array.getLast?_toList, hsc', List.getLast?_concat]
    simp only [leaveScope, hback, level, Array.toList_pop, hsc', List.dropLast_concat]
  refine .bind (.within (.modified (.pure (.works List.suffix_rfl ?_))))
  rw [hlevel]
  refine ⟨⟨frame.next, rfl⟩, fun _ _ _ => rfl, rfl, .slides (.inl ?_) rfl rfl, ?_⟩
  · refine ⟨[e.level.env], ?_⟩
    simp [Level.chain, hsc]
  · simp only [Layer.below, hsc, h.sits.saved, List.take_left, List.getElem?_append_right (Nat.le_refl _), Nat.sub_self,
      List.getElem?_cons_zero, Option.getD_some]

theorem acts_jump {t : Nat} (h : Faces L₀ ls fl σ floor s L e frame callers (.jump t)) :
    Ensures (Loop.execute frame callers (.jump t)) (Acts floor L e frame callers (some (.jump t)))
      (fun _ => Trips floor L e frame callers) ⟨e, frame :: callers⟩ :=
  .bind (.modified (.pure (.works List.suffix_rfl (h.sits.works_on_stack t fun _ _ _ => rfl))))

theorem popped_works (h : Faces L₀ ls fl σ floor s L e frame callers instr) (hle : 1 ≤ s.height) :
    ∃ v e₁, Engine.popped e = .ok v e₁ ∧ Engine.peek e = .ok v e ∧
      ∀ next, frame.Works floor e.level { frame with next } e₁.level := by
  obtain ⟨low, ops, he, ho, hpre, hlow⟩ := h.split hle
  obtain ⟨v, rfl⟩ := List.length_eq_one_iff.mp ho
  have hpop : Engine.popped e = .ok v (e.reset low e.heap) := by
    apply Ensures.eq_ok
    rw [he]
    exact .popped ⟨rfl, rfl⟩
  have hpeek : Engine.peek e = .ok v e := by
    apply Ensures.eq_ok
    rw [he]
    exact .peek ⟨rfl, rfl⟩
  refine ⟨v, e.reset low e.heap, hpop, hpeek, fun next => ?_⟩
  have hw := h.works_low hpre (by omega) [] next
  rwa [List.append_nil] at hw

theorem acts_jumpIfFalse {t : Nat} (h : Faces L₀ ls fl σ floor s L e frame callers (.jumpIfFalse t)) :
    Ensures (Loop.execute frame callers (.jumpIfFalse t)) (Acts floor L e frame callers (some (.jumpIfFalse t)))
      (fun _ => Trips floor L e frame callers) ⟨e, frame :: callers⟩ := by
  obtain ⟨a, hn, hle, -, -⟩ := h.flows
  obtain ⟨v, e₁, hpop, -, hw⟩ := h.popped_works hle
  refine .bind (.within (Ensures.of_ok hpop ?_))
  split
  · exact .bind (.modified (.pure (.works List.suffix_rfl (hw t))))
  · exact .bind (.pure (.pure (.works List.suffix_rfl (hw frame.next))))

theorem acts_jumpIfFalseKeep {t : Nat} (h : Faces L₀ ls fl σ floor s L e frame callers (.jumpIfFalseKeep t)) :
    Ensures (Loop.execute frame callers (.jumpIfFalseKeep t)) (Acts floor L e frame callers (some (.jumpIfFalseKeep t)))
      (fun _ => Trips floor L e frame callers) ⟨e, frame :: callers⟩ := by
  obtain ⟨a, hn, hle, -, -⟩ := h.flows
  obtain ⟨v, e₁, hpop, hpeek, hw⟩ := h.popped_works hle
  refine .bind (.within (Ensures.of_ok hpeek ?_))
  split
  · exact .bind (.bind (.within (Ensures.of_ok hpop (.pure (.pure (.works List.suffix_rfl (hw frame.next)))))))
  · exact .bind (.modified (.pure (.works List.suffix_rfl (h.sits.works_on_stack t fun _ _ _ => rfl))))

theorem acts_jumpIfTrueKeep {t : Nat} (h : Faces L₀ ls fl σ floor s L e frame callers (.jumpIfTrueKeep t)) :
    Ensures (Loop.execute frame callers (.jumpIfTrueKeep t)) (Acts floor L e frame callers (some (.jumpIfTrueKeep t)))
      (fun _ => Trips floor L e frame callers) ⟨e, frame :: callers⟩ := by
  obtain ⟨a, hn, hle, -, -⟩ := h.flows
  obtain ⟨v, e₁, hpop, hpeek, hw⟩ := h.popped_works hle
  refine .bind (.within (Ensures.of_ok hpeek ?_))
  split
  · exact .bind (.modified (.pure (.works List.suffix_rfl (h.sits.works_on_stack t fun _ _ _ => rfl))))
  · exact .bind (.bind (.within (Ensures.of_ok hpop (.pure (.pure (.works List.suffix_rfl (hw frame.next)))))))

theorem acts_try {c x : Nat} (h : Faces L₀ ls fl σ floor s L e frame callers (.try c x)) :
    Ensures (Loop.execute frame callers (.try c x)) (Acts floor L e frame callers (some (.try c x)))
      (fun _ => Trips floor L e frame callers) ⟨e, frame :: callers⟩ := by
  obtain ⟨a, hn, hzero, -, -⟩ := h.flows
  refine .bind (.within ((enterProtected_ensures e).mono ?_ ?_))
  · rintro id e' ⟨f, rfl, ho, rfl⟩
    have hdepth : f.stackDepth = floor := by
      rw [ho.marks.stackDepth, h.height, hzero, Nat.add_zero]
    refine .bind (.modified (.pure (.opens rfl ho hdepth rfl rfl ?_)))
    refine ⟨⟨frame.next, rfl⟩, fun _ _ _ => rfl, rfl, .opens rfl rfl rfl ?_, ?_⟩
    · simp [Level.chain, ho.marks.scopeDepth, ho.marks.env]
    · simp only [Layer.below, level, List.length_cons, List.drop_succ_cons]
  · rintro error e' ⟨-, rfl⟩
    exact h.trips_same

theorem acts_leave (h : Faces L₀ ls fl σ floor s L e frame callers .leave) :
    Ensures (Loop.execute frame callers .leave) (Acts floor L e frame callers (some .leave))
      (fun _ => Trips floor L e frame callers) ⟨e, frame :: callers⟩ := by
  obtain ⟨a, hn, t, ts, hts, -, -, -⟩ := h.flows
  obtain ⟨fs, hfs, hcov⟩ := h.sits.tries
  rw [hts] at hcov
  generalize hhs : frame.handlers = handlers at hcov
  cases hcov with
  | @cons _ _ f hs _ fs hle _ _ _ _ _ hrest =>
    have hframes : e.frames = f :: (fs ++ L.frames) := hfs
    have hleave : leaveProtected f.id e = .ok () { e with frames := fs ++ L.frames } :=
      leaveProtected_top hframes
    simp only [Loop.execute, hhs]
    refine .bind (.modified (.bind (.within (Ensures.of_ok hleave (.bind (.modified (.pure (.works ?_ ?_))))))))
    · rw [hhs]
      exact List.suffix_cons _ _
    · refine ⟨⟨t.exitAt, rfl⟩, fun _ _ _ => rfl, rfl, .leaves hhs hframes rfl, ?_⟩
      simp only [Layer.below, level, hhs, hframes, List.length_cons, List.drop_succ_cons]

end Faces

section Return

variable {L₀ L : Level} {ls : List Layer} {fl : List Nat} {σ : Nat → Shape} {floor : Nat} {s : Shape}
  {e₀ e : Engine} {g frame : CallFrame} {callers : List CallFrame} {instr : Option Instr}

theorem returnFrom_acts (returned : Option Value) (hs : frame.Sits σ floor s L e.level) (frames : List CallFrame) :
    Ensures (returnFrom frame callers returned) (Acts floor L e₀ g callers instr)
      (fun _ => Trips floor L e₀ g callers) ⟨e, frames⟩ := by
  obtain ⟨fs, hfs, hcov⟩ := hs.tries
  have hleave := leaveAll_covered hcov (e := e) hfs
  obtain ⟨above, habove⟩ := hs.stack
  have hlevel : ((cutScopes frame.savedScope { e with frames := L.frames }).leaveTrace).level =
      { L with stack := L.stack ++ above } := by
    obtain ⟨t, ht⟩ := hs.trace
    obtain ⟨cs, -, hsc⟩ := hs.scopes
    have hloops : e.loops = L.loops := hs.loops
    simp only [level] at ht hsc habove
    simp [level, cutScopes, leaveTrace, hs.saved, ht, hsc, ← habove, ← Array.getElem?_toList, hloops]
  refine .bind (.modified (.bind (.within (Ensures.of_ok hleave (.get (.bind (.modified ?_)))))))
  cases callers with
  | nil => exact .pure (.finishes rfl hlevel)
  | cons caller callers =>
    refine .bind (.modified (.bind (.within ?_)))
    have hcut : (cutStack frame.base
        ((cutScopes frame.savedScope { e with frames := L.frames }).leaveTrace)).level = L := by
      rw [level_cutStack, hlevel, hs.base]
      simp
    generalize cutStack frame.base ((cutScopes frame.savedScope { e with frames := L.frames }).leaveTrace) = e₁ at hcut
    rw [← reset_self e₁]
    have hpushed (v : Value) : (e₁.reset (e₁.stack.toList ++ [v]) e₁.heap).level = { L with stack := L.stack ++ [v] } := by
      rw [level_reset, ← hcut]
      rfl
    exact .push (.pure (.returns (by simp) (hpushed _))) (.behind hcut)

end Return

namespace Faces

variable {L₀ L : Level} {ls : List Layer} {fl : List Nat} {σ : Nat → Shape} {floor : Nat} {s : Shape}
  {e : Engine} {frame : CallFrame} {callers : List CallFrame} {instr : Instr}

theorem acts_call {argc : Nat} (h : Faces L₀ ls fl σ floor s L e frame callers (.call argc)) :
    Ensures (Loop.execute frame callers (.call argc)) (Acts floor L e frame callers (some (.call argc)))
      (fun _ => Trips floor L e frame callers) ⟨e, frame :: callers⟩ := by
  obtain ⟨a, hn, hle, -⟩ := h.flows
  obtain ⟨low, ops, he, ho, hpre, hlow⟩ := h.split (n := argc + 2) hle
  have hstack : e.level.stack = low ++ ops := congrArg (fun e => e.level.stack) he
  have hfloor : floor ≤ low.length := by omega
  have hwait : frame.Works floor e.level frame { e.level with stack := low } := by
    have hw := h.works_low hpre hfloor [] frame.next
    rwa [List.append_nil] at hw
  have hcut {e' : Engine} (hk : e.Keeps 1 e') : (e'.cutStack low.length).level = { e.level with stack := low } := by
    rw [level_cutStack, hk.2, hstack]
    simp
  refine .bind (.within (((callSite_ensures hstack ho).both (callSite_receiver argc e)).mono ?_ ?_))
  · rintro ⟨base, receiver, args, callee⟩ e' ⟨⟨rfl, rfl, -⟩, hreceiver⟩
    cases callee with
    | closure unit env =>
      refine .bind (.within (((enterClosure_ensures unit env _ e').both (enterClosure_receiver unit env _ e')).mono ?_ ?_))
      · rintro new e₁ ⟨⟨ha, _, scope, t, hl, hnew⟩, hr⟩
        have hfixed : e₁.global = e'.global := congrArg (·.2.2.2.1) ha.fixed
        refine .bind (.modified (.pure (.enters (by rw [hnew]) ?_ List.suffix_rfl ?_)))
        · rw [hl, hfixed]
          exact moored_entered hstack (by omega) (by rw [hnew]) (by rw [hnew]) (by rw [hnew]) (by rw [hnew])
            (by rw [hnew]) (by rw [hnew]; exact hreceiver) hr
        · rw [hl, below_entered hstack (by rw [hnew]) (by rw [hnew]) (by rw [hnew])]
          exact hwait
      · rintro error e₁ ⟨⟨-, -, extra, hl⟩, -⟩
        refine h.trips_low hpre hfloor (ops ++ extra) ?_
        rw [hl, hstack, List.append_assoc]
    | native f =>
      refine .get ?_
      have hx := callNative_ensures f args e'
      dsimp only
      cases hcall : callNative f args e' with
      | ok result e₁ =>
        have hk := hx.ok hcall
        cases result with
        | value v =>
          refine .bind (.set (.bind (.within ?_)))
          have hc := hcut hk
          generalize e₁.cutStack low.length = e₂ at hc
          rw [← reset_self e₂]
          have hl : e₂.stack.toList = low := congrArg Level.stack hc
          refine .push (.pure (.works List.suffix_rfl ?_)) ?_
          · rw [level_reset, hc, hl]
            exact h.works_low hpre hfloor [v] frame.next
          · refine h.trips_low hpre hfloor [] ?_
            rw [reset_self, hc, List.append_nil]
        | run closure =>
          obtain ⟨-, t, hl⟩ := hk
          refine .bind (.set (.pure (.evaluates List.suffix_rfl ?_)))
          have hbelow : Layer.below (.native low.length) e₁.level = { e'.level with stack := low } := by
            rw [hl]
            simp [Layer.below, hstack]
          rw [hbelow]
          exact hwait
      | error error e₁ =>
        refine .bind (.set (.throw (h.trips_low hpre hfloor [] ?_)))
        rw [hcut (hx.error hcall).2, List.append_nil]
  · rintro error e' ⟨⟨-, rfl⟩, -⟩
    exact h.trips_same

theorem acts (h : Faces L₀ ls fl σ floor s L e frame callers instr) :
    Ensures (Loop.execute frame callers instr) (Acts floor L e frame callers (some instr))
      (fun _ => Trips floor L e frame callers) ⟨e, frame :: callers⟩ := by
  cases instr with
  | call => exact h.acts_call
  | jump => exact h.acts_jump
  | jumpIfFalse => exact h.acts_jumpIfFalse
  | jumpIfFalseKeep => exact h.acts_jumpIfFalseKeep
  | jumpIfTrueKeep => exact h.acts_jumpIfTrueKeep
  | «return» =>
    obtain ⟨a, hn, hle, hscript⟩ := h.flows
    obtain ⟨v, e₁, hpop, -, ha, hs, hh⟩ := h.popped hle
    exact .bind (.within (Ensures.of_ok hpop (returnFrom_acts (some v) hs _)))
  | «try» => exact h.acts_try
  | leave => exact h.acts_leave
  | closure => exact h.acts_closure
  | throw => exact h.acts_throw
  | setCompletion => exact h.acts_setCompletion
  | enterCatch => exact h.acts_enterCatch
  | exitCatch => exact h.acts_exitCatch
  | undefined | null | boolean | number | string | this | getVar | setVar | defineVar | declareVar
  | newObject | initProp | getProp | setProp | getIndex | setIndex | getMethod | pop | negate | not
  | typeof | binary => exact h.acts_plain rfl (by simp)

end Faces

theorem alters_atLine {L : Level} {σ : Nat → Shape} {floor : Nat} {s : Shape} {e : Engine} {frame : CallFrame}
    (hs : frame.Sits σ floor s L e.level) (line : Nat) : frame.Alters floor e.level (e.atLine line).level := by
  have hbelow : Layer.below (.frame frame) (e.atLine line).level = Layer.below (.frame frame) e.level :=
    (sits_atLine hs line).below.trans hs.below.symm
  refine ⟨⟨e.level.stack, (e.atLine line).level.trace, rfl⟩, fun _ _ _ => rfl, ?_, hbelow⟩
  apply List.ext_getElem?
  intro i
  simp only [Level.places, level, atLine, Array.toList_modify, List.getElem?_map, List.getElem?_modify]
  cases e.trace.toList[i]? with
  | none => rfl
  | some t =>
    simp only [Option.map_eq_map, Option.map_some]
    split <;> rfl

theorem step_acts {L₀ L : Level} {ls : List Layer} {fl : List Nat} {σ : Nat → Shape} {floor : Nat} {s : Shape}
    {e : Engine} {frame : CallFrame} {callers : List CallFrame} (hh : e.heap.OnlyCompiled)
    (hst : Stacked L₀ (callers.map .frame ++ ls) fl L) (hs : frame.Sits σ floor s L e.level)
    (hw : frame.Awaits σ floor s 0 e.level) :
    Ensures step (Acts floor L e frame callers frame.unit.code[frame.next]?)
      (fun _ => Trips floor L e frame callers) ⟨e, frame :: callers⟩ := by
  refine .get ?_
  dsimp only
  cases hi : frame.unit.code[frame.next]? with
  | none => exact returnFrom_acts none hs _
  | some instr =>
    have hfaces (e' : Engine) (hs' : frame.Sits σ floor s L e'.level) (hheap : e'.heap = e.heap)
        (hstack : e'.level.stack = e.level.stack) :
        Faces L₀ ls fl σ floor s L e' { frame with next := frame.next + 1 } callers instr := by
      refine ⟨hheap ▸ hh, hst, hs'.goto _, ?_, frame.next, rfl, ?_⟩
      · rw [hstack, hw.height]
      · have hf := hs.shaped.flows frame.next instr hi
        rw [hw.shape] at hf
        exact hf
    dsimp only
    split
    · rename_i line _
      refine .bind (.modified (.bind (.modified ?_)))
      have ha := alters_atLine hs line
      have ho (f : ProtectedFrame) (hf : (e.atLine line).Opens f) : e.Opens f := by
        refine ⟨⟨hf.marks.stackDepth, ?_, hf.marks.scopeDepth, hf.marks.env⟩, hf.serial, hf.heapMark⟩
        rw [hf.marks.traceDepth]
        simp [level, atLine]
      have hx := (hfaces (e.atLine line) (sits_atLine hs line) rfl rfl).acts
      exact hx.mono (fun _ _ h => h.since ha ho) fun _ _ h => h.since ha
    · have ha : frame.Alters floor e.level e.level := hs.alters_stack fun _ _ _ => rfl
      have hx := (hfaces e hs rfl rfl).acts
      exact .bind (.modified (hx.mono (fun _ _ h => h.since ha fun _ hf => hf) fun _ _ h => h.since ha))

end Loop

end ScriptEngine
