import ScriptEngine.Proofs.Engine.Create
import ScriptEngine.Proofs.Host.Passage

namespace ScriptEngine

open Engine Host

variable {κ χ α : Type}

theorem Error.exists_description {error : Error} (h : error.carried? = none) :
    ∃ name message, error.description? = some (name, message) := by
  induction error with
  | reading e => exact ⟨_, _, rfl⟩
  | parsing d => exact ⟨_, _, rfl⟩
  | compiling d => exact ⟨_, _, rfl⟩
  | fault f => exact ⟨_, _, rfl⟩
  | thrown value text => cases h
  | rethrown value inner ih => cases h
  | uncaught inner ih => exact ih h
  | unbalancedScope => exact ⟨_, _, rfl⟩

namespace Heap

/-- The value that an error is thrown as: the one that it carries, or else an error object. -/
def Shows (h : Heap) (error : Error) (v : Value) : Prop :=
  match error.carried? with
  | some w => v = w
  | none => ∃ name message trace a, error.description? = some (name, message) ∧ v = .object a ∧
      h.object? a = some ⟨.error, none,
        [("name", .string name.text), ("message", .string message), ("stack", .string trace)]⟩

theorem object?_collected {h : Heap} {roots : List Handle} {since : Nat} {a : Handle}
    (hu : h.Unnumbered) (ha : h.Reaches roots a) :
    (h.collectSince since roots).2.object? a = h.object? a := by
  simp only [object?, cell?, slot?_collected_of_reaches hu ha, Option.map_map]
  rfl

theorem Shows.collected {h : Heap} {roots : List Handle} {since : Nat} {error : Error} {v : Value}
    (hs : h.Shows error v) (hu : h.Unnumbered) (hv : ∀ a, v = .object a → a ∈ roots) :
    (h.collectSince since roots).2.Shows error v := by
  unfold Shows at hs ⊢
  split
  · rename_i w hw
    simpa [hw] using hs
  · rename_i hw
    simp only [hw] at hs
    obtain ⟨name, message, trace, a, hd, rfl, ho⟩ := hs
    refine ⟨name, message, trace, a, hd, rfl, ?_⟩
    rw [object?_collected hu (.root (hv a rfl))]
    exact ho

end Heap

namespace Engine

variable {e : Engine}

theorem exceptionValue_shows (ht : e.heap.Tidy) (error : Error) :
    (e.exceptionValue error).2.heap.Shows error (e.exceptionValue error).1 := by
  unfold Heap.Shows
  cases hc : error.carried? with
  | some w => simp only [exceptionValue, hc]
  | none =>
    obtain ⟨name, message, hd⟩ := Error.exists_description hc
    simp only [exceptionValue, hc, hd]
    refine ⟨name, message, e.stackTrace, _, rfl, rfl, ?_⟩
    exact Heap.object?_of_slot? (Heap.slot?_alloc_new ht _) rfl

theorem exceptionValue_live (ht : e.heap.Tidy) (error : Error) {a : Handle} {s : Slot}
    (hs : e.heap.slot? a = some s) : (e.exceptionValue error).2.heap.slot? a = some s := by
  simp only [exceptionValue]
  split
  · exact hs
  · split
    · exact Heap.slot?_alloc_of_live ht _ hs
    · exact hs

theorem findFrame_append {f : ProtectedFrame} {F entered : List ProtectedFrame}
    (hne : ∀ g ∈ entered, g.id ≠ f.id) : findFrame f.id (entered ++ f :: F) = some (f, F) := by
  induction entered with
  | nil => exact findFrame_top f F
  | cons g entered ih =>
    rw [List.cons_append, findFrame, if_neg (hne g (.head _))]
    exact ih fun g hg => hne g (.tail _ hg)

theorem Follows.stands {e' : Engine} {f : ProtectedFrame} {F : List ProtectedFrame} (h : e.Follows e')
    (hf : e.level.frames = f :: F) (hs : f.id.serial < e.nextSerial) (hold : ∀ g ∈ F, g.id ≠ f.id)
    {g : ProtectedFrame} (hg : g ∈ e'.level.frames) (hid : g.id = f.id) :
    ∃ entered, e'.level.frames = entered ++ f :: F ∧ ∀ g ∈ entered, g.id ≠ f.id := by
  obtain ⟨entered, kept, hframes, hkept, hall⟩ := h.frames
  have hnew : ∀ g ∈ entered, g.id ≠ f.id := by
    intro g hm heq
    have hle := (hall g hm).1
    rw [heq] at hle
    omega
  rw [hframes] at hg
  rcases List.mem_append.mp hg with hg | hg
  · exact absurd hid (hnew g hg)
  · rw [hf] at hkept
    rcases List.suffix_cons_iff.mp hkept with rfl | hkept
    · exact ⟨entered, hframes, hnew⟩
    · exact absurd hid (hold g (hkept.subset hg))

theorem endProtected_error {id : ScopeId} {r : EStateM.Result Error Engine α} {error : Error} {e' : Engine}
    (h : Engine.endProtected id r = .error error e') :
    ∃ error₀, (stateOf r).unwind id error₀ = (error, e') := by
  cases r with
  | error error₀ e₀ =>
    cases h
    exact ⟨error₀, rfl⟩
  | ok a e₀ =>
    simp only [Engine.endProtected] at h
    cases hl : leaveProtected id e₀ with
    | ok _ e₁ =>
      rw [hl] at h
      cases h
    | error error₁ e₁ =>
      obtain ⟨-, rfl, -⟩ := (leaveProtected_ensures id e₀).error hl
      rw [hl] at h
      cases h
      exact ⟨error₁, rfl⟩

theorem endProtected_ok {id : ScopeId} {r : EStateM.Result Error Engine α} {a : α} {e' : Engine}
    (h : Engine.endProtected id r = .ok a e') :
    ∃ frame frames, (stateOf r).frames = frame :: frames ∧ frame.id = id ∧ e'.frames = frames := by
  cases r with
  | error error₀ e₀ => cases h
  | ok a₀ e₀ =>
    simp only [Engine.endProtected] at h
    cases hl : leaveProtected id e₀ with
    | ok _ e₁ =>
      obtain ⟨frame, frames, hf, hid, rfl⟩ := (leaveProtected_ensures id e₀).ok hl
      rw [hl] at h
      cases h
      exact ⟨frame, frames, hf, hid, rfl⟩
    | error error₁ e₁ =>
      rw [hl] at h
      cases h

structure Swept (e : Engine) (mark : Nat) (e' : Engine) : Prop where
  young : ∀ a s, e'.heap.slot? a = some s → mark ≤ s.born → e'.heap.Reaches e'.roots a
  old : ∀ a s, e.heap.slot? a = some s → s.born < mark → ∃ t, e'.heap.slot? a = some t ∧ t.content = s.content

theorem unwind_open {id : ScopeId} {frame : ProtectedFrame} {frames : List ProtectedFrame} {n : Nat}
    (hf : findFrame id e.frames = some (frame, frames)) (hs : e.heap.Sound n) (hn : n + 2 < 2 ^ 32)
    (error : Error) :
    ∃ v e', e.unwind id error = (error, e') ∧ e'.frames = frames ∧
      e'.stack = (e.stack.shrink frame.stackDepth).push v ∧ e'.heap.Shows error v ∧
      e.Swept frame.heapMark e' := by
  obtain ⟨v, h, hh, hv⟩ := exceptionValue_spec error { e with frames }
  have hshows : h.Shows error v := by
    have hx := exceptionValue_shows (e := { e with frames }) hs.tidy error
    rw [hv] at hx
    exact hx
  have hlive {a : Handle} {s : Slot} (ha : e.heap.slot? a = some s) : h.slot? a = some s := by
    have hx := exceptionValue_live (e := { e with frames }) hs.tidy error ha
    rw [hv] at hx
    exact hx
  have hu : h.Unnumbered := (hs.evolves_zero hh).dated.unnumbered hn
  let back : Engine := restore frame v { e with frames, heap := h }
  refine ⟨v, back.collectSince frame.heapMark, ?_, rfl, rfl, ?_, ⟨?_, ?_⟩⟩
  · simp only [unwind, hf, hv]
    rfl
  · refine hshows.collected hu ?_
    rintro a rfl
    refine List.mem_append_right _ (List.mem_filterMap.mpr ⟨.object a, ?_, rfl⟩)
    simp [back, restore]
  · intro a s ha hb
    exact Heap.reaches_of_kept hu ha hb
  · intro a s ha hb
    exact Option.map_eq_some_iff.mp (Heap.content_collected_of_old (hlive ha) hb)

theorem unwind_absent {id : ScopeId} (hf : findFrame id e.frames = none) (ht : e.heap.Tidy) (error : Error) :
    ∃ v e', e.unwind id error = (.unbalancedScope, e') ∧ e'.stack = e.stack.push v ∧
      e'.heap.Shows .unbalancedScope v := by
  have hshows := exceptionValue_shows ht .unbalancedScope
  obtain ⟨v, h, hh, hv⟩ := exceptionValue_spec .unbalancedScope e
  rw [hv] at hshows
  exact ⟨v, pushThrown v { e with heap := h }, by simp only [unwind, hf, hv], rfl, hshows⟩

end Engine

theorem Host.Reached.settled {handler : κ → Program κ χ Unit} {n : Nat} {h : Host κ χ}
    (hr : Reached handler n h) (hn : n + 1 < 2 ^ 32) : h.engine.Settled n := by
  induction hr with
  | @created flags limits e hc =>
    obtain ⟨htrace, hframes⟩ := create_frames hc
    have hsound : e.heap.Sound 0 :=
      Heap.Sound.evolves_zero ⟨Heap.onlyCompiled_empty, Heap.tidy_empty, Heap.dated_empty⟩ (evolves_create hc)
    refine ⟨hsound, ?_, ?_, ?_⟩
    · show 1 ≤ e.trace.toList.length
      rw [htrace]
      exact Nat.le_refl _
    · intro f hf
      rw [show (ofEngine e : Host κ χ).engine.level.frames = [] from hframes] at hf
      cases hf
    · intro f hf
      rw [show (ofEngine e : Host κ χ).engine.level.frames = [] from hframes] at hf
      cases hf
  | @ran β p fuel n h r _ hrun ih =>
    have hl := p.run_lawful (Program.panics_lawful handler fuel) fuel h r hrun n (ih (by omega)) hn
    exact hl.1.settled
  | @raised error n h _ hframes ih =>
    obtain ⟨v, heap, hh, hv⟩ := exceptionValue_spec error h.engine
    simp only [update, hv]
    exact ((ih hn).leads_pushed hh v).settled

/-- After a failure the instance is back where it was: from the state at the end of the body to the
one in which the failure is handed on. -/
structure Host.Recovers (h body h' : Host κ χ) : Prop where
  frames : h'.engine.frames = h.engine.frames
  trace : h'.engine.trace = h.engine.trace
  scopes : h'.engine.scopes = h.engine.scopes
  env : h'.engine.env = h.engine.env
  swept : body.engine.Swept h.engine.heap.born h'.engine

section Protect

variable {body : Host κ χ → Option (Record κ χ α)} {h h' : Host κ χ} {r : Record κ χ α} {n : Nat}

theorem Host.receive_eq_ok {r : EStateM.Result Error Engine α} {a : α} (hr : h.receive r = .ok a h') :
    r = .ok a h'.engine := by
  cases r with
  | ok b e => cases hr; rfl
  | error error e => cases hr

theorem Host.receive_eq_error {r : EStateM.Result Error Engine α} {error : Error}
    (hr : h.receive r = .error error h') : r = .error error h'.engine := by
  cases r with
  | ok b e => cases hr
  | error error e => cases hr; rfl

def Engine.inScope (e : Engine) (frame : ProtectedFrame) : Engine :=
  { e with frames := frame :: e.frames, nextSerial := e.nextSerial + 1 }

structure Host.Runs (body : Host κ χ → Option (Record κ χ α)) (h : Host κ χ) (n : Nat) (r : Record κ χ α)
    (frame : ProtectedFrame) (b : Record κ χ α) : Prop where
  opens : h.engine.Opens frame
  begun : beginProtected h.engine = .ok frame.id (h.engine.inScope frame)
  ran : body { h with engine := h.engine.inScope frame } = some b
  ended : r.outcome = Host.endProtected frame.id b.outcome
  passes : (h.engine.inScope frame).Passes n b.collections b.low b.host.engine
  fresh : ∀ g ∈ h.engine.frames, g.id ≠ frame.id
  room : n + b.collections + 2 < 2 ^ 32

theorem Host.protect_cases (hb : Lawful body) (hs : h.engine.Settled n) (hp : Host.protect body h = some r)
    (hn : n + r.collections < 2 ^ 32 - 2) :
    (∃ error, r.outcome = .error error (h.update fun e =>
      pushThrown (e.exceptionValue error).1 (e.exceptionValue error).2) ∧ ∀ id e, beginProtected h.engine ≠ .ok id e) ∨
    ∃ frame b, Runs body h n r frame b := by
  simp only [Host.protect] at hp
  split at hp
  · rename_i error e he
    obtain rfl := Option.some.inj hp
    obtain ⟨-, rfl⟩ := (beginProtected_ensures h.engine).error he
    refine .inl ⟨error, rfl, ?_⟩
    intro id e hok
    rw [he] at hok
    cases hok
  · rename_i id e he
    obtain ⟨b, hrun, rfl⟩ := Option.map_eq_some_iff.mp hp
    obtain ⟨frame, rfl, ho, rfl⟩ := (beginProtected_ensures h.engine).ok he
    simp only at hn
    have hshift : h.engine.Shift (h.engine.inScope frame) := .enter frame ho (Nat.lt_succ_self _) rfl
    have hf := hshift.follows hs (Nat.le_succ _)
    have hpass := (hb _ b hrun n (hs.follows hf hs.heap) (by omega)).1
    refine .inr ⟨frame, b, ho, he, hrun, rfl, hpass, ?_, by omega⟩
    intro g hg heq
    have hlt := hs.serials g hg
    rw [heq, ho.serial] at hlt
    omega

theorem Host.Runs.stands {frame : ProtectedFrame} {b : Record κ χ α} (hr : Runs body h n r frame b)
    {g : ProtectedFrame} (hg : g ∈ b.host.engine.frames) (hid : g.id = frame.id) :
    ∃ entered, b.host.engine.frames = entered ++ frame :: h.engine.frames ∧ ∀ g ∈ entered, g.id ≠ frame.id := by
  refine hr.passes.follows.stands rfl ?_ hr.fresh hg hid
  rw [hr.opens.serial]
  exact Nat.lt_succ_self _

theorem Host.Runs.frames_of_ok {frame : ProtectedFrame} {b : Record κ χ α} (hr : Runs body h n r frame b)
    {a : α} (ho : r.outcome = .ok a h') : h'.engine.frames = h.engine.frames := by
  rw [hr.ended] at ho
  obtain ⟨top, frames, hf, hid, hrest⟩ := endProtected_ok (receive_eq_ok ho)
  rw [stateOf_within] at hf
  have hf : b.host.engine.frames = top :: frames := hf
  obtain ⟨entered, hstands, hne⟩ := hr.stands (by rw [hf]; exact .head _) hid
  rw [hf] at hstands
  cases entered with
  | nil => rw [hrest, (List.cons.inj hstands).2]
  | cons g entered =>
    obtain ⟨rfl, -⟩ := List.cons.inj hstands
    exact absurd hid (hne top (.head _))

theorem Host.Runs.findFrame {frame : ProtectedFrame} {b : Record κ χ α} (hr : Runs body h n r frame b)
    (ho : ∃ g ∈ b.host.engine.frames, g.id = frame.id) :
    findFrame frame.id b.host.engine.frames = some (frame, h.engine.frames) := by
  obtain ⟨g, hg, hid⟩ := ho
  obtain ⟨entered, hstands, hne⟩ := hr.stands hg hid
  rw [hstands]
  exact findFrame_append hne

theorem Host.Runs.stack_of_low {frame : ProtectedFrame} {b : Record κ χ α} (hr : Runs body h n r frame b)
    (ho : ∃ g ∈ b.host.engine.frames, g.id = frame.id) (hlow : h.engine.stack.size ≤ b.low) :
    b.host.engine.stack.shrink frame.stackDepth = h.engine.stack := by
  obtain ⟨g, hg, hid⟩ := ho
  obtain ⟨entered, hstands, -⟩ := hr.stands hg hid
  have hstart : Holding h.engine.level.stack (frame :: h.engine.frames) (h.engine.inScope frame) :=
    ⟨List.prefix_rfl, [], rfl, fun _ h => nomatch h⟩
  have hserial : frame.id.serial < (h.engine.inScope frame).nextSerial := by
    rw [hr.opens.serial]
    exact Nat.lt_succ_self _
  have hend := hr.passes.holding _ _ _ hstart hserial (by simpa [level] using hlow) ⟨entered, hstands.symm⟩
  have htake := List.prefix_iff_eq_take.mp hend.stack
  apply Array.toList_inj.mp
  rw [hr.opens.marks.stackDepth]
  simpa [level] using htake.symm

theorem Host.Runs.thrown {frame : ProtectedFrame} {b : Record κ χ α} (hr : Runs body h n r frame b)
    {error : Error} (ho : r.outcome = .error error h') :
    ∃ v, h'.engine.stack.back? = some v ∧ h'.engine.heap.Shows error v ∧
      ((∃ g ∈ b.host.engine.frames, g.id = frame.id) →
        h'.engine.frames = h.engine.frames ∧ b.host.engine.Swept h.engine.heap.born h'.engine ∧
        (h.engine.stack.size ≤ b.low → h'.engine.stack = h.engine.stack.push v)) := by
  have hsound := hr.passes.settled.heap
  rw [hr.ended] at ho
  obtain ⟨error₀, hu⟩ := endProtected_error (receive_eq_error ho)
  rw [stateOf_within] at hu
  have hu : b.host.engine.unwind frame.id error₀ = (error, h'.engine) := hu
  by_cases hopen : ∃ g ∈ b.host.engine.frames, g.id = frame.id
  · obtain ⟨v, e, hu', hframes, hstack, hshows, hswept⟩ := unwind_open (hr.findFrame hopen) hsound hr.room error₀
    obtain ⟨rfl, rfl⟩ := Prod.mk.inj (hu'.symm.trans hu)
    refine ⟨v, by simp [hstack], hshows, fun _ => ⟨hframes, ?_, fun hlow => ?_⟩⟩
    · rw [← hr.opens.heapMark]
      exact hswept
    · rw [hstack, hr.stack_of_low hopen hlow]
  · have hnone : Engine.findFrame frame.id b.host.engine.frames = none := by
      cases hf : Engine.findFrame frame.id b.host.engine.frames with
      | none => rfl
      | some found =>
        obtain ⟨hid, inner, hi⟩ := findFrame_eq_some hf
        exact absurd ⟨found.1, by rw [hi]; exact List.mem_append_right _ (.head _), hid⟩ hopen
    obtain ⟨v, e, hu', hstack, hshows⟩ := unwind_absent hnone hsound.tidy error₀
    obtain ⟨rfl, rfl⟩ := Prod.mk.inj (hu'.symm.trans hu)
    exact ⟨v, by simp [hstack], hshows, fun h => absurd h hopen⟩

end Protect

/-- Whatever a body does in a protected scope, in whatever state the host has brought the instance
to: if it comes to a value, the open scopes are those of before; if it fails, the thrown value is on
top of the stack. If the scope was open at the end of the body that failed, the instance is back
where it was, and the stack is that of before and the thrown value, unless the body went below. -/
theorem Host.protect_holds {handler : κ → Program κ χ Unit} {body : Program κ χ α} {fuel n : Nat}
    {h : Host κ χ} {r : Record κ χ α} (hr : Reached handler n h)
    (hp : Host.protect (body.run (Program.panics handler fuel) fuel) h = some r)
    (hn : n + r.collections < 2 ^ 32 - 2) :
    (∀ a h', r.outcome = .ok a h' → h'.engine.frames = h.engine.frames) ∧
    ∀ error h', r.outcome = .error error h' →
      ∃ v, h'.engine.stack.back? = some v ∧ h'.engine.heap.Shows error v ∧
        ∀ id e b, beginProtected h.engine = .ok id e →
          body.run (Program.panics handler fuel) fuel { h with engine := e } = some b →
          (∃ f ∈ b.host.engine.frames, f.id = id) →
          h.Recovers b.host h' ∧ (h.engine.stack.size ≤ b.low → h'.engine.stack = h.engine.stack.push v) := by
  have hs := hr.settled (by omega)
  have hb := body.run_lawful (Program.panics_lawful handler fuel) fuel
  have hf := (hb.protect h r hp n hs (by omega)).1.follows
  rcases protect_cases hb hs hp hn with ⟨error, ho, hnever⟩ | ⟨frame, b, hruns⟩
  · refine ⟨?_, ?_⟩
    · intro a h' hok
      cases ho.symm.trans hok
    intro error' h' herr
    obtain ⟨rfl, rfl⟩ := EStateM.Result.error.inj (ho.symm.trans herr)
    refine ⟨(h.engine.exceptionValue error).1, by simp [update, pushThrown], ?_, ?_⟩
    · exact exceptionValue_shows hs.heap.tidy error
    · intro id e b hbegin
      exact absurd hbegin (hnever id e)
  · refine ⟨fun a h' hok => hruns.frames_of_ok hok, ?_⟩
    intro error h' herr
    obtain ⟨v, htop, hshows, hback⟩ := hruns.thrown herr
    refine ⟨v, htop, hshows, ?_⟩
    intro id e b' hbegin hrun hopen
    obtain ⟨rfl, rfl⟩ := EStateM.Result.ok.inj (hruns.begun.symm.trans hbegin)
    obtain rfl := Option.some.inj (hruns.ran.symm.trans hrun)
    obtain ⟨hframes, hswept, hstack⟩ := hback hopen
    rw [Record.host, herr] at hf
    exact ⟨⟨hframes, Array.toList_inj.mp hf.trace, Array.toList_inj.mp hf.scopes, hf.env, hswept⟩, hstack⟩

def Program.careless : Program Unit Unit Unit :=
  .act (.operate .enter) fun _ _ =>
  .act (.operate (.push (.boolean true))) fun _ _ =>
  .act (.operate .newObject) fun _ _ =>
  .act (.call .undefined .undefined []) fun answer _ =>
  .done (answer.map fun _ => ())

def Program.quiet (_ : Unit) : Program Unit Unit Unit :=
  .done (.ok ())

theorem Host.protect_holds_of_careless :
    ∃ e id e₁ b r error h' v, create? .none {} = some e ∧ beginProtected e = .ok id e₁ ∧
      Program.careless.run (Program.panics .quiet 20) 20 { (ofEngine e : Host Unit Unit) with engine := e₁ } = some b ∧
      (∃ f ∈ b.host.engine.frames, f.id = id) ∧ e.stack.size ≤ b.low ∧
      Host.protect (Program.careless.run (Program.panics .quiet 20) 20) (ofEngine e) = some r ∧
      0 + r.collections < 2 ^ 32 - 2 ∧ r.outcome = .error error h' ∧
      h'.engine.stack.back? = some v ∧ h'.engine.heap.Shows error v ∧
      (ofEngine e).Recovers b.host h' ∧ h'.engine.stack = e.stack.push v := by
  have hok : (create? .none {}).any (fun e =>
      (valueOf? (beginProtected e)).any fun begun =>
        (Program.careless.run (Program.panics .quiet 20) 20
          { (ofEngine e : Host Unit Unit) with engine := begun.2 }).any fun b =>
        (Host.protect (Program.careless.run (Program.panics .quiet 20) 20) (ofEngine e)).any fun r =>
          b.host.engine.frames.any (·.id = begun.1) && e.stack.size ≤ b.low &&
            0 + r.collections < 2 ^ 32 - 2 && (failureOf? r.outcome).isSome) = true := by decide +kernel
  obtain ⟨e, he, hl⟩ := (Option.any_eq_true _ _).mp hok
  obtain ⟨⟨id, e₁⟩, hbegun, hl⟩ := (Option.any_eq_true _ _).mp hl
  obtain ⟨b, hb, hl⟩ := (Option.any_eq_true _ _).mp hl
  obtain ⟨r, hr, hl⟩ := (Option.any_eq_true _ _).mp hl
  simp only [Bool.and_eq_true, List.any_eq_true, decide_eq_true_eq] at hl
  obtain ⟨⟨⟨hopen, hlow⟩, hn⟩, hout⟩ := hl
  obtain ⟨⟨error, h'⟩, hfail⟩ := Option.isSome_iff_exists.mp hout
  have hbegin := eq_ok_of_valueOf? hbegun
  have ho := eq_error_of_failureOf? hfail
  obtain ⟨v, htop, hshows, hback⟩ := (protect_holds (.created he) hr hn).2 error h' ho
  obtain ⟨hrec, hstack⟩ := hback id e₁ b hbegin hb hopen
  exact ⟨e, id, e₁, b, r, error, h', v, he, hbegin, hb, hopen, hlow, hr, hn, ho, htop, hshows, hrec, hstack hlow⟩

end ScriptEngine
