import ScriptEngine.Proofs.Host.Delivery
import ScriptEngine.Proofs.Host.Entry

namespace ScriptEngine

open Engine Host

variable {κ χ α : Type}

namespace Program

def rethrowing : Except Error α → Host κ χ → Program κ χ α
  | .ok a, _ => .done (.ok a)
  | .error error, _ =>
    .act (.rethrow error) fun answer _ =>
      match answer with
      | .ok (.error raised) => .done (.error raised)
      | _ => .done (.error error)

def guarded (body : Program κ χ α) : Nat → Program κ χ α
  | 0 => body
  | n + 1 => .protect (guarded body n) rethrowing

end Program

namespace Host

variable {panics : Panics κ χ} {h h' : Host κ χ} {error : Error} {v : Value} {m n fuel : Nat}

def inside : Nat → Host κ χ → Host κ χ
  | 0, h => h
  | n + 1, h =>
    match beginProtected h.engine with
    | .ok _ engine => inside n { h with engine }
    | .error _ engine => { h with engine }

theorem begun_of_room (hroom : h.engine.frames.length < h.engine.limits.tryLimit) :
    ∃ frame : ProtectedFrame, h.engine.Opens frame ∧ beginProtected h.engine = .ok frame.id (h.engine.inScope frame) := by
  have hnot : ¬ h.engine.limits.tryLimit ≤ h.engine.frames.length := by omega
  have hen : ∃ id e', enterProtected h.engine = .ok id e' := by
    rw [enterProtected_eq, if_neg hnot]
    exact ⟨_, _, rfl⟩
  obtain ⟨id, e', hen⟩ := hen
  have hb : beginProtected h.engine = .ok id e' := by simp only [beginProtected, hen]
  obtain ⟨frame, rfl, ho, rfl⟩ := (beginProtected_ensures h.engine).ok hb
  exact ⟨frame, ho, hb⟩

theorem settled_inScope {e : Engine} {frame : ProtectedFrame} (hs : e.Settled m) (ho : e.Opens frame) :
    (e.inScope frame).Settled m := by
  have hshift : e.Shift (e.inScope frame) := .enter frame ho (Nat.lt_succ_self _) rfl
  exact hs.follows (hshift.follows hs (Nat.le_succ _)) hs.heap

theorem rethrow_open (handlers : Handlers κ χ) (error : Error) (hf : h.engine.frames ≠ [])
    (hv : h.engine.stack.back? = some v) :
    rethrow handlers error h =
      some (error.carrying v, { h with engine := { h.engine with stack := h.engine.stack.pop } }) := by
  have hopen : h.engine.frames.isEmpty = false := List.isEmpty_eq_false_iff.mpr hf
  simp only [rethrow, carry, hv, throw, hopen]
  rfl

theorem rethrowCollections_open (panics : Panics κ χ) (error : Error) (hf : h.engine.frames ≠ []) :
    (Action.rethrow error : Action κ χ).collections panics fuel h = 0 := by
  have hopen : h.engine.frames.isEmpty = false := List.isEmpty_eq_false_iff.mpr hf
  simp only [Action.collections, carry_engine, throwCollections, hopen]
  rfl

theorem guarded_run {body : Program κ χ α} {r : Record κ χ α}
    (hp : Host.protect ((body.guarded n).run panics fuel) h = some r) (ho : r.outcome = .error error h')
    (hf : h'.engine.frames ≠ []) (hv : h'.engine.stack.back? = some v) :
    ∃ r', (body.guarded (n + 1)).run panics fuel h = some r' ∧ r'.collections = r.collections ∧
      r'.outcome = .error (error.carrying v) { h' with engine := { h'.engine with stack := h'.engine.stack.pop } } := by
  have haction : (Action.rethrow error : Action κ χ).perform panics.handlers fuel h' = some (.ok (.error (error.carrying v))
      { h' with engine := { h'.engine with stack := h'.engine.stack.pop } }) := by
    simp only [Action.perform, rethrow_open panics.handlers error hf hv, Option.map_some]
  simp only [Program.guarded, Program.run, hp, Option.bind_some, ho, Record.host_of_error ho, answerOf, Program.rethrowing, haction,
    stateOf, rethrowCollections_open panics error hf, Option.map_some]
  exact ⟨_, rfl, rfl, rfl⟩

theorem findFrame_of_follows {e e' : Engine} {frame : ProtectedFrame} (hs : e.Settled m) (ho : e.Opens frame)
    (hf : (e.inScope frame).Follows e') (hopen : ∃ f ∈ e'.frames, f.id = frame.id) :
    findFrame frame.id e'.frames = some (frame, e.frames) := by
  obtain ⟨g, hg, hid⟩ := hopen
  have hserial : frame.id.serial < (e.inScope frame).nextSerial := by
    rw [ho.serial]
    exact Nat.lt_succ_self _
  have hfresh : ∀ g ∈ e.frames, g.id ≠ frame.id := by
    intro g hg heq
    have hlt := hs.serials g hg
    rw [heq, ho.serial] at hlt
    exact Nat.lt_irrefl _ hlt
  obtain ⟨entered, hstands, hne⟩ := hf.stands rfl hserial hfresh hg hid
  rw [show e'.frames = _ from hstands]
  exact findFrame_append hne

theorem protect_of_failed {body : Host κ χ → Option (Record κ χ α)} {b : Record κ χ α} {frame : ProtectedFrame}
    {frames : List ProtectedFrame} {hb : Host κ χ}
    (hbegin : beginProtected h.engine = .ok frame.id (h.engine.inScope frame))
    (hrun : body { h with engine := h.engine.inScope frame } = some b) (ho : b.outcome = .error error hb)
    (hf : findFrame frame.id hb.engine.frames = some (frame, frames)) (hs : hb.engine.heap.Sound m)
    (hn : m + 2 < 2 ^ 32) :
    ∃ r e' v, Host.protect body h = some r ∧ hb.engine.unwind frame.id error = (error, e') ∧
      r.outcome = .error error { hb with engine := e' } ∧ r.collections = b.collections + 1 ∧ e'.frames = frames ∧
      hb.engine.Delivers error v e' := by
  obtain ⟨v, e', hu, hframes, hd, hone⟩ := unwind_delivers hf hs hn error
  have hend : Host.endProtected frame.id b.outcome = .error error { hb with engine := e' } := by
    simp only [ho, Host.endProtected, within, stateOf, Engine.endProtected, hu, receive]
  simp only [Host.protect, hbegin, hrun, Option.map_some, hend, Record.host_of_error ho, stateOf, hone]
  exact ⟨_, e', v, rfl, hu, rfl, rfl, hframes, hd⟩

theorem protect_guarded (hp : panics.Lawful) {body : Program κ χ α} {b : Record κ χ α} {hb : Host κ χ} {id : ScopeId}
    (hs : h.engine.Settled m) (hroom : h.engine.frames.length + n + 1 ≤ h.engine.limits.tryLimit)
    (hrun : body.run panics fuel (h.inside (n + 1)) = some b) (ho : b.outcome = .error error hb)
    (hid : (h.inside (n + 1)).engine.frames.head?.map (·.id) = some id)
    (hopen : ∃ f ∈ hb.engine.frames, f.id = id) (hn : m + b.collections + (n + 1) < 2 ^ 32 - 2) :
    ∃ r error' h' v, Host.protect ((body.guarded n).run panics fuel) h = some r ∧ r.outcome = .error error' h' ∧
      r.collections = b.collections + (n + 1) ∧ h'.engine.frames = h.engine.frames ∧
      error.Recasts error' ∧
      hb.engine.Delivers error v (hb.engine.unwind id error).2 ∧ hb.engine.Delivers error v h'.engine ∧
      (hb.engine.unwind id error).2.heap.Retains v h'.engine.heap := by
  induction n generalizing h with
  | zero =>
    obtain ⟨frame, hopens, hbegin⟩ := begun_of_room (h := h) (by omega)
    simp only [inside, hbegin] at hrun hid
    obtain rfl : frame.id = id := Option.some.inj hid
    have hpass := (body.run_lawful hp fuel _ b hrun m (settled_inScope hs hopens) (by omega)).1
    rw [Record.host_of_error ho] at hpass
    have hfound := findFrame_of_follows hs hopens hpass.follows hopen
    obtain ⟨r, e', v, hprotect, hu, hout, hcollections, hframes, hd⟩ :=
      protect_of_failed hbegin hrun ho hfound hpass.settled.heap (by omega)
    rw [hu]
    exact ⟨r, error, _, v, hprotect, hout, hcollections, hframes, .refl _, hd, hd, .refl _ _⟩
  | succ n ih =>
    obtain ⟨frame, hopens, hbegin⟩ := begun_of_room (h := h) (by omega)
    rw [inside, hbegin] at hrun hid
    have hs₁ := settled_inScope hs hopens
    obtain ⟨r₁, error₁, h₁, v, hprotect₁, ho₁, hcollections₁, hframes₁, hcause, hinner, hd₁, hr₁⟩ :=
      ih (h := { h with engine := h.engine.inScope frame }) hs₁
        (by simp only [inScope, List.length_cons]; omega) hrun hid (by omega)
    have hne : h₁.engine.frames ≠ [] := by
      rw [hframes₁]
      exact List.cons_ne_nil _ _
    obtain ⟨r₂, hrun₂, hcollections₂, ho₂⟩ := guarded_run hprotect₁ ho₁ hne hd₁.top
    have hpass := ((body.guarded n).run_lawful hp fuel).protect _ r₁ hprotect₁ m hs₁ (by omega)
    rw [Record.host_of_error ho₁] at hpass
    have hfound : findFrame frame.id h₁.engine.frames = some (frame, h.engine.frames) := by
      rw [hframes₁]
      exact findFrame_top frame h.engine.frames
    obtain ⟨r, e', w, hprotect, -, hout, hcollections, hframes, hd⟩ :=
      protect_of_failed hbegin hrun₂ ho₂ hfound hpass.1.settled.heap (by omega)
    obtain ⟨rfl, hborn, hr⟩ := hd.carried v (Error.carried?_carrying v error₁)
    refine ⟨r, _, _, w, hprotect, hout, by omega, hframes, hcause.trans (.carrying error₁ w),
      hinner, hd₁.handed hd.top hborn hr, hr₁.trans hr⟩

theorem throw_root {handlers : Handlers κ χ} {raised : Error} (ht : throw handlers error h = some (raised, h')) :
    raised.root = error.root := by
  simp only [throw] at ht
  split at ht
  · obtain ⟨rfl, -⟩ := Prod.mk.inj (Option.some.inj ht)
    rfl
  · obtain ⟨after, -, hpair⟩ := Option.map_eq_some_iff.mp ht
    obtain ⟨rfl, -⟩ := Prod.mk.inj hpair
    rfl

theorem rethrow_root {handlers : Handlers κ χ} {raised : Error} (hr : rethrow handlers error h = some (raised, h')) :
    raised.root = error.root := by
  have hcarry : (h.engine.carry error).1.root = error.root := by
    unfold carry
    split
    · exact Error.root_carrying _ _
    · rfl
  exact (throw_root hr).trans hcarry

theorem unwind_unbalanced {e : Engine} {id : ScopeId}
    (h : error.root = .unbalancedScope ∨ ∀ g ∈ e.frames, g.id ≠ id) : (e.unwind id error).1.root = .unbalancedScope := by
  unfold unwind
  split
  · rfl
  · rename_i frame frames hf
    rcases h with hroot | hclosed
    · exact hroot
    · obtain ⟨hid, inner, hframes⟩ := findFrame_eq_some hf
      have hmem : frame ∈ e.frames := by simp [hframes]
      exact absurd hid (hclosed frame hmem)

theorem protect_ran {body : Host κ χ → Option (Record κ χ α)} {r : Record κ χ α} {id : ScopeId} {e : Engine}
    (hbegin : beginProtected h.engine = .ok id e) (hp : Host.protect body h = some r) :
    ∃ b, body { h with engine := e } = some b := by
  simp only [Host.protect, hbegin] at hp
  obtain ⟨b, hb, -⟩ := Option.map_eq_some_iff.mp hp
  exact ⟨b, hb⟩

theorem protect_failed {body : Host κ χ → Option (Record κ χ α)} {b r : Record κ χ α} {hb : Host κ χ} {id : ScopeId}
    {e : Engine} (hbegin : beginProtected h.engine = .ok id e) (hbody : body { h with engine := e } = some b)
    (ho : b.outcome = .error error hb) (hp : Host.protect body h = some r) :
    r.outcome = .error (hb.engine.unwind id error).1 { hb with engine := (hb.engine.unwind id error).2 } := by
  simp only [Host.protect, hbegin, hbody, Option.map_some, ho, Host.endProtected, within, stateOf, Engine.endProtected,
    receive] at hp
  obtain rfl := Option.some.inj hp
  rfl

theorem rethrowing_failed {b r : Record κ χ α} (ho : b.outcome = .error error h')
    (hrest : ((Program.rethrowing (answerOf b.outcome) b.host).run panics fuel b.host).map (·.since b.collections b.low) =
      some r) : ∃ raised h'', r.outcome = .error raised h'' ∧ raised.root = error.root := by
  rw [ho, Record.host_of_error ho] at hrest
  obtain ⟨r', hrun, rfl⟩ := Option.map_eq_some_iff.mp hrest
  obtain ⟨outcome, hperform, hdone⟩ := Option.bind_eq_some_iff.mp hrun
  obtain ⟨⟨raised, h''⟩, hraised, rfl⟩ := Option.map_eq_some_iff.mp hperform
  obtain ⟨last, hlast, rfl⟩ := Option.map_eq_some_iff.mp hdone
  obtain rfl := Option.some.inj hlast
  exact ⟨raised, h'', rfl, rethrow_root hraised⟩

theorem guarded_unbalanced {body : Program κ χ α} {b r : Record κ χ α} {hb : Host κ χ} {id : ScopeId}
    (hroom : h.engine.frames.length + n + 1 ≤ h.engine.limits.tryLimit)
    (hrun : body.run panics fuel (h.inside (n + 1)) = some b) (ho : b.outcome = .error error hb)
    (hid : (h.inside (n + 1)).engine.frames.head?.map (·.id) = some id) (hclosed : ∀ g ∈ hb.engine.frames, g.id ≠ id)
    (hp : Host.protect ((body.guarded n).run panics fuel) h = some r) :
    ∃ error' h', r.outcome = .error error' h' ∧ error'.root = .unbalancedScope := by
  induction n generalizing h r with
  | zero =>
    obtain ⟨frame, -, hbegin⟩ := begun_of_room (h := h) (by omega)
    simp only [inside, hbegin] at hrun hid
    obtain rfl : frame.id = id := Option.some.inj hid
    exact ⟨_, _, protect_failed hbegin hrun ho hp, unwind_unbalanced (.inr hclosed)⟩
  | succ n ih =>
    obtain ⟨frame, -, hbegin⟩ := begun_of_room (h := h) (by omega)
    rw [inside, hbegin] at hrun hid
    obtain ⟨r₂, hrun₂⟩ := protect_ran hbegin hp
    obtain ⟨r₁, hprotect₁, hrest⟩ := Option.bind_eq_some_iff.mp hrun₂
    obtain ⟨error₁, h₁, ho₁, hroot₁⟩ := ih (h := { h with engine := h.engine.inScope frame })
      (by simp only [inScope, List.length_cons]; omega) hrun hid hprotect₁
    obtain ⟨raised, h₂, ho₂, hroot₂⟩ := rethrowing_failed ho₁ hrest
    exact ⟨_, _, protect_failed hbegin hrun₂ ho₂ hp, unwind_unbalanced (.inl (hroot₂.trans hroot₁))⟩

/-- A body that fails inside so many scopes, of which `scope` is the innermost one. -/
structure Failing (panics : Panics κ χ) (fuel n : Nat) (h : Host κ χ) (α : Type) where
  body : Program κ χ α
  record : Record κ χ α
  error : Error
  host : Host κ χ
  scope : ScopeId
  ran : body.run panics fuel (h.inside (n + 1)) = some record
  failed : record.outcome = .error error host
  innermost : (h.inside (n + 1)).engine.frames.head?.map (·.id) = some scope

namespace Failing

variable (f : Failing panics fuel n h α)

def Open : Prop :=
  ∃ g ∈ f.host.engine.frames, g.id = f.scope

def Live : Prop :=
  ∀ a, f.error.carried? = some (.object a) → ∃ s, f.host.engine.heap.slot? a = some s

def resumed : Engine :=
  (f.host.engine.unwind f.scope f.error).2

def outermost : Option (Record κ χ α) :=
  Host.protect ((f.body.guarded n).run panics fuel) h

/-- The outermost scope has the value on top of the stack that the innermost one had, in the same cell,
and no other cell was made for it; the error is the same at the root. -/
structure HandsOn (r : Record κ χ α) (error' : Error) (h' : Host κ χ) (v : Value) : Prop where
  ends : f.outermost = some r
  outcome : r.outcome = .error error' h'
  collections : r.collections = f.record.collections + (n + 1)
  root : error'.root = f.error.root
  flat : f.error.Flat → error'.Flat
  inner : f.host.engine.Delivers f.error v f.resumed
  outer : f.host.engine.Delivers f.error v h'.engine
  cell : f.Live → ∀ a, v = .object a → ∃ s t, f.resumed.heap.slot? a = some s ∧
    h'.engine.heap.slot? a = some t ∧ t.content = s.content

def Unbalanced : Prop :=
  ∀ r, f.outermost = some r → ∃ error' h', r.outcome = .error error' h' ∧ error'.root = .unbalancedScope

theorem handsOn_of_open {f : Failing panics fuel n h α} (hp : panics.Lawful) (hs : h.engine.Settled m)
    (hroom : h.engine.frames.length + n + 1 ≤ h.engine.limits.tryLimit) (hopen : f.Open)
    (hn : m + f.record.collections + (n + 1) < 2 ^ 32 - 2) : ∃ r error' h' v, f.HandsOn r error' h' v := by
  obtain ⟨r, error', h', v, hprotect, hout, hcollections, -, hcause, hinner, hd, hkept⟩ :=
    protect_guarded hp hs hroom f.ran f.failed f.innermost hopen hn
  refine ⟨r, error', h', v, hprotect, hout, hcollections, hcause.root, hcause.flat, hinner, hd, fun hlive a ha => ?_⟩
  obtain ⟨s, hslot⟩ := hinner.live hlive ha
  obtain ⟨t, ht, hc⟩ := hkept a s ha hslot
  exact ⟨s, t, hslot, ht, hc⟩

theorem unbalanced_of_closed {f : Failing panics fuel n h α}
    (hroom : h.engine.frames.length + n + 1 ≤ h.engine.limits.tryLimit) (hclosed : ¬ f.Open) : f.Unbalanced :=
  fun _ hp => guarded_unbalanced hroom f.ran f.failed f.innermost (fun g hg hid => hclosed ⟨g, hg, hid⟩) hp

end Failing

end Host

end ScriptEngine
