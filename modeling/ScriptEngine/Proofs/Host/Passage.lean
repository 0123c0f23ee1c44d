import ScriptEngine.Proofs.Engine.Shift
import ScriptEngine.Proofs.Host.Neutral
import ScriptEngine.Proofs.Host.Program

namespace ScriptEngine

open Engine

namespace Engine

variable {e e' : Engine}

def Moves (e e' : Engine) : Prop :=
  e.Ages 2 e' ∧ e.Shift e'

theorem Moves.of_heap {h : Heap} (hh : e.heap.Evolves 2 h) : e.Moves { e with heap := h } :=
  ⟨⟨hh, Nat.le_refl _, rfl⟩, .keep rfl⟩

theorem shift_pushed (h : Heap) (v : Value) : e.Shift (pushThrown v { e with heap := h }) :=
  .push v (by simp [level, pushThrown])

theorem push_moves (v : Value) : Ensures (push v) (fun _ => e.Moves) (fun _ => e.Moves) e := by
  refine .get (.get ?_)
  split
  · exact .bind (.fault ⟨.refl, .keep rfl⟩)
  · exact .modified ⟨⟨.refl, Nat.le_refl _, rfl⟩, .push v (by simp [level])⟩

theorem Moves.of_keeps {n : Nat} (h : e.Keeps n e') (hn : n ≤ 2) : e.Moves e' :=
  ⟨h.1.mono hn, .keep h.2⟩

theorem setProperty_keeps (target : Value) (name : String) (value : Value) (e : Engine) :
    Ensures (setProperty target name value) (fun _ => e.Keeps 0) (fun _ => e.Keeps 0) e := by
  refine Ensures.change (e := e) (l := e.stack.toList) (h := e.heap) ?_ ?_
  · intro h hs
    exact ⟨ages_reset (Heap.Evolves.refl.setProperty hs), rfl⟩
  · intro f hf
    exact ⟨.refl, rfl⟩

theorem makeRef_keeps (value : Value) (e : Engine) :
    Ensures (makeRef value) (fun _ => e.Keeps 0) (fun _ => e.Keeps 0) e := by
  refine .get (.bind ?_)
  have hk {e' : Engine} (h : Keeps { e with nextRef := e.nextRef + 1 } 0 e') : e.Keeps 0 e' :=
    ⟨⟨h.1.heap, h.1.serial, h.1.fixed⟩, h.2⟩
  exact .bind ((setProperty_keeps _ _ _ _).mono (fun _ _ h => .pure (hk h)) fun _ _ h => hk h)

theorem enterProtected_moves : Ensures enterProtected (fun _ => e.Moves) (fun _ => e.Moves) e := by
  refine (enterProtected_ensures e).mono ?_ ?_
  · rintro id e' ⟨frame, _, ho, rfl⟩
    exact ⟨⟨.refl, Nat.le_succ _, rfl⟩, .enter frame ho (Nat.lt_succ_self _) rfl⟩
  · rintro error e' ⟨_, rfl⟩
    exact ⟨.refl, .keep rfl⟩

theorem leaveProtected_moves (id : ScopeId) :
    Ensures (leaveProtected id) (fun _ => e.Moves) (fun _ => e.Moves) e := by
  refine (leaveProtected_ensures id e).mono ?_ ?_
  · rintro _ e' ⟨frame, frames, hf, _, rfl⟩
    exact ⟨⟨.refl, Nat.le_refl _, rfl⟩, .leave frame frames hf rfl⟩
  · rintro error e' ⟨_, rfl, _⟩
    exact ⟨.refl, .keep rfl⟩

theorem unwind_moves (id : ScopeId) (error : Error) (e : Engine) : e.Moves (e.unwind id error).2 := by
  cases hf : findFrame id e.frames with
  | none =>
    obtain ⟨v, h, hh, hv⟩ := exceptionValue_spec .unbalancedScope e
    simp only [unwind, hf, hv]
    exact ⟨⟨hh.mono (by omega), Nat.le_refl _, rfl⟩, shift_pushed h v⟩
  | some found =>
    obtain ⟨frame, frames⟩ := found
    obtain ⟨v, e₁, hu, ha, hl⟩ := unwind_found hf error
    obtain ⟨-, inner, hi⟩ := findFrame_eq_some hf
    rw [hu]
    exact ⟨ha.mono (by omega), .resume inner frame frames v hi hl⟩

end Engine

theorem Operation.perform_moves (operation : Operation) (e : Engine) :
    e.Moves (stateOf (operation.perform e)) := by
  apply Ensures.state
  cases operation with
  | push v => exact .bind ((push_moves v).mono (fun _ _ h => .pure h) fun _ _ h => h)
  | pop =>
    refine .bind (.modifyGet (.pure ⟨⟨.refl, Nat.le_refl _, rfl⟩, .pop ?_⟩))
    simp [level, Engine.pop]
  | newObject => exact .bind (.modifyGet (.pure (.of_heap (.alloc .refl trivial))))
  | exceptionValue error =>
    obtain ⟨v, h, hh, hv⟩ := exceptionValue_spec error e
    refine .bind (.modifyGet ?_)
    rw [hv]
    exact .pure (.of_heap (hh.mono (by omega)))
  | bind unit compiled env => exact .bind (.modifyGet (.pure (.of_heap (.alloc .refl compiled))))
  | setProperty target name value =>
    exact .bind ((setProperty_keeps target name value e).mono (fun _ _ h => .pure (.of_keeps h (by omega)))
      fun _ _ h => .of_keeps h (by omega))
  | makeRef value =>
    exact .bind ((makeRef_keeps value e).mono (fun _ _ h => .pure (.of_keeps h (by omega)))
      fun _ _ h => .of_keeps h (by omega))
  | unref key => exact .bind (.modified (.pure (.of_heap (Heap.Evolves.refl.eraseProperty e.registry key))))
  | gc => exact .bind (.modifyGet (.pure (.of_heap (Heap.Evolves.mono (.collect 0 e.roots (n := 0) .refl) (by omega)))))
  | enter => exact .bind (enterProtected_moves.mono (fun _ _ h => .pure h) fun _ _ h => h)
  | leave id => exact .bind ((leaveProtected_moves id).mono (fun _ _ h => .pure h) fun _ _ h => h)
  | unwind id error => exact .bind (.modifyGet (.pure (unwind_moves id error e)))
  | redirect output diagnostics =>
    exact .bind (.modified (.pure ⟨⟨.refl, Nat.le_refl _, rfl⟩, .keep rfl⟩))

theorem Machine.run_sound {L : Level} {fl : List Nat} {m : Machine} {fuel n : Nat}
    {r : EStateM.Result Error Engine Value} (hh : m.engine.heap.Sound n) (hf : Fits L fl m)
    (hr : run fuel m = some r) (hn : n + collections fuel m + 1 < 2 ^ 32) :
    (stateOf r).heap.Sound (n + collections fuel m) ∧ m.engine.nextSerial ≤ (stateOf r).nextSerial := by
  fun_induction run fuel m generalizing fl n with
  | case1 fuel e result =>
    obtain rfl := Option.some.inj hr
    rw [stateOf_resultIn, collections]
    exact ⟨hh, Nat.le_refl _⟩
  | case2 => cases hr
  | case3 fuel m hne ih =>
    have hc : collections (fuel + 1) m =
        m.engine.heap.collectionsTo m.step.engine.heap + collections fuel m.step := by
      rw [collections]
      intro e result hm
      exact hne e result hm
    rw [hc] at hn ⊢
    have ha := (steps_step hh.compiled hf).1
    have hstep := hh.evolves ha.heap (by omega)
    obtain ⟨hs, hle⟩ := ih hstep (hf.step hh.compiled) hr (by omega)
    refine ⟨?_, Nat.le_trans ha.serial hle⟩
    rw [← Nat.add_assoc]
    exact hs

structure Engine.Leads (e : Engine) (n more : Nat) (e' : Engine) : Prop where
  settled : e'.Settled (n + more)
  follows : e.Follows e'

theorem Engine.Leads.trans {e e' e'' : Engine} {n k m : Nat} (h : e.Leads n k e') (h' : e'.Leads (n + k) m e'') :
    e.Leads n (k + m) e'' :=
  ⟨by rw [← Nat.add_assoc]; exact h'.settled, h.follows.trans h'.follows⟩

theorem Engine.Settled.leads_pushed {e : Engine} {n : Nat} {h : Heap} (hs : e.Settled n)
    (hh : e.heap.Evolves 0 h) (v : Value) : e.Leads n 0 (pushThrown v { e with heap := h }) := by
  have hf := (shift_pushed h v).follows hs (Nat.le_refl _)
  exact ⟨hs.follows hf (hs.heap.evolves_zero hh), hf⟩

theorem Engine.Moves.leads {e e' : Engine} {n : Nat} (h : e.Moves e') (hs : e.Settled n)
    (hn : n + e.heap.collectionsTo e'.heap + 1 < 2 ^ 32) : e.Leads n (e.heap.collectionsTo e'.heap) e' := by
  have hf := h.2.follows hs h.1.serial
  exact ⟨hs.follows hf (hs.heap.evolves h.1.heap hn), hf⟩

structure Engine.Passes (e : Engine) (n more low : Nat) (e' : Engine) : Prop extends e.Leads n more e' where
  holding : ∀ K f F, Holding K (f :: F) e → f.id.serial < e.nextSerial → K.length ≤ low →
    f :: F <:+ e'.level.frames → Holding K (f :: F) e'

theorem Engine.Passes.trans {e e' e'' : Engine} {n k m low low' : Nat} (h : e.Passes n k low e')
    (h' : e'.Passes (n + k) m low' e'') : e.Passes n (k + m) (min low low') e'' := by
  refine ⟨h.toLeads.trans h'.toLeads, ?_⟩
  intro K f F hk hs hlow ho
  have hs' : f.id.serial < e'.nextSerial := Nat.lt_of_lt_of_le hs h.follows.serial
  have hmid := h.holding K f F hk hs (by omega) (h'.follows.open_before hs' ho)
  exact h'.holding K f F hmid hs' (by omega) ho

theorem Engine.Passes.mono {e e' : Engine} {n k low low' : Nat} (h : e.Passes n k low e') (hl : low' ≤ low) :
    e.Passes n k low' e' :=
  ⟨h.toLeads, fun K f F hk hs hlow => h.holding K f F hk hs (Nat.le_trans hlow hl)⟩

theorem Engine.Leads.passes {e e' : Engine} {n k : Nat} (h : e.Leads n k e') (hs : e.Shift e') :
    e.Passes n k e'.stack.size e' := by
  refine ⟨h, ?_⟩
  intro K f F hk _ hlow ho
  exact hs.holding hk (by simpa [level] using hlow) ho

namespace Host

variable {κ χ : Type} {panics : Panics κ χ} {h h' : Host κ χ} {n : Nat}

def Lawful {α : Type} (x : Host κ χ → Option (Record κ χ α)) : Prop :=
  ∀ h r, x h = some r → ∀ n, h.engine.Settled n → n + r.collections + 1 < 2 ^ 32 →
    h.engine.Passes n r.collections r.low r.host.engine ∧ r.low ≤ h.engine.stack.size

def Panics.Lawful (panics : Panics κ χ) : Prop :=
  ∀ k, Host.Lawful (panics k)

theorem throw_leads {error error' : Error} (hp : panics.Lawful) (hs : h.engine.Settled n)
    (ht : throw panics.handlers error h = some (error', h')) (hn : n + throwCollections panics error h + 1 < 2 ^ 32) :
    h.engine.Leads n (throwCollections panics error h) h'.engine ∧
      (h'.engine = h.engine ∨ h.engine.frames = []) := by
  simp only [throw] at ht
  simp only [throwCollections] at hn ⊢
  split at ht
  · rename_i hopen
    obtain ⟨-, rfl⟩ := Prod.mk.inj (Option.some.inj ht)
    rw [if_pos hopen]
    exact ⟨⟨hs, .refl _⟩, .inl rfl⟩
  · rename_i hopen
    rw [if_neg hopen] at hn ⊢
    have hnone : h.engine.frames = [] := by
      cases hf : h.engine.frames with
      | nil => rfl
      | cons f fs => simp [hf] at hopen
    obtain ⟨v, heap, hh, hv⟩ := exceptionValue_spec error h.engine
    simp only [hv] at ht hn ⊢
    -- The value is shown to the handler on top of the stack and taken away after it.
    have hpush := hs.leads_pushed hh v
    have hcut {m : Nat} {e : Engine} (he : h.engine.Leads n m e) (depth : Nat) :
        h.engine.Leads n m (e.cutStack depth) := by
      have hf : e.Follows (e.cutStack depth) := .of_stack (level_cutStack e depth) (Nat.le_refl _)
      exact ⟨he.settled.follows hf he.settled.heap, he.follows.trans hf⟩
    cases hk : h.handler with
    | none =>
      simp only [panic, hk, Option.map_some, Option.some.injEq, Prod.mk.injEq] at ht
      obtain ⟨-, rfl⟩ := ht
      refine ⟨hcut ?_ _, .inr hnone⟩
      have hf : (pushThrown v { h.engine with heap }).Follows (reportUncaught (pushThrown v { h.engine with heap })) :=
        .of_stack rfl (Nat.le_refl _)
      exact ⟨hpush.settled.follows hf hpush.settled.heap, hpush.follows.trans hf⟩
    | some k =>
      simp only [hk] at hn ⊢
      simp only [panic, hk, Panics.handlers, Option.map_map, Option.map_eq_some_iff] at ht
      obtain ⟨r, hr, hrest⟩ := ht
      obtain ⟨-, rfl⟩ := Prod.mk.inj hrest
      simp only [hr, Option.map_some, Option.getD_some] at hn ⊢
      have hrun := (hp k _ r hr n hpush.settled hn).1
      exact ⟨hcut ⟨hrun.settled, hpush.follows.trans hrun.follows⟩ _, .inr hnone⟩

theorem surface_leads {α : Type} {r : EStateM.Result Error Engine α} {outcome : Outcome κ χ α}
    (hp : panics.Lawful) (hs : (stateOf r).Settled n) (hr : surface panics.handlers h r = some outcome)
    (hn : n + surfaceCollections panics h r + 1 < 2 ^ 32) :
    (stateOf r).Leads n (surfaceCollections panics h r) (stateOf outcome).engine ∧
      ((stateOf outcome).engine = stateOf r ∨ (stateOf r).frames = []) := by
  cases r with
  | ok a e =>
    obtain rfl := Option.some.inj hr
    exact ⟨⟨hs, .refl _⟩, .inl rfl⟩
  | error error e =>
    simp only [surface, Option.map_eq_some_iff] at hr
    obtain ⟨⟨error', h'⟩, ht, rfl⟩ := hr
    exact throw_leads (h := { h with engine := e }) hp hs ht hn

theorem surface_after {α : Type} {r : EStateM.Result Error Engine α} {outcome : Outcome κ χ α} {c : Nat}
    (hp : panics.Lawful) (hs : h.engine.Settled n) (hl : (stateOf r).level = h.engine.level)
    (hserial : h.engine.nextSerial ≤ (stateOf r).nextSerial) (hh : (stateOf r).heap.Sound (n + c))
    (hr : surface panics.handlers h r = some outcome) (hn : n + (c + surfaceCollections panics h r) + 1 < 2 ^ 32) :
    h.engine.Leads n (c + surfaceCollections panics h r) (stateOf outcome).engine ∧
      h.engine.Shift (stateOf outcome).engine := by
  have hf : h.engine.Follows (stateOf r) := .of_stack (l := h.engine.level.stack) hl hserial
  have hfirst : h.engine.Leads n c (stateOf r) := ⟨hs.follows hf hh, hf⟩
  obtain ⟨hsecond, hsame⟩ := surface_leads hp hfirst.settled hr (by omega)
  have hboth := hfirst.trans hsecond
  refine ⟨hboth, ?_⟩
  rcases hsame with hsame | hnone
  · rw [hsame]
    exact .keep hl
  · refine .panic ?_ hboth.follows
    rw [← hl]
    exact hnone

end Host

open Host

variable {κ χ α : Type} {panics : Panics κ χ}

theorem Action.stateOf_reply (outcome : Outcome κ χ Value) : stateOf (reply outcome) = stateOf outcome := by
  cases outcome <;> rfl

theorem Host.engine_receive (h : Host κ χ) (r : EStateM.Result Error Engine α) :
    (stateOf (h.receive r)).engine = stateOf r := by
  cases r <;> rfl

theorem Action.perform_leads {action : Action κ χ} {fuel n : Nat} {h : Host κ χ} {outcome : Outcome κ χ Reply}
    (hp : panics.Lawful) (hs : h.engine.Settled n) (ha : action.perform panics.handlers fuel h = some outcome)
    (hn : n + action.collections panics fuel h + 1 < 2 ^ 32) :
    h.engine.Leads n (action.collections panics fuel h) (stateOf outcome).engine ∧
      h.engine.Shift (stateOf outcome).engine := by
  cases action with
  | operate operation =>
    obtain rfl := Option.some.inj ha
    have hm := operation.perform_moves h.engine
    rw [engine_receive]
    exact ⟨hm.leads hs hn, hm.2⟩
  | throw error =>
    obtain ⟨⟨error', h'⟩, ht, rfl⟩ := Option.map_eq_some_iff.mp ha
    obtain ⟨hl, hsame⟩ := throw_leads hp hs ht hn
    refine ⟨hl, ?_⟩
    rcases hsame with hsame | hnone
    · exact .keep (congrArg level hsame)
    · exact .panic hnone hl.follows
  | rethrow error =>
    obtain ⟨⟨error', h'⟩, ht, rfl⟩ := Option.map_eq_some_iff.mp ha
    have hpop : h.engine.Shift (h.engine.carry error).2 := by
      rw [carry_engine]
      exact .pop (by simp [level])
    have hf : h.engine.Follows (h.engine.carry error).2 := by
      refine hpop.follows hs (Nat.le_of_eq ?_)
      rw [carry_engine]
    have hfirst : h.engine.Leads n 0 (h.engine.carry error).2 := by
      refine ⟨hs.follows hf ?_, hf⟩
      rw [carry_engine]
      exact hs.heap
    obtain ⟨hsecond, hsame⟩ :=
      throw_leads (h := { h with engine := (h.engine.carry error).2 }) hp hfirst.settled ht hn
    have hboth := hfirst.trans hsecond
    rw [Nat.zero_add] at hboth
    refine ⟨hboth, ?_⟩
    rcases hsame with hsame | hnone
    · have hsame : h'.engine = (h.engine.carry error).2 := hsame
      rw [← hsame] at hpop
      exact hpop
    · refine .panic ?_ hboth.follows
      rw [carry_engine] at hnone
      exact hnone
  | load name source mode =>
    obtain ⟨outcome', hr, rfl⟩ := Option.map_eq_some_iff.mp ha
    have hk : h.engine.Keeps 2 (stateOf (Engine.load name source mode h.engine)) :=
      Ensures.state ((load_ensures name source mode h.engine).mono (fun _ _ h => h.mono (by omega))
        fun _ _ h => h.2.mono (by omega))
    rw [stateOf_reply]
    exact surface_after hp hs hk.2 hk.1.serial (hs.heap.evolves hk.1.heap (by simp only [collections] at hn; omega)) hr hn
  | loadFile path file =>
    obtain ⟨outcome', hr, rfl⟩ := Option.map_eq_some_iff.mp ha
    have hk : h.engine.Keeps 2 (stateOf (Engine.loadFile path file h.engine)) :=
      Ensures.state ((loadFile_ensures path file h.engine).mono (fun _ _ h => h) fun _ _ h => h.2)
    rw [stateOf_reply]
    exact surface_after hp hs hk.2 hk.1.serial (hs.heap.evolves hk.1.heap (by simp only [collections] at hn; omega)) hr hn
  | call receiver callee args =>
    obtain ⟨outcome', hc, rfl⟩ := Option.map_eq_some_iff.mp ha
    obtain ⟨r, hr, hsurf⟩ := Option.bind_eq_some_iff.mp hc
    rw [stateOf_reply]
    simp only [collections, hr, Option.map_some, Option.getD_some] at hn ⊢
    have hl := (Engine.call_level hs.heap.compiled hr).1
    have hfits : Machine.Fits h.engine.level [] ⟨h.engine, [], .calling receiver callee args⟩ := .host
    obtain ⟨hsound, hserial⟩ := Machine.run_sound hs.heap hfits hr (by omega)
    exact surface_after hp hs hl hserial hsound hsurf hn
  | setHandler handler =>
    obtain rfl := Option.some.inj ha
    exact ⟨⟨hs, .refl _⟩, .keep rfl⟩
  | setContext context =>
    obtain rfl := Option.some.inj ha
    exact ⟨⟨hs, .refl _⟩, .keep rfl⟩

theorem Engine.endProtected_moves (id : ScopeId) (r : EStateM.Result Error Engine α) :
    (stateOf r).Moves (stateOf (Engine.endProtected id r)) := by
  cases r with
  | error error e => exact unwind_moves id error e
  | ok a e =>
    simp only [Engine.endProtected]
    cases hr : leaveProtected id e with
    | ok _ e₁ => exact (leaveProtected_moves id).ok hr
    | error error e₁ =>
      obtain ⟨-, rfl, -⟩ := (leaveProtected_ensures id e).error hr
      exact unwind_moves id error e₁

theorem Host.stateOf_within (outcome : Outcome κ χ α) : stateOf (within outcome) = (stateOf outcome).engine := by
  cases outcome <;> rfl

theorem Host.engine_endProtected (id : ScopeId) (outcome : Outcome κ χ α) :
    (stateOf outcome).engine.Moves (stateOf (Host.endProtected id outcome)).engine := by
  rw [Host.endProtected, engine_receive, ← stateOf_within]
  exact endProtected_moves id (within outcome)

theorem Host.Lawful.protect {body : Host κ χ → Option (Record κ χ α)} (hb : Lawful body) :
    Lawful (Host.protect body) := by
  intro h r hr n hs hn
  simp only [Host.protect] at hr
  split at hr
  · rename_i error e he
    obtain rfl := Option.some.inj hr
    obtain ⟨-, rfl⟩ := (beginProtected_ensures h.engine).error he
    obtain ⟨v, heap, hh, hv⟩ := exceptionValue_spec error h.engine
    refine ⟨?_, Nat.le_refl _⟩
    simp only [Record.host, stateOf, hv]
    have hpass := (hs.leads_pushed hh v).passes (shift_pushed heap v)
    exact hpass.mono (by simp [pushThrown])
  · rename_i id e he
    obtain ⟨b, hrun, rfl⟩ := Option.map_eq_some_iff.mp hr
    obtain ⟨frame, -, ho, rfl⟩ := (beginProtected_ensures h.engine).ok he
    simp only at hn ⊢
    have hshift : h.engine.Shift { h.engine with frames := frame :: h.engine.frames, nextSerial := h.engine.nextSerial + 1 } :=
      .enter frame ho (Nat.lt_succ_self _) rfl
    have hf := hshift.follows hs (Nat.le_succ _)
    have hfirst := Leads.passes (k := 0) ⟨hs.follows hf hs.heap, hf⟩ hshift
    obtain ⟨hbody, hlow⟩ := hb _ b hrun n hfirst.settled (by omega)
    have hlow : b.low ≤ h.engine.stack.size := hlow
    have hend := engine_endProtected id b.outcome
    have hlast := (hend.leads hbody.settled (by
      simp only [Record.host] at hn
      omega)).passes hend.2
    have hall := (hfirst.trans hbody).trans (by rw [Nat.zero_add]; exact hlast)
    rw [Nat.zero_add] at hall
    exact ⟨hall.mono (by simp only [Record.host] at *; omega), by omega⟩

theorem Program.run_lawful (hp : panics.Lawful) (fuel : Nat) (p : Program κ χ α) :
    Lawful (p.run panics fuel) := by
  induction p with
  | done result =>
    intro h r hr n hs hn
    have hrefl : h.engine.Passes n 0 h.engine.stack.size h.engine :=
      Leads.passes ⟨hs, .refl _⟩ (.keep rfl)
    cases result <;>
    · obtain rfl := Option.some.inj hr
      exact ⟨hrefl, Nat.le_refl _⟩
  | act action next ih =>
    intro h r hr n hs hn
    obtain ⟨outcome, ha, hmap⟩ := Option.bind_eq_some_iff.mp hr
    obtain ⟨rest, hnext, rfl⟩ := Option.map_eq_some_iff.mp hmap
    simp only [Record.since] at hn ⊢
    obtain ⟨hl, hshift⟩ := action.perform_leads hp hs ha (by omega)
    obtain ⟨hrest, hlow⟩ := ih _ _ _ rest hnext _ hl.settled (by omega)
    exact ⟨((hl.passes hshift).trans hrest).mono (by omega), Nat.min_le_left _ _⟩
  | protect body next ihb ih =>
    intro h r hr n hs hn
    obtain ⟨b, hb, hmap⟩ := Option.bind_eq_some_iff.mp hr
    obtain ⟨rest, hnext, rfl⟩ := Option.map_eq_some_iff.mp hmap
    simp only [Record.since] at hn ⊢
    obtain ⟨hbody, hlow⟩ := ihb.protect h b hb n hs (by omega)
    obtain ⟨hrest, hlow'⟩ := ih _ _ _ rest hnext _ hbody.settled (by omega)
    exact ⟨hbody.trans hrest, by omega⟩

theorem Program.panics_lawful (handler : κ → Program κ χ Unit) (fuel : Nat) : (Program.panics handler fuel).Lawful := by
  induction fuel with
  | zero =>
    intro k h r hr
    cases hr
  | succ fuel ih =>
    intro k
    exact run_lawful ih fuel (handler k)

end ScriptEngine
