import ScriptEngine.Proofs.Engine.Level
import ScriptEngine.Proofs.Heap.Upkeep

namespace ScriptEngine.Engine

structure Rests (e : Engine) (frame : ProtectedFrame) : Prop where
  traceDepth : frame.traceDepth = e.level.trace.length
  scopeDepth : frame.scopeDepth = e.level.scopes.length
  env : frame.env = e.level.env

/-- A state that a host can have brought an instance to with `n` collections. -/
structure Settled (n : Nat) (e : Engine) : Prop where
  heap : e.heap.Sound n
  trace : 1 ≤ e.level.trace.length
  rests : ∀ f ∈ e.level.frames, e.Rests f
  serials : ∀ f ∈ e.level.frames, f.id.serial < e.nextSerial

structure Follows (e e' : Engine) : Prop where
  trace : e'.level.trace = e.level.trace
  scopes : e'.level.scopes = e.level.scopes
  env : e'.level.env = e.level.env
  serial : e.nextSerial ≤ e'.nextSerial
  frames : ∃ entered kept, e'.level.frames = entered ++ kept ∧ kept <:+ e.level.frames ∧
    ∀ f ∈ entered, e.nextSerial ≤ f.id.serial ∧ f.id.serial < e'.nextSerial ∧ e.Rests f

variable {e e' e'' : Engine} {n : Nat}

theorem Rests.follows {f : ProtectedFrame} (h : e.Rests f) (ht : e'.level.trace = e.level.trace)
    (hs : e'.level.scopes = e.level.scopes) (he : e'.level.env = e.level.env) : e'.Rests f :=
  ⟨by rw [ht, h.traceDepth], by rw [hs, h.scopeDepth], by rw [he, h.env]⟩

namespace Follows

theorem of_stack {l : List Value} (h : e'.level = { e.level with stack := l })
    (hs : e.nextSerial ≤ e'.nextSerial) : e.Follows e' :=
  ⟨by rw [h], by rw [h], by rw [h], hs, [], e.level.frames, by rw [h]; rfl, List.suffix_rfl,
    fun _ h => nomatch h⟩

theorem refl (e : Engine) : e.Follows e :=
  .of_stack (l := e.level.stack) rfl (Nat.le_refl _)

theorem trans (h : e.Follows e') (h' : e'.Follows e'') : e.Follows e'' := by
  obtain ⟨entered, kept, hf, hk, hall⟩ := h.frames
  obtain ⟨entered', kept', hf', hk', hall'⟩ := h'.frames
  refine ⟨h'.trace.trans h.trace, h'.scopes.trans h.scopes, h'.env.trans h.env,
    Nat.le_trans h.serial h'.serial, ?_⟩
  have hnew : ∀ f ∈ entered', e.nextSerial ≤ f.id.serial ∧ f.id.serial < e''.nextSerial ∧ e.Rests f := by
    intro f hm
    obtain ⟨hlo, hhi, hr⟩ := hall' f hm
    exact ⟨Nat.le_trans h.serial hlo, hhi, hr.follows h.trace.symm h.scopes.symm h.env.symm⟩
  have hold : ∀ f ∈ entered, e.nextSerial ≤ f.id.serial ∧ f.id.serial < e''.nextSerial ∧ e.Rests f := by
    intro f hm
    obtain ⟨hlo, hhi, hr⟩ := hall f hm
    exact ⟨hlo, Nat.lt_of_lt_of_le hhi h'.serial, hr⟩
  rw [hf] at hk'
  -- What was kept the second time ends inside what was entered the first time, or below it.
  rcases List.suffix_or_suffix_of_suffix hk' (List.suffix_append entered kept) with hs | ⟨mid, hmid⟩
  · exact ⟨entered', kept', hf', hs.trans hk, hnew⟩
  · refine ⟨entered' ++ mid, kept, by rw [hf', ← hmid, List.append_assoc], hk, ?_⟩
    have hsub : mid <:+ entered := by
      rw [← hmid] at hk'
      obtain ⟨pre, hpre⟩ := hk'
      exact ⟨pre, List.append_cancel_right (by rw [List.append_assoc]; exact hpre)⟩
    intro f hm
    rcases List.mem_append.mp hm with hm | hm
    · exact hnew f hm
    · exact hold f (hsub.subset hm)

theorem open_before {f : ProtectedFrame} {F : List ProtectedFrame} (h : e.Follows e')
    (hs : f.id.serial < e.nextSerial) (ho : f :: F <:+ e'.level.frames) : f :: F <:+ e.level.frames := by
  obtain ⟨entered, kept, hf, hk, hall⟩ := h.frames
  rw [hf] at ho
  rcases List.suffix_or_suffix_of_suffix ho (List.suffix_append entered kept) with hs' | ⟨mid, hmid⟩
  · exact hs'.trans hk
  · cases mid with
    | nil =>
      rw [show f :: F = kept from hmid.symm]
      exact hk
    | cons g mid =>
      obtain ⟨rfl, hF⟩ := List.cons.inj hmid
      rw [← hF] at ho
      obtain ⟨pre, hpre⟩ := ho
      have hmem : g ∈ entered := by
        have hcut : pre ++ g :: mid = entered :=
          List.append_cancel_right (by rw [List.append_assoc, List.cons_append]; exact hpre)
        rw [← hcut]
        exact List.mem_append_right _ (.head _)
      exact absurd (hall g hmem).1 (Nat.not_le.mpr hs)

end Follows

theorem Settled.follows {m : Nat} (hs : e.Settled n) (hf : e.Follows e') (hh : e'.heap.Sound m) :
    e'.Settled m := by
  obtain ⟨entered, kept, hframes, hkept, hall⟩ := hf.frames
  refine ⟨hh, by rw [hf.trace]; exact hs.trace, ?_, ?_⟩
  · intro f hm
    rw [hframes] at hm
    rcases List.mem_append.mp hm with hm | hm
    · exact (hall f hm).2.2.follows hf.trace hf.scopes hf.env
    · exact (hs.rests f (hkept.subset hm)).follows hf.trace hf.scopes hf.env
  · intro f hm
    rw [hframes] at hm
    rcases List.mem_append.mp hm with hm | hm
    · exact (hall f hm).2.1
    · exact Nat.lt_of_lt_of_le (hs.serials f (hkept.subset hm)) hf.serial

inductive Shift (e e' : Engine) : Prop
  | keep (h : e'.level = e.level)
  | push (v : Value) (h : e'.level = { e.level with stack := e.level.stack ++ [v] })
  | pop (h : e'.level = { e.level with stack := e.level.stack.dropLast })
  | enter (frame : ProtectedFrame) (ho : e.Opens frame) (hn : e.nextSerial < e'.nextSerial)
      (h : e'.level = { e.level with frames := frame :: e.level.frames })
  | leave (frame : ProtectedFrame) (frames : List ProtectedFrame) (hf : e.level.frames = frame :: frames)
      (h : e'.level = { e.level with frames })
  | resume (inner : List ProtectedFrame) (frame : ProtectedFrame) (frames : List ProtectedFrame) (v : Value)
      (hf : e.level.frames = inner ++ frame :: frames)
      (h : e'.level = ⟨e.level.stack.take frame.stackDepth ++ [v], e.level.trace.take (max frame.traceDepth 1),
        e.level.scopes.take frame.scopeDepth, frame.env, frames, e.loops⟩)
  | panic (hf : e.level.frames = []) (h : e.Follows e')

theorem Shift.follows (h : e.Shift e') (hs : e.Settled n) (hn : e.nextSerial ≤ e'.nextSerial) :
    e.Follows e' := by
  cases h with
  | keep h => exact .of_stack (l := e.level.stack) h hn
  | push v h => exact .of_stack h hn
  | pop h => exact .of_stack h hn
  | enter frame ho hlt h =>
    refine ⟨by rw [h], by rw [h], by rw [h], hn, [frame], e.level.frames, by rw [h]; rfl, List.suffix_rfl, ?_⟩
    intro f hm
    obtain rfl := List.mem_singleton.mp hm
    exact ⟨Nat.le_of_eq ho.serial.symm, by rw [ho.serial]; exact hlt,
      ho.marks.traceDepth, ho.marks.scopeDepth, ho.marks.env⟩
  | leave frame frames hf h =>
    exact ⟨by rw [h], by rw [h], by rw [h], hn, [], frames, by rw [h]; rfl, by rw [hf]; exact List.suffix_cons _ _,
      fun _ h => nomatch h⟩
  | resume inner frame frames v hf h =>
    have hmem : frame ∈ e.level.frames := by
      rw [hf]
      exact List.mem_append_right _ (.head _)
    have hr := hs.rests frame hmem
    refine ⟨?_, ?_, ?_, hn, [], frames, by rw [h]; rfl, ?_, fun _ h => nomatch h⟩
    · rw [h, hr.traceDepth]
      exact List.take_of_length_le (Nat.le_max_left _ _)
    · rw [h, hr.scopeDepth]
      exact List.take_length
    · rw [h, hr.env]
    · rw [hf]
      exact (List.suffix_cons frame frames).trans (List.suffix_append inner _)
  | panic _ h => exact h

structure Holding (K : List Value) (B : List ProtectedFrame) (e : Engine) : Prop where
  stack : K <+: e.level.stack
  frames : ∃ entered, e.level.frames = entered ++ B ∧ ∀ f ∈ entered, K.length ≤ f.stackDepth

theorem Shift.holding {K : List Value} {f : ProtectedFrame} {F : List ProtectedFrame} (h : e.Shift e')
    (hk : Holding K (f :: F) e) (hd : K.length ≤ e'.level.stack.length) (ho : f :: F <:+ e'.level.frames) :
    Holding K (f :: F) e' := by
  obtain ⟨hstack, entered, hframes, hall⟩ := hk
  cases h with
  | keep h => exact ⟨by rw [h]; exact hstack, entered, by rw [h]; exact hframes, hall⟩
  | push v h =>
    refine ⟨?_, entered, by rw [h]; exact hframes, hall⟩
    rw [h]
    exact hstack.trans (List.prefix_append _ _)
  | pop h =>
    refine ⟨?_, entered, by rw [h]; exact hframes, hall⟩
    rw [h] at hd ⊢
    exact List.prefix_of_prefix_length_le hstack (List.dropLast_prefix _) hd
  | enter frame hop _ h =>
    refine ⟨by rw [h]; exact hstack, frame :: entered, by rw [h, hframes]; rfl, ?_⟩
    intro g hm
    rcases List.mem_cons.mp hm with rfl | hm
    · rw [hop.marks.stackDepth]
      exact hstack.length_le
    · exact hall g hm
  | leave frame frames hf h =>
    have ho : f :: F <:+ frames := by
      rw [h] at ho
      exact ho
    obtain ⟨mid, hmid⟩ := ho
    have hent : entered = frame :: mid := by
      rw [hframes, ← hmid, ← List.cons_append] at hf
      exact List.append_cancel_right hf
    refine ⟨by rw [h]; exact hstack, mid, by rw [h]; exact hmid.symm, ?_⟩
    intro g hm
    exact hall g (by rw [hent]; exact .tail _ hm)
  | resume inner frame frames v hf h =>
    have ho : f :: F <:+ frames := by
      rw [h] at ho
      exact ho
    obtain ⟨mid, hmid⟩ := ho
    have hent : entered = inner ++ frame :: mid := by
      rw [hframes, ← hmid, ← List.cons_append, ← List.append_assoc] at hf
      exact List.append_cancel_right hf
    refine ⟨?_, mid, by rw [h]; exact hmid.symm, ?_⟩
    · have hdepth : K.length ≤ frame.stackDepth := hall frame (by
        rw [hent]
        exact List.mem_append_right _ (.head _))
      rw [h]
      refine List.IsPrefix.trans ?_ (List.prefix_append _ _)
      exact List.prefix_take_iff.mpr ⟨hstack, hdepth⟩
    · intro g hm
      exact hall g (by rw [hent]; exact List.mem_append_right _ (.tail _ hm))
  | panic hf _ =>
    rw [hframes] at hf
    simp at hf

end ScriptEngine.Engine
