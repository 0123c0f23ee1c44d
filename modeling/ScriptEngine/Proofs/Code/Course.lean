import ScriptEngine.Code

/-!
Code along which something is known of the machine at each address. A rule says what an instruction asks
of what is known where it stands, and what it tells each address that may come next.
-/

namespace ScriptEngine

variable {α : Type}

def Instr.Monotone (R : Nat → α → (Nat → α → Prop) → Instr → Prop) : Prop :=
  ∀ (a : Nat) (s : α) (E F : Nat → α → Prop) (instr : Instr), (∀ t r, E t r → F t r) → R a s E instr → R a s F instr

/-- Code at address `lo` that leads from one state to another by a rule; besides its own addresses it may
go to those in `X`. -/
def Course (R : Nat → α → (Nat → α → Prop) → Instr → Prop) (X : Nat → α → Prop) (lo : Nat) (code : List Instr)
    (s s' : α) : Prop :=
  ∃ σ : Nat → α, σ lo = s ∧ σ (lo + code.length) = s' ∧
    ∀ (i : Nat) (instr : Instr), code[i]? = some instr →
      R (lo + i) (σ (lo + i)) (fun t r => (lo ≤ t ∧ t ≤ lo + code.length ∧ σ t = r) ∨ X t r) instr

namespace Course

def glue (m : Nat) (σ τ : Nat → α) (t : Nat) : α :=
  if t ≤ m then σ t else τ t

theorem glue_left {m t : Nat} {σ τ : Nat → α} (ht : t ≤ m) : glue m σ τ t = σ t :=
  if_pos ht

theorem glue_right {m t : Nat} {σ τ : Nat → α} (h : σ m = τ m) (ht : m ≤ t) : glue m σ τ t = τ t := by
  rcases Nat.eq_or_lt_of_le ht with rfl | hlt
  · rw [glue_left (Nat.le_refl _), h]
  · exact if_neg (by omega)

variable {R : Nat → α → (Nat → α → Prop) → Instr → Prop} {X Y : Nat → α → Prop} {lo : Nat} {s r s' : α}

theorem nil : Course R X lo [] s s :=
  ⟨fun _ => s, rfl, rfl, by simp⟩

theorem one (hR : Instr.Monotone R) {instr : Instr} (h : R lo s (fun t r => (t = lo + 1 ∧ r = s') ∨ X t r) instr) :
    Course R X lo [instr] s s' := by
  refine ⟨fun t => if t = lo then s else s', by simp, by simp, ?_⟩
  intro i instr' hi
  obtain ⟨rfl, rfl⟩ : i = 0 ∧ instr = instr' := by
    cases i with
    | zero => exact ⟨rfl, by simpa using hi⟩
    | succ i => simp at hi
  simp only [Nat.add_zero, if_true]
  refine hR _ _ _ _ _ ?_ h
  rintro t r (⟨rfl, rfl⟩ | hX)
  · exact .inl ⟨by omega, by simp, by simp⟩
  · exact .inr hX

theorem append (hR : Instr.Monotone R) {c d : List Instr} (hc : Course R X lo c s r)
    (hd : Course R X (lo + c.length) d r s') : Course R X lo (c ++ d) s s' := by
  obtain ⟨σ, hσ, hσr, hcf⟩ := hc
  obtain ⟨τ, hτr, hτ, hdf⟩ := hd
  have hm : σ (lo + c.length) = τ (lo + c.length) := hσr.trans hτr.symm
  have hlen : lo + (c ++ d).length = lo + c.length + d.length := by simp [Nat.add_assoc]
  refine ⟨glue (lo + c.length) σ τ, (glue_left (by omega)).trans hσ, ?_, ?_⟩
  · rw [hlen, glue_right hm (by omega), hτ]
  · intro i instr hi
    rw [hlen]
    rcases Nat.lt_or_ge i c.length with hlt | hge
    · rw [List.getElem?_append_left hlt] at hi
      rw [glue_left (by omega)]
      refine hR _ _ _ _ _ ?_ (hcf i instr hi)
      rintro t r (⟨h1, h2, h3⟩ | hX)
      · exact .inl ⟨h1, by omega, (glue_left h2).trans h3⟩
      · exact .inr hX
    · rw [List.getElem?_append_right hge] at hi
      have hf := hdf (i - c.length) instr hi
      rw [show lo + c.length + (i - c.length) = lo + i by omega] at hf
      rw [glue_right hm (by omega)]
      refine hR _ _ _ _ _ ?_ hf
      rintro t r (⟨h1, h2, h3⟩ | hX)
      · exact .inl ⟨by omega, h2, (glue_right hm h1).trans h3⟩
      · exact .inr hX

theorem close (hR : Instr.Monotone R) {c : List Instr} (hc : Course R X lo c s s')
    (h : ∀ t r, X t r → Y t r ∨ (t = lo ∧ r = s) ∨ (t = lo + c.length ∧ r = s')) : Course R Y lo c s s' := by
  obtain ⟨σ, hσ, hσ', hf⟩ := hc
  refine ⟨σ, hσ, hσ', fun i instr hi => hR _ _ _ _ _ ?_ (hf i instr hi)⟩
  rintro t r (ht | hX)
  · exact .inl ht
  · rcases h t r hX with hY | ⟨rfl, rfl⟩ | ⟨rfl, rfl⟩
    · exact .inr hY
    · exact .inl ⟨by omega, by omega, hσ⟩
    · exact .inl ⟨by omega, by omega, hσ'⟩

end Course

end ScriptEngine
