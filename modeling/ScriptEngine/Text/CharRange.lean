namespace ScriptEngine.Text

structure CharRange where
  first : Nat
  last : Nat
deriving DecidableEq, Repr

def CharRange.Covers (r : CharRange) (c : Char) : Prop :=
  r.first ≤ c.toNat ∧ c.toNat ≤ r.last

/-- Membership in a class whose ranges are in ascending order, so that the first range that lies
above the character ends the search. -/
def inRanges (c : Char) : List CharRange → Bool
  | [] => false
  | r :: rs => if c.toNat < r.first then false else if c.toNat ≤ r.last then true else inRanges c rs

theorem exists_covers_of_inRanges {c : Char} {rs : List CharRange} (h : inRanges c rs = true) :
    ∃ r ∈ rs, r.Covers c := by
  induction rs with
  | nil => simp [inRanges] at h
  | cons r rs ih =>
    rw [inRanges] at h
    split at h
    · contradiction
    · split at h
      · exact ⟨r, by simp, by omega, by omega⟩
      · obtain ⟨s, hs, hc⟩ := ih h
        exact ⟨s, by simp [hs], hc⟩

end ScriptEngine.Text
