namespace ScriptEngine.Text

structure Lead where
  payload : Nat
  low : UInt8
  high : UInt8
  more : Nat
deriving DecidableEq, Repr

def Lead.of? (b : UInt8) : Option Lead :=
  if 0xC2 ≤ b ∧ b ≤ 0xDF then some ⟨b.toNat % 0x20, 0x80, 0xBF, 0⟩
  else if b = 0xE0 then some ⟨0x0, 0xA0, 0xBF, 1⟩
  else if b = 0xED then some ⟨0xD, 0x80, 0x9F, 1⟩
  else if 0xE1 ≤ b ∧ b ≤ 0xEF then some ⟨b.toNat % 0x10, 0x80, 0xBF, 1⟩
  else if b = 0xF0 then some ⟨0x0, 0x90, 0xBF, 2⟩
  else if 0xF1 ≤ b ∧ b ≤ 0xF3 then some ⟨b.toNat % 0x08, 0x80, 0xBF, 2⟩
  else if b = 0xF4 then some ⟨0x4, 0x80, 0x8F, 2⟩
  else none

def replacement : Char := Char.ofNat 0xFFFD

def extend (code : Nat) (b : UInt8) : Nat :=
  code * 0x40 + b.toNat % 0x40

def continued (code : Nat) : Nat → List UInt8 → Option Nat × List UInt8
  | 0, bs => (some code, bs)
  | _ + 1, [] => (none, [])
  | n + 1, b :: bs => if 0x80 ≤ b ∧ b ≤ 0xBF then continued (extend code b) n bs else (none, b :: bs)

theorem length_continued_le (code n : Nat) (bs : List UInt8) :
    (continued code n bs).2.length ≤ bs.length := by
  induction n generalizing code bs with
  | zero => simp [continued]
  | succ n ih =>
    cases bs with
    | nil => simp [continued]
    | cons b bs =>
      rw [continued]
      split
      · exact Nat.le_succ_of_le (ih _ _)
      · simp

def Lead.complete (lead : Lead) : List UInt8 → Option Nat × List UInt8
  | [] => (none, [])
  | b :: bs =>
    if lead.low ≤ b ∧ b ≤ lead.high then continued (extend lead.payload b) lead.more bs
    else (none, b :: bs)

theorem Lead.length_complete_le (lead : Lead) (bs : List UInt8) :
    (lead.complete bs).2.length ≤ bs.length := by
  cases bs with
  | nil => simp [complete]
  | cons b bs =>
    rw [complete]
    split
    · exact Nat.le_succ_of_le (length_continued_le _ _ _)
    · simp

def codePoint (b : UInt8) (bs : List UInt8) : Option Nat × List UInt8 :=
  if b < 0x80 then (some b.toNat, bs)
  else match Lead.of? b with
    | none => (none, bs)
    | some lead => lead.complete bs

theorem length_codePoint_le (b : UInt8) (bs : List UInt8) :
    (codePoint b bs).2.length ≤ bs.length := by
  rw [codePoint]
  split
  · simp
  · split
    · simp
    · exact Lead.length_complete_le _ _

def decode : List UInt8 → List Char
  | [] => []
  | b :: bs =>
    let found := codePoint b bs
    (found.1.map Char.ofNat).getD replacement :: decode found.2
termination_by bs => bs.length
decreasing_by
  have := length_codePoint_le b bs
  simp only [List.length_cons]
  omega

def ofBytes (bytes : List UInt8) : String :=
  String.ofList (decode bytes)

end ScriptEngine.Text
