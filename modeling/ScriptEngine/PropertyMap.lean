namespace ScriptEngine

abbrev PropertyMap (α : Type) := List (String × α)

namespace PropertyMap

variable {α : Type}

def get? (name : String) : PropertyMap α → Option α
  | [] => none
  | (n, a) :: m => if n = name then some a else get? name m

def has (name : String) (m : PropertyMap α) : Bool :=
  (get? name m).isSome

def insert (name : String) (value : α) : PropertyMap α → PropertyMap α
  | [] => [(name, value)]
  | (n, a) :: m => if n = name then (n, value) :: m else (n, a) :: insert name value m

def erase (name : String) : PropertyMap α → PropertyMap α
  | [] => []
  | (n, a) :: m => if n = name then m else (n, a) :: erase name m

def names (m : PropertyMap α) : List String :=
  m.map (·.1)

theorem get?_insert (name other : String) (value : α) (m : PropertyMap α) :
    get? other (insert name value m) = if name = other then some value else get? other m := by
  induction m with
  | nil => rfl
  | cons p m ih =>
    obtain ⟨n, a⟩ := p
    by_cases hn : n = name
    · subst hn
      by_cases ho : n = other <;> simp [insert, get?, ho]
    · by_cases ho : n = other
      · subst ho
        have hm : ¬ name = n := fun h => hn h.symm
        simp [insert, get?, hn, hm]
      · simp [insert, get?, hn, ho, ih]

theorem names_insert (name : String) (value : α) (m : PropertyMap α) :
    names (insert name value m) = if has name m then names m else names m ++ [name] := by
  induction m with
  | nil => rfl
  | cons p m ih =>
    obtain ⟨n, a⟩ := p
    by_cases hn : n = name
    · simp [insert, names, has, get?, hn]
    · simp only [names, has] at ih
      by_cases hh : (get? name m).isSome = true <;>
        simp [insert, names, has, get?, hn, hh] at ih ⊢ <;> exact ih

end PropertyMap

end ScriptEngine
