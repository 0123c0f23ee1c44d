import ScriptEngine.Code.Compiler
import ScriptEngine.Environment
import ScriptEngine.Error
import ScriptEngine.Heap.Operator

namespace ScriptEngine

structure Scene where
  env : Handle
  receiver : Value
  strict : Bool

abbrev HeapM := EStateM Fault Heap

namespace HeapM

def ask {α : Type} (f : Heap → Except Fault α) : HeapM α := fun h =>
  match f h with
  | .ok a => .ok a h
  | .error fault => .error fault h

def change (f : Heap → Except Fault Heap) : HeapM Unit := fun h =>
  match f h with
  | .ok h' => .ok () h'
  | .error fault => .error fault h

end HeapM

def Literal.value : Literal → Value
  | .number x => .number x
  | .string s => .string s
  | .boolean b => .boolean b
  | .null => .null

def UnaryOp.apply (h : Heap) (v : Value) : UnaryOp → Value
  | .negate => .number (-v.toNumber)
  | .not => .boolean !v.truthy
  | .typeof => .string (h.typeOf v)

def LogicalOp.decides (v : Value) : LogicalOp → Bool
  | .and => !v.truthy
  | .or => v.truthy

mutual

def Expr.meaning? (c : Scene) : Expr → Option (HeapM Value)
  | .literal l _ => some (pure l.value)
  | .name n _ => some (.ask (Environment.get · c.env n))
  | .this _ => some (pure c.receiver)
  | .binary op left right _ => do
    let a ← meaning? c left
    let b ← meaning? c right
    some do
      let l ← a
      let r ← b
      return (← get).binary op l r
  | .logical op left right _ => do
    let a ← meaning? c left
    let b ← meaning? c right
    some do
      let l ← a
      if op.decides l then return l else b
  | .unary op operand _ => do
    let a ← meaning? c operand
    some do
      let v ← a
      return op.apply (← get) v
  | .assign (.name n _) value _ => do
    let a ← meaning? c value
    some do
      let v ← a
      .change (Environment.assign · c.env n v c.strict)
      return v
  | .assign (.field target n _) value _ => do
    let a ← meaning? c target
    let b ← meaning? c value
    some do
      let t ← a
      let v ← b
      .change (·.setProperty t n v)
      return v
  | .assign (.index target key _) value _ => do
    let a ← meaning? c target
    let b ← meaning? c key
    let d ← meaning? c value
    some do
      let t ← a
      let k ← b
      let v ← d
      let text := (← get).display k
      .change (·.setProperty t text v)
      return v
  | .object members _ => do
    let fill ← members? c members
    some do
      let a ← modifyGet (·.allocObject (.of .plain))
      fill (.object a)
      return .object a
  | .group inner _ => meaning? c inner
  | .index target key _ => do
    let a ← meaning? c target
    let b ← meaning? c key
    some do
      let t ← a
      let k ← b
      let text := (← get).display k
      .ask (·.getProperty t text)
  | .field target n _ => do
    let a ← meaning? c target
    some do
      let t ← a
      .ask (·.getProperty t n)
  | .assign _ _ _ | .call _ _ _ | .function _ => none

def Expr.members? (c : Scene) : List (String × Expr) → Option (Value → HeapM Unit)
  | [] => some fun _ => pure ()
  | (n, value) :: rest => do
    let a ← meaning? c value
    let fill ← members? c rest
    some fun target => do
      let v ← a
      .change (·.setProperty target n v)
      fill target

end

def Stmt.bindings? (c : Scene) : List (String × Option Expr) → Option (HeapM Unit)
  | [] => some (pure ())
  | (name, some value) :: rest => do
    let a ← value.meaning? c
    let b ← bindings? c rest
    some do
      let v ← a
      .change (Environment.define · c.env name v)
      b
  | (name, none) :: rest => do
    let b ← bindings? c rest
    some do
      .change (Environment.declare · c.env name)
      b

inductive Ending where
  | done (heap : Heap) (completion : Value)
  | failed (error : Error) (heap : Heap)

def Ending.error? : Ending → Option Error
  | .done _ _ => none
  | .failed error _ => some error

/-- A statement runs from a heap and the completion value so far, which is the value of the last
expression statement. -/
inductive Stmt.Runs (c : Scene) : Stmt → Heap → Value → Ending → Prop
  | var {bs : List (String × Option Expr)} {span : Span} {m : HeapM Unit} {h h' : Heap} {k : Value} :
      bindings? c bs = some m → m h = .ok () h' → Runs c (.var bs span) h k (.done h' k)
  | var_fails {bs : List (String × Option Expr)} {span : Span} {m : HeapM Unit} {h h' : Heap} {k : Value}
      {fault : Fault} :
      bindings? c bs = some m → m h = .error fault h' →
        Runs c (.var bs span) h k (.failed (.fault fault) h')
  | expr {x : Expr} {m : HeapM Value} {h h' : Heap} {k v : Value} :
      x.meaning? c = some m → m h = .ok v h' → Runs c (.expr x) h k (.done h' v)
  | expr_fails {x : Expr} {m : HeapM Value} {h h' : Heap} {k : Value} {fault : Fault} :
      x.meaning? c = some m → m h = .error fault h' → Runs c (.expr x) h k (.failed (.fault fault) h')
  | block_nil {span : Span} {h : Heap} {k : Value} : Runs c (.block [] span) h k (.done h k)
  | block_cons {item : Stmt} {rest : List Stmt} {span : Span} {h h₁ : Heap} {k k₁ : Value} {r : Ending} :
      Runs c item h k (.done h₁ k₁) → Runs c (.block rest span) h₁ k₁ r →
        Runs c (.block (item :: rest) span) h k r
  | block_fails {item : Stmt} {rest : List Stmt} {span : Span} {h h' : Heap} {k : Value} {error : Error} :
      Runs c item h k (.failed error h') → Runs c (.block (item :: rest) span) h k (.failed error h')
  | cond_yes {x : Expr} {yes : Stmt} {no : Option Stmt} {span : Span} {m : HeapM Value} {h h₁ : Heap}
      {k v : Value} {r : Ending} :
      x.meaning? c = some m → m h = .ok v h₁ → v.truthy = true → Runs c yes h₁ k r →
        Runs c (.cond x yes no span) h k r
  | cond_no {x : Expr} {yes no : Stmt} {span : Span} {m : HeapM Value} {h h₁ : Heap} {k v : Value}
      {r : Ending} :
      x.meaning? c = some m → m h = .ok v h₁ → v.truthy = false → Runs c no h₁ k r →
        Runs c (.cond x yes (some no) span) h k r
  | cond_skip {x : Expr} {yes : Stmt} {span : Span} {m : HeapM Value} {h h₁ : Heap} {k v : Value} :
      x.meaning? c = some m → m h = .ok v h₁ → v.truthy = false →
        Runs c (.cond x yes none span) h k (.done h₁ k)
  | cond_fails {x : Expr} {yes : Stmt} {no : Option Stmt} {span : Span} {m : HeapM Value} {h h' : Heap}
      {k : Value} {fault : Fault} :
      x.meaning? c = some m → m h = .error fault h' →
        Runs c (.cond x yes no span) h k (.failed (.fault fault) h')
  | loop_ends {x : Expr} {body : Stmt} {span : Span} {m : HeapM Value} {h h₁ : Heap} {k v : Value} :
      x.meaning? c = some m → m h = .ok v h₁ → v.truthy = false →
        Runs c (.loop x body span) h k (.done h₁ k)
  | loop_again {x : Expr} {body : Stmt} {span : Span} {m : HeapM Value} {h h₁ h₂ : Heap} {k k₂ v : Value}
      {r : Ending} :
      x.meaning? c = some m → m h = .ok v h₁ → v.truthy = true → Runs c body h₁ k (.done h₂ k₂) →
        Runs c (.loop x body span) h₂ k₂ r → Runs c (.loop x body span) h k r
  | loop_breaks {x : Expr} {body : Stmt} {span : Span} {m : HeapM Value} {h h₁ h' : Heap} {k v : Value}
      {error : Error} :
      x.meaning? c = some m → m h = .ok v h₁ → v.truthy = true → Runs c body h₁ k (.failed error h') →
        Runs c (.loop x body span) h k (.failed error h')
  | loop_fails {x : Expr} {body : Stmt} {span : Span} {m : HeapM Value} {h h' : Heap} {k : Value}
      {fault : Fault} :
      x.meaning? c = some m → m h = .error fault h' →
        Runs c (.loop x body span) h k (.failed (.fault fault) h')
  | throw {x : Expr} {span : Span} {m : HeapM Value} {h h' : Heap} {k v : Value} :
      x.meaning? c = some m → m h = .ok v h' →
        Runs c (.throw x span) h k (.failed (.thrown v (h'.display v)) h')
  | throw_fails {x : Expr} {span : Span} {m : HeapM Value} {h h' : Heap} {k : Value} {fault : Fault} :
      x.meaning? c = some m → m h = .error fault h' →
        Runs c (.throw x span) h k (.failed (.fault fault) h')
  | empty {span : Span} {h : Heap} {k : Value} : Runs c (.empty span) h k (.done h k)

def HeapM.onward {α : Type} (m : HeapM α) (h : Heap) (next : α → Heap → Option Ending) : Option Ending :=
  match m h with
  | .ok a h' => next a h'
  | .error fault h' => some (.failed (.fault fault) h')

def Stmt.ending? (c : Scene) : Nat → Stmt → Heap → Value → Option Ending
  | _ + 1, .var bs _, h, k => (bindings? c bs).bind fun m => m.onward h fun _ h' => some (.done h' k)
  | _ + 1, .expr x, h, _ => (x.meaning? c).bind fun m => m.onward h fun v h' => some (.done h' v)
  | _ + 1, .block [] _, h, k => some (.done h k)
  | fuel + 1, .block (item :: rest) span, h, k =>
    match ending? c fuel item h k with
    | some (.done h₁ k₁) => ending? c fuel (.block rest span) h₁ k₁
    | failed => failed
  | fuel + 1, .cond x yes no _, h, k =>
    (x.meaning? c).bind fun m => m.onward h fun v h₁ =>
      match v.truthy, no with
      | true, _ => ending? c fuel yes h₁ k
      | false, some no => ending? c fuel no h₁ k
      | false, none => some (.done h₁ k)
  | fuel + 1, .loop x body span, h, k =>
    (x.meaning? c).bind fun m => m.onward h fun v h₁ =>
      match v.truthy with
      | true =>
        match ending? c fuel body h₁ k with
        | some (.done h₂ k₂) => ending? c fuel (.loop x body span) h₂ k₂
        | failed => failed
      | false => some (.done h₁ k)
  | _ + 1, .throw x _, h, _ =>
    (x.meaning? c).bind fun m => m.onward h fun v h' => some (.failed (.thrown v (h'.display v)) h')
  | _ + 1, .empty _, h, k => some (.done h k)
  | _, _, _, _ => none

theorem HeapM.of_onward {α : Type} {x : Option (HeapM α)} {h : Heap} {next : α → Heap → Option Ending} {r : Ending}
    (hr : (x.bind fun m => m.onward h next) = some r) :
    ∃ m, x = some m ∧ ((∃ a h', m h = .ok a h' ∧ next a h' = some r) ∨
      ∃ fault h', m h = .error fault h' ∧ r = .failed (.fault fault) h') := by
  obtain ⟨m, hx, hm⟩ := Option.bind_eq_some_iff.mp hr
  refine ⟨m, hx, ?_⟩
  unfold onward at hm
  split at hm
  · exact .inl ⟨_, _, ‹_›, hm⟩
  · exact .inr ⟨_, _, ‹_›, (Option.some.inj hm).symm⟩

theorem Stmt.runs_of_ending? {c : Scene} {fuel : Nat} {s : Stmt} {h : Heap} {k : Value} {r : Ending}
    (hr : s.ending? c fuel h k = some r) : s.Runs c h k r := by
  induction fuel generalizing s h k r with
  | zero => simp [ending?] at hr
  | succ fuel ih =>
    cases s with
    | var bs span =>
      obtain ⟨m, hm, ⟨_, h', hok, hdone⟩ | ⟨fault, h', hfails, rfl⟩⟩ := HeapM.of_onward hr
      · cases hdone
        exact .var hm hok
      · exact .var_fails hm hfails
    | expr x =>
      obtain ⟨m, hm, ⟨v, h', hok, hdone⟩ | ⟨fault, h', hfails, rfl⟩⟩ := HeapM.of_onward hr
      · cases hdone
        exact .expr hm hok
      · exact .expr_fails hm hfails
    | block items span =>
      cases items with
      | nil =>
        cases hr
        exact .block_nil
      | cons item rest =>
        simp only [ending?] at hr
        cases hi : ending? c fuel item h k with
        | none => simp [hi] at hr
        | some first =>
          cases first with
          | done h₁ k₁ => exact .block_cons (ih hi) (ih (by simpa only [hi] using hr))
          | failed error h' =>
            simp only [hi] at hr
            cases hr
            exact .block_fails (ih hi)
    | cond x yes no span =>
      obtain ⟨m, hm, ⟨v, h₁, hok, hnext⟩ | ⟨fault, h', hfails, rfl⟩⟩ := HeapM.of_onward hr
      · cases ht : v.truthy with
        | true => exact .cond_yes hm hok ht (ih (by simpa only [ht] using hnext))
        | false =>
          simp only [ht] at hnext
          cases no with
          | some no => exact .cond_no hm hok ht (ih hnext)
          | none =>
            cases hnext
            exact .cond_skip hm hok ht
      · exact .cond_fails hm hfails
    | loop x body span =>
      obtain ⟨m, hm, ⟨v, h₁, hok, hnext⟩ | ⟨fault, h', hfails, rfl⟩⟩ := HeapM.of_onward hr
      · cases ht : v.truthy with
        | true =>
          simp only [ht] at hnext
          cases hb : ending? c fuel body h₁ k with
          | none => simp [hb] at hnext
          | some first =>
            cases first with
            | done h₂ k₂ => exact .loop_again hm hok ht (ih hb) (ih (by simpa only [hb] using hnext))
            | failed error h' =>
              simp only [hb] at hnext
              cases hnext
              exact .loop_breaks hm hok ht (ih hb)
        | false =>
          simp only [ht] at hnext
          cases hnext
          exact .loop_ends hm hok ht
      · exact .loop_fails hm hfails
    | throw x span =>
      obtain ⟨m, hm, ⟨v, h', hok, hdone⟩ | ⟨fault, h', hfails, rfl⟩⟩ := HeapM.of_onward hr
      · cases hdone
        exact .throw hm hok
      · exact .throw_fails hm hfails
    | empty span =>
      cases hr
      exact .empty
    | _ => simp [ending?] at hr

end ScriptEngine
