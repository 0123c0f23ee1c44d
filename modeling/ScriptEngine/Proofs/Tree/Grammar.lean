import ScriptEngine.Decimal.Reader
import ScriptEngine.Token
import ScriptEngine.Tree

/-!
The grammar of the language, as a relation between tokens and the trees that they stand for. Every
token has its place in the tree, apart from the semicolon that may end a statement and the comma that
may stand behind the last entry of an object.
-/

namespace ScriptEngine

def Span.Bounds (s : Span) (ts : List Token) : Prop :=
  ∃ first last, ts.head? = some first ∧ ts.getLast? = some last ∧ s = first.span.through last.span

def LogicalOp.rank : LogicalOp → Nat
  | .or => 1
  | .and => 2

def BinaryOp.rank : BinaryOp → Nat
  | .equal | .notEqual | .strictEqual | .strictNotEqual => 3
  | .less | .lessEqual | .greater | .greaterEqual => 4
  | .add | .sub => 5
  | .mul | .div | .mod => 6

/-- The rank of an expression; a call, an index, a member and whatever needs no operator binds most
tightly. -/
def Expr.rank : Expr → Nat
  | .assign .. => 0
  | .logical op .. => op.rank
  | .binary op .. => op.rank
  | .unary .. => 7
  | .literal .. | .name .. | .this .. | .call .. | .object .. | .group .. | .index .. | .field ..
  | .function .. => 8

def LogicalOp.mark : LogicalOp → Mark
  | .or => .doublePipe
  | .and => .doubleAmpersand

def BinaryOp.mark : BinaryOp → Mark
  | .equal => .equalEqual
  | .notEqual => .bangEqual
  | .strictEqual => .equalEqualEqual
  | .strictNotEqual => .bangEqualEqual
  | .less => .less
  | .lessEqual => .lessEqual
  | .greater => .greater
  | .greaterEqual => .greaterEqual
  | .add => .plus
  | .sub => .minus
  | .mul => .star
  | .div => .slash
  | .mod => .percent

def UnaryOp.kind : UnaryOp → TokenKind
  | .negate => .mark .minus
  | .not => .mark .bang
  | .typeof => .keyword .typeofWord

inductive Expr.Assignable : Expr → Prop
  | name (name : String) (s : Span) : Assignable (.name name s)
  | index (target index : Expr) (s : Span) : Assignable (.index target index s)
  | field (target : Expr) (name : String) (s : Span) : Assignable (.field target name s)

def Stmt.dangles : Stmt → Bool
  | .cond _ _ none _ => true
  | .cond _ _ (some no) _ => no.dangles
  | .loop _ body _ => body.dangles
  | .var .. | .function .. | .expr .. | .block .. | .return .. | .throw .. | .try .. | .empty .. => false

namespace Grammar

def Names (t : Token) (name : String) : Prop :=
  t.kind = .identifier ∧ t.lexeme = name

def NamesProperty (t : Token) (name : String) : Prop :=
  (t.kind = .identifier ∨ (∃ k, t.kind = .keyword k) ∨ t.kind = .string ∨ t.kind = .number) ∧ t.lexeme = name

inductive Ending : List Token → Prop
  | none : Ending []
  | semicolon {t : Token} : t.kind = .mark .semicolon → Ending [t]

variable {α : Type}

inductive Sequence (R : List Token → α → Prop) : List Token → List α → Prop
  | nil : Sequence R [] []
  | cons {ts us : List Token} {a : α} {as : List α} : R ts a → Sequence R us as → Sequence R (ts ++ us) (a :: as)

inductive Separated (R : List Token → α → Prop) : List Token → List α → Prop
  | one {ts : List Token} {a : α} : R ts a → Separated R ts [a]
  | cons {ts us : List Token} {comma : Token} {a : α} {as : List α} :
      R ts a → comma.kind = .mark .comma → Separated R us as → Separated R (ts ++ comma :: us) (a :: as)

inductive Listed (R : List Token → α → Prop) : List Token → List α → Prop
  | none : Listed R [] []
  | some {ts : List Token} {as : List α} : Separated R ts as → Listed R ts as

inductive Trailing (R : List Token → α → Prop) : List Token → List α → Prop
  | plain {ts : List Token} {as : List α} : Listed R ts as → Trailing R ts as
  | comma {ts : List Token} {comma : Token} {as : List α} :
      Separated R ts as → comma.kind = .mark .comma → Trailing R (ts ++ [comma]) as

inductive Parameter : List Token → String → Prop
  | intro {t : Token} {name : String} : Names t name → Parameter [t] name

inductive FunctionName : List Token → Option String → Prop
  | none : FunctionName [] none
  | some {t : Token} {name : String} : Names t name → FunctionName [t] (some name)

mutual

inductive Expression : List Token → Expr → Prop
  | number {t : Token} {x : Float} {s : Span} : t.kind = .number → Decimal.read? t.lexeme = some x → s.Bounds [t] →
      Expression [t] (.literal (.number x) s)
  | string {t : Token} {s : Span} : t.kind = .string → s.Bounds [t] → Expression [t] (.literal (.string t.lexeme) s)
  | true {t : Token} {s : Span} : t.kind = .keyword .trueWord → s.Bounds [t] →
      Expression [t] (.literal (.boolean Bool.true) s)
  | false {t : Token} {s : Span} : t.kind = .keyword .falseWord → s.Bounds [t] →
      Expression [t] (.literal (.boolean Bool.false) s)
  | null {t : Token} {s : Span} : t.kind = .keyword .nullWord → s.Bounds [t] → Expression [t] (.literal .null s)
  | this {t : Token} {s : Span} : t.kind = .keyword .thisWord → s.Bounds [t] → Expression [t] (.this s)
  | name {t : Token} {name : String} {s : Span} : Names t name → s.Bounds [t] → Expression [t] (.name name s)
  | function {ts : List Token} {decl : FunctionDecl} : Function ts decl → Expression ts (.function decl)
  | group {ts : List Token} {first last : Token} {inner : Expr} {s : Span} :
      first.kind = .mark .parenOpen → Expression ts inner → last.kind = .mark .parenClose →
      s.Bounds (first :: ts ++ [last]) → Expression (first :: ts ++ [last]) (.group inner s)
  | object {ts : List Token} {first last : Token} {entries : List (String × Expr)} {s : Span} :
      first.kind = .mark .braceOpen → Trailing Entry ts entries → last.kind = .mark .braceClose →
      s.Bounds (first :: ts ++ [last]) → Expression (first :: ts ++ [last]) (.object entries s)
  | call {ts us : List Token} {first last : Token} {callee : Expr} {args : List Expr} {s : Span} :
      Expression ts callee → callee.rank = 8 → first.kind = .mark .parenOpen → Listed Expression us args →
      last.kind = .mark .parenClose → s.Bounds (ts ++ (first :: us ++ [last])) →
      Expression (ts ++ (first :: us ++ [last])) (.call callee args s)
  | index {ts us : List Token} {first last : Token} {target index : Expr} {s : Span} :
      Expression ts target → target.rank = 8 → first.kind = .mark .bracketOpen → Expression us index →
      last.kind = .mark .bracketClose → s.Bounds (ts ++ (first :: us ++ [last])) →
      Expression (ts ++ (first :: us ++ [last])) (.index target index s)
  | field {ts : List Token} {dot last : Token} {target : Expr} {name : String} {s : Span} :
      Expression ts target → target.rank = 8 → dot.kind = .mark .dot → NamesProperty last name →
      s.Bounds (ts ++ [dot, last]) → Expression (ts ++ [dot, last]) (.field target name s)
  | unary {ts : List Token} {first : Token} {op : UnaryOp} {operand : Expr} {s : Span} :
      first.kind = op.kind → Expression ts operand → 7 ≤ operand.rank → s.Bounds (first :: ts) →
      Expression (first :: ts) (.unary op operand s)
  | binary {ts us : List Token} {t : Token} {op : BinaryOp} {left right : Expr} {s : Span} :
      Expression ts left → op.rank ≤ left.rank → t.kind = .mark op.mark → Expression us right →
      op.rank < right.rank → s.Bounds (ts ++ t :: us) → Expression (ts ++ t :: us) (.binary op left right s)
  | logical {ts us : List Token} {t : Token} {op : LogicalOp} {left right : Expr} {s : Span} :
      Expression ts left → op.rank ≤ left.rank → t.kind = .mark op.mark → Expression us right →
      op.rank < right.rank → s.Bounds (ts ++ t :: us) → Expression (ts ++ t :: us) (.logical op left right s)
  | assign {ts us : List Token} {t : Token} {target value : Expr} {s : Span} :
      Expression ts target → target.Assignable → t.kind = .mark .assign → Expression us value →
      s.Bounds (ts ++ t :: us) → Expression (ts ++ t :: us) (.assign target value s)

inductive Entry : List Token → String × Expr → Prop
  | intro {ts : List Token} {key colon : Token} {name : String} {value : Expr} :
      NamesProperty key name → colon.kind = .mark .colon → Expression ts value → Entry (key :: colon :: ts) (name, value)

inductive Binding : List Token → String × Option Expr → Prop
  | plain {t : Token} {name : String} : Names t name → Binding [t] (name, none)
  | value {ts : List Token} {t equals : Token} {name : String} {value : Expr} :
      Names t name → equals.kind = .mark .assign → Expression ts value → Binding (t :: equals :: ts) (name, some value)

inductive Block : List Token → List Stmt → Prop
  | intro {ts : List Token} {first last : Token} {items : List Stmt} :
      first.kind = .mark .braceOpen → Sequence Item ts items → last.kind = .mark .braceClose →
      Block (first :: ts ++ [last]) items

inductive Function : List Token → FunctionDecl → Prop
  | intro {ns ps bs : List Token} {first parenOpen parenClose : Token} {decl : FunctionDecl} :
      first.kind = .keyword .functionWord → FunctionName ns decl.name →
      parenOpen.kind = .mark .parenOpen → Listed Parameter ps decl.params → parenClose.kind = .mark .parenClose →
      Block bs decl.body → decl.span.Bounds (first :: ns ++ (parenOpen :: ps ++ parenClose :: bs)) →
      Function (first :: ns ++ (parenOpen :: ps ++ parenClose :: bs)) decl

/-- A statement, and the semicolon that may stand behind it: its own, or that of the statement it
ends with. -/
inductive Statement : List Token → List Token → Stmt → Prop
  | var {ts ending : List Token} {first : Token} {bindings : List (String × Option Expr)} {s : Span} :
      first.kind = .keyword .varWord → Separated Binding ts bindings → Ending ending → s.Bounds (first :: ts) →
      Statement (first :: ts) ending (.var bindings s)
  | function {ts : List Token} {decl : FunctionDecl} : Function ts decl → decl.name ≠ none →
      Statement ts [] (.function decl)
  | expr {ts ending : List Token} {value : Expr} : Expression ts value →
      (∀ t, ts.head? = some t → t.kind ≠ .keyword .functionWord ∧ t.kind ≠ .mark .braceOpen) →
      Ending ending → Statement ts ending (.expr value)
  | block {ts : List Token} {items : List Stmt} {s : Span} : Block ts items → s.Bounds ts →
      Statement ts [] (.block items s)
  | cond {ts us ending : List Token} {first parenOpen parenClose : Token} {test : Expr} {yes : Stmt} {s : Span} :
      first.kind = .keyword .ifWord → parenOpen.kind = .mark .parenOpen → Expression ts test →
      parenClose.kind = .mark .parenClose → Statement us ending yes →
      s.Bounds (first :: parenOpen :: ts ++ parenClose :: us) →
      Statement (first :: parenOpen :: ts ++ parenClose :: us) ending (.cond test yes none s)
  | condElse {ts us vs ending : List Token} {first parenOpen parenClose other : Token} {test : Expr} {yes no : Stmt}
      {s : Span} :
      first.kind = .keyword .ifWord → parenOpen.kind = .mark .parenOpen → Expression ts test →
      parenClose.kind = .mark .parenClose → Item us yes → yes.dangles = Bool.false → other.kind = .keyword .elseWord →
      Statement vs ending no → s.Bounds (first :: parenOpen :: ts ++ parenClose :: us ++ other :: vs) →
      Statement (first :: parenOpen :: ts ++ parenClose :: us ++ other :: vs) ending (.cond test yes (some no) s)
  | loop {ts us ending : List Token} {first parenOpen parenClose : Token} {test : Expr} {body : Stmt} {s : Span} :
      first.kind = .keyword .whileWord → parenOpen.kind = .mark .parenOpen → Expression ts test →
      parenClose.kind = .mark .parenClose → Statement us ending body →
      s.Bounds (first :: parenOpen :: ts ++ parenClose :: us) →
      Statement (first :: parenOpen :: ts ++ parenClose :: us) ending (.loop test body s)
  | returnNothing {ending : List Token} {first : Token} {s : Span} : first.kind = .keyword .returnWord →
      Ending ending → s.Bounds [first] → Statement [first] ending (.return none s)
  | return {ts ending : List Token} {first : Token} {value : Expr} {s : Span} : first.kind = .keyword .returnWord →
      Expression ts value → Ending ending → s.Bounds (first :: ts) →
      Statement (first :: ts) ending (.return (some value) s)
  | throw {ts ending : List Token} {first : Token} {value : Expr} {s : Span} : first.kind = .keyword .throwWord →
      Expression ts value → Ending ending → s.Bounds (first :: ts) → Statement (first :: ts) ending (.throw value s)
  | try {bs hs : List Token} {first word parenOpen t parenClose : Token} {body handler : List Stmt} {name : String}
      {s : Span} :
      first.kind = .keyword .tryWord → Block bs body → word.kind = .keyword .catchWord →
      parenOpen.kind = .mark .parenOpen → Names t name → parenClose.kind = .mark .parenClose → Block hs handler →
      s.Bounds (first :: bs ++ (word :: parenOpen :: t :: parenClose :: hs)) →
      Statement (first :: bs ++ (word :: parenOpen :: t :: parenClose :: hs)) [] (.try body name handler s)
  | empty {t : Token} {s : Span} : t.kind = .mark .semicolon → s.Bounds [t] → Statement [t] [] (.empty s)

inductive Item : List Token → Stmt → Prop
  | intro {ts ending : List Token} {x : Stmt} : Statement ts ending x → Item (ts ++ ending) x

end

end Grammar

end ScriptEngine
