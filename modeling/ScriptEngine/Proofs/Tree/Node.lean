import ScriptEngine.Tree.Held

namespace ScriptEngine

/-- A statement knows whether it stands in the body of a function. -/
inductive Node where
  | expr (x : Expr)
  | stmt (inFunction : Bool) (x : Stmt)
  | decl (x : FunctionDecl)

namespace Node

def span : Node → Span
  | .expr x => x.span
  | .stmt _ x => x.span
  | .decl x => x.span

def children : Node → List Node
  | .expr (.literal ..) | .expr (.name ..) | .expr (.this ..) => []
  | .expr (.unary _ x _) | .expr (.group x _) | .expr (.field x _ _) => [.expr x]
  | .expr (.binary _ x y _) | .expr (.logical _ x y _) | .expr (.assign x y _) | .expr (.index x y _) =>
    [.expr x, .expr y]
  | .expr (.call callee args _) => .expr callee :: args.map .expr
  | .expr (.object entries _) => entries.map fun entry => .expr entry.2
  | .expr (.function x) | .stmt _ (.function x) => [.decl x]
  | .stmt _ (.var bindings _) => bindings.flatMap fun binding => binding.2.toList.map .expr
  | .stmt _ (.expr x) | .stmt _ (.throw x _) => [.expr x]
  | .stmt b (.block items _) => items.map (.stmt b)
  | .stmt b (.cond test yes no _) => .expr test :: .stmt b yes :: no.toList.map (.stmt b)
  | .stmt b (.loop test body _) => [.expr test, .stmt b body]
  | .stmt _ (.return value _) => value.toList.map .expr
  | .stmt b (.try body _ handler _) => body.map (.stmt b) ++ handler.map (.stmt b)
  | .stmt _ (.empty _) => []
  | .decl ⟨_, _, body, _⟩ => body.map (.stmt true)

inductive Within : Node → Node → Prop
  | self (n : Node) : Within n n
  | deeper {m c n : Node} : Within m c → c ∈ n.children → Within m n

theorem Within.trans {k m n : Node} (hkm : k.Within m) (hmn : m.Within n) : k.Within n := by
  induction hmn with
  | self => exact hkm
  | deeper _ hc ih => exact .deeper ih hc

def Throughout (P : Node → Prop) (n : Node) : Prop :=
  ∀ m, m.Within n → P m

theorem Throughout.child {P : Node → Prop} {n c : Node} (h : n.Throughout P) (hc : c ∈ n.children) : c.Throughout P :=
  fun m hm => h m (.deeper hm hc)

def allDown (p : Node → Bool) : Nat → Node → Bool
  | 0, _ => false
  | k + 1, n => p n && n.children.all (allDown p k)

theorem throughout_of_allDown {p : Node → Bool} {k : Nat} {n : Node} (h : n.allDown p k = true) :
    n.Throughout fun m => p m = true := by
  induction k generalizing n with
  | zero => cases h
  | succ k ih =>
    obtain ⟨hn, hchildren⟩ := Bool.and_eq_true_iff.mp h
    intro m hm
    cases hm with
    | self => exact hn
    | deeper hmc hc => exact ih (List.all_eq_true.mp hchildren _ hc) m hmc

end Node

namespace SyntaxTree

def Contains (tree : SyntaxTree) (n : Node) : Prop :=
  ∃ item ∈ tree.items, n.Within (.stmt false item)

end SyntaxTree

end ScriptEngine
