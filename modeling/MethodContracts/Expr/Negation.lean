import MethodContracts.Expr.Transform

/-!
# Negations

A legacy guard throws when its test holds, so the clause behind it is the negated test.
Simplifying removes double negations and turns a negated equality into its exact opposite.
Negated ordered comparisons stay as they are.
-/

namespace MethodContracts.Node

/-- A double negation `!!e` becomes `e`, and `!(a == b)` becomes `a != b` and conversely. The
flipped comparison keeps the offset of the comparison. -/
def negationRule (n : Node) : Option Node :=
  match n.op with
  | .unary .not ⟨.unary .not inner, _⟩ => some inner
  | .unary .not ⟨.binary op lhs rhs, offset⟩ =>
    op.exactNegation?.map fun flipped => ⟨.binary flipped lhs rhs, offset⟩
  | _ => none

/-- Simplifies the negations in a tree. -/
def simplify (n : Node) : Except ModelError Transformed := n.transform negationRule

/-- The negation of a tree, without offset. -/
def negation (n : Node) : Node := .unlocated (.unary .not n)

/-- The simplified negation of a tree. It is always a new tree. -/
def negate (n : Node) : Except ModelError Node := n.negation.simplify.map (·.node)

end MethodContracts.Node
