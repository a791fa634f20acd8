import MethodContracts.Proofs.Expr.Negation

/-!
# Trees without their negations

The positive form of a tree is what is left of it when negation is disregarded: every negation
gives way to its operand, and every inequality is written as the equality. All the rest stays, with
payloads, offsets and the order of children.

Simplifying and negating keep the positive form. So nothing but negations is dropped or added, and
whatever can be told from the positive form, such as the number of stack markers, is the same
before and after.
-/

namespace MethodContracts.Node

/-! ## The positive form -/

/-- A node without regard to negation. -/
def disregard (offset : Option Offset) : Op Node → Node
  | .unary .not operand => operand
  | .binary .ne lhs rhs => ⟨.binary .eq lhs rhs, offset⟩
  | op => ⟨op, offset⟩

/-- The tree with every negation replaced by its operand and every inequality written as the
equality. -/
def positive (n : Node) : Node := n.fold fun n below => disregard n.offset below

theorem positive_eq (n : Node) : n.positive = disregard n.offset (n.op.map positive) := by
  rw [positive, fold_eq]
  rfl

@[simp] theorem positive_not (operand : Node) (offset : Option Offset) :
    positive ⟨.unary .not operand, offset⟩ = operand.positive :=
  positive_eq _

/-- An inequality and the equality have the same positive form. -/
theorem positive_ne (lhs rhs : Node) (offset : Option Offset) :
    positive ⟨.binary .ne lhs rhs, offset⟩ = positive ⟨.binary .eq lhs rhs, offset⟩ := by
  rw [positive_eq, positive_eq]
  rfl

/-! ## What simplifying and negating keep -/

theorem positive_of_simplifies {n n' : Node} (h : Simplifies n.op n') :
    n'.positive = n.positive := by
  obtain ⟨op, offset⟩ := n
  cases h with
  | double inner offset' => rw [positive_not, positive_not]
  | eq lhs rhs offset' => rw [positive_not, positive_ne]
  | ne lhs rhs offset' => rw [positive_not, positive_ne]

/-- **Simplifying changes nothing but negations.** -/
theorem positive_simplified (n : Node) : n.simplified.positive = n.positive := by
  refine rewrite_induct (motive := fun n n' => n'.positive = n.positive) ?_ ?_ n
  · intro n f hbelow
    rw [positive_eq, positive_eq, Op.map_map]
    exact congrArg (disregard n.offset) (Op.map_congr hbelow)
  · intro n n' n'' hn' hrule
    exact (positive_of_simplifies (negationRule_eq_some_iff.mp hrule)).trans hn'

theorem positive_negated (n : Node) : n.negated.positive = n.positive := by
  rw [negated, positive_simplified, negation, positive_not]

/-! ## Counting -/

/-- The nodes of one sort in a tree are those below the root, and the root if it is one. -/
theorem countP_preorder (p : Node → Bool) (n : Node) :
    n.preorder.countP p = (n.children.flatMap preorder).countP p + if p n then 1 else 0 := by
  rw [preorder_eq, List.countP_cons]

theorem countP_disregard (offset : Option Offset) (op : Op Node) :
    (disregard offset op).preorder.countP isMarker =
      (op.children.flatMap preorder).countP isMarker +
        if op.kind = .stackDuplicate then 1 else 0 := by
  rw [disregard.eq_def]
  split
  · simp [Op.children, Op.kind]
  · rw [countP_preorder]
    rfl
  · rw [countP_preorder]
    simp only [isMarker, decide_eq_true_eq]

/-- **The positive form has the stack markers of the tree.** -/
theorem markers_positive (n : Node) :
    n.positive.preorder.countP isMarker = n.preorder.countP isMarker := by
  induction n using induct with
  | step n ih =>
    have hbelow : ((n.op.children.map positive).flatMap preorder).countP isMarker =
        (n.children.flatMap preorder).countP isMarker := by
      rw [List.countP_flatMap, List.countP_flatMap, List.map_map]
      exact congrArg List.sum (List.map_congr_left ih)
    rw [positive_eq, countP_disregard, Op.children_map, Op.kind_map, hbelow, countP_preorder _ n]
    simp only [isMarker, decide_eq_true_eq]

theorem markers_simplified (n : Node) :
    n.simplified.preorder.countP isMarker = n.preorder.countP isMarker := by
  rw [← markers_positive, positive_simplified, markers_positive]

theorem markers_negated (n : Node) :
    n.negated.preorder.countP isMarker = n.preorder.countP isMarker := by
  rw [← markers_positive, positive_negated, markers_positive]

end MethodContracts.Node
