import MethodContracts.Proofs.Expr.Negation

/-!
# What expressions mean

An interpretation gives every operation a value from the values of its children; offsets do not
count. Of the operations only three are tied to each other: negating twice changes nothing, and
an inequality is the negation of the equality. Ordered comparisons, in particular, may be
anything.

Simplifying negations keeps the value of a tree under every such interpretation, and negating
negates it.
-/

namespace MethodContracts

/-- What operations mean, over the values of their children. -/
structure Interpretation (V : Type) where
  value : Op V → V
  /-- the meaning of a negation -/
  not : V → V
  value_not : ∀ v, value (.unary .not v) = not v
  not_not : ∀ v, not (not v) = v
  value_ne : ∀ a b, value (.binary .ne a b) = not (value (.binary .eq a b))

namespace Interpretation

variable {V : Type} (I : Interpretation V)

/-- The value of a tree. -/
def eval (n : Node) : V := n.fold fun _ below => I.value below

/-- The value depends on the operation and on the values of the children. -/
theorem eval_eq (n : Node) : I.eval n = I.value (n.op.map I.eval) := by
  rw [eval, Node.fold_eq]
  rfl

@[simp] theorem eval_not (n : Node) (offset : Option Offset) :
    I.eval ⟨.unary .not n, offset⟩ = I.not (I.eval n) := by
  rw [eval_eq]
  exact I.value_not _

@[simp] theorem eval_ne (a b : Node) (offset offset' : Option Offset) :
    I.eval ⟨.binary .ne a b, offset⟩ = I.not (I.eval ⟨.binary .eq a b, offset'⟩) := by
  rw [eval_eq, eval_eq]
  exact I.value_ne _ _

/-- What the rule puts in the place of an operation has the same value. -/
theorem eval_of_simplifies {n n' : Node} (h : Node.Simplifies n.op n') : I.eval n' = I.eval n := by
  obtain ⟨op, offset⟩ := n
  cases h with
  | double inner offset => rw [eval_not, eval_not, I.not_not]
  | eq lhs rhs offset => rw [eval_not, I.eval_ne lhs rhs offset offset]
  | ne lhs rhs offset => rw [eval_not, I.eval_ne lhs rhs offset offset, I.not_not]

/-- Simplifying keeps the value, whatever surrounds the negations. -/
theorem eval_simplified (n : Node) : I.eval n.simplified = I.eval n := by
  refine Node.rewrite_induct (motive := fun n n' => I.eval n' = I.eval n)
    (fun n f hbelow => ?_) (fun n n' n'' hn' hrule => ?_) n
  · rw [eval_eq, eval_eq, Op.map_map]
    exact congrArg I.value (Op.map_congr hbelow)
  · rw [I.eval_of_simplifies (Node.negationRule_eq_some_iff.mp hrule), hn']

/-- **Simplifying keeps the meaning of a tree, and negating negates it**, in every
interpretation. -/
theorem eval_simplify_negate {n : Node} (h : n.Recognized) :
    (∃ simpler, n.simplify = .ok simpler ∧ I.eval simpler.node = I.eval n) ∧
      ∃ opposite, n.negate = .ok opposite ∧ I.eval opposite = I.not (I.eval n) := by
  obtain ⟨changed, hsimplify⟩ := Node.simplify_of_recognized h
  refine ⟨⟨_, hsimplify, I.eval_simplified n⟩, ⟨_, Node.negate_of_recognized h, ?_⟩⟩
  rw [Node.negated, eval_simplified, Node.negation, eval_not]

/-- Truth values, where no ordered comparison holds, as with an operand that is no number. -/
def unordered : Interpretation Bool where
  value
    | .literal (.bool b) => b
    | .unary .not v => !v
    | .binary .eq a b => a == b
    | .binary .ne a b => a != b
    | .call _ args => args.all id
    | _ => false
  not v := !v
  value_not _ := rfl
  not_not := Bool.not_not
  value_ne _ _ := rfl

/-- The negation of `x < y` is not `x >= y`, and `!!(x == y)` is `x == y` inside a call too. -/
theorem eval_simplify_negate_unordered :
    let x : Node := .unlocated (.ref (.argument 0 (some "x")))
    let y : Node := .unlocated (.ref (.argument 1 (some "y")))
    let less : Node := .unlocated (.binary .lt x y)
    let equal : Node := .unlocated (.binary .eq x y)
    let n : Node := .unlocated (.call ⟨"T", "f"⟩ [less.negation, equal.negation.negation])
    n.Recognized ∧
      (∃ simpler, n.simplify = .ok simpler ∧ unordered.eval simpler.node = true) ∧
      ∃ opposite, n.negate = .ok opposite ∧ unordered.eval opposite = false := by
  intro x y less equal n
  have hn : n.Recognized := by decide
  have hvalue : unordered.eval n = true := by decide
  obtain ⟨⟨simpler, hsimplify, hsimpler⟩, opposite, hnegate, hopposite⟩ :=
    eval_simplify_negate unordered hn
  exact ⟨hn, ⟨simpler, hsimplify, hsimpler.trans hvalue⟩,
    opposite, hnegate, hopposite.trans (congrArg unordered.not hvalue)⟩

end Interpretation

end MethodContracts
