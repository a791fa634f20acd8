import MethodContracts.Expr.Negation
import MethodContracts.Proofs.Expr.Transform

/-!
# What simplifying negations does

The rule fires at three shapes: a double negation, a negated equality and a negated inequality.
Whatever it puts in their place is made of the nodes that were there, so a tree without
unrecognized instructions stays one, and can be negated.
-/

namespace MethodContracts.Node

/-! ## The rule -/

/-- The rule replaces an operation by a node. -/
inductive Simplifies : Op Node → Node → Prop
  | double (inner : Node) (offset : Option Offset) :
    Simplifies (.unary .not ⟨.unary .not inner, offset⟩) inner
  | eq (lhs rhs : Node) (offset : Option Offset) :
    Simplifies (.unary .not ⟨.binary .eq lhs rhs, offset⟩) ⟨.binary .ne lhs rhs, offset⟩
  | ne (lhs rhs : Node) (offset : Option Offset) :
    Simplifies (.unary .not ⟨.binary .ne lhs rhs, offset⟩) ⟨.binary .eq lhs rhs, offset⟩

/-- Nothing else is simplified. -/
theorem negationRule_eq_some_iff {n n' : Node} :
    n.negationRule = some n' ↔ Simplifies n.op n' := by
  constructor
  · intro h
    obtain ⟨op, offset⟩ := n
    rw [negationRule] at h
    split at h
    · next inner offset heq =>
      cases heq
      cases h
      exact .double _ _
    · next op lhs rhs offset heq =>
      cases heq
      cases op <;> cases h
      · exact .eq _ _ _
      · exact .ne _ _ _
    · cases h
  · intro h
    obtain ⟨op, offset⟩ := n
    cases h <;> rfl

/-! ## Trees without unrecognized instructions -/

theorem recognized_of_simplifies {n n' : Node} (hn : n.Recognized) (h : Simplifies n.op n') :
    n'.Recognized := by
  -- the operand of the negation, and what is below that
  have hoperand := ((recognized_iff n).mp hn).2
  obtain ⟨op, offset⟩ := n
  cases h with
  | double inner offset =>
    exact ((recognized_iff _).mp (hoperand _ List.mem_cons_self)).2 _ List.mem_cons_self
  | eq lhs rhs offset =>
    exact (recognized_iff _).mpr ⟨nofun, ((recognized_iff _).mp (hoperand _ List.mem_cons_self)).2⟩
  | ne lhs rhs offset =>
    exact (recognized_iff _).mpr ⟨nofun, ((recognized_iff _).mp (hoperand _ List.mem_cons_self)).2⟩

/-- The tree with its negations simplified. -/
def simplified (n : Node) : Node := (n.rewrite negationRule).node

/-- The simplified negation of a tree. -/
def negated (n : Node) : Node := n.negation.simplified

theorem recognized_simplified {n : Node} (h : n.Recognized) : n.simplified.Recognized := by
  refine rewrite_induct (motive := fun n n' => n.Recognized → n'.Recognized)
    (fun n f hbelow hn => ?_) (fun n n' n'' hn' hrule hn => ?_) n h
  · obtain ⟨hkind, hchildren⟩ := (recognized_iff n).mp hn
    have hkind' : (n.op.map f).kind ≠ .unrecognized := (Op.kind_map f n.op).symm ▸ hkind
    refine (recognized_iff _).mpr ⟨hkind', fun c' hc' => ?_⟩
    -- the children of the node put together again are the images of the old ones
    change c' ∈ (n.op.map f).children at hc'
    rw [Op.children_map] at hc'
    obtain ⟨c, hc, rfl⟩ := List.mem_map.mp hc'
    exact hbelow c hc (hchildren c hc)
  · exact recognized_of_simplifies (hn' hn) (negationRule_eq_some_iff.mp hrule)

theorem recognized_negation {n : Node} (h : n.Recognized) : n.negation.Recognized :=
  (recognized_iff _).mpr ⟨nofun, List.forall_mem_singleton.mpr h⟩

theorem recognized_negated {n : Node} (h : n.Recognized) : n.negated.Recognized :=
  recognized_simplified (recognized_negation h)

/-- A tree without unrecognized instructions can be simplified. -/
theorem simplify_of_recognized {n : Node} (h : n.Recognized) :
    ∃ changed, n.simplify = .ok ⟨n.simplified, changed⟩ :=
  ⟨(n.rewrite negationRule).changed, transform_of_recognized negationRule h⟩

/-- A tree without unrecognized instructions can be negated. -/
theorem negate_of_recognized {n : Node} (h : n.Recognized) : n.negate = .ok n.negated := by
  obtain ⟨changed, hsimplify⟩ := simplify_of_recognized (recognized_negation h)
  rw [negate, hsimplify]
  rfl

end MethodContracts.Node
