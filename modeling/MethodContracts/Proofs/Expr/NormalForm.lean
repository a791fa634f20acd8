import MethodContracts.Proofs.Expr.Negation

/-!
# Simplifying reaches a normal form

A negation is a redex when it stands on a negation, an equality or an inequality. Simplifying goes
through the tree once, from below. One pass is enough: what the rule puts in the place of a redex
is a node from below that was normal already, or a comparison, which is no redex itself.

So simplifying reports a change exactly when there was a redex, and a second pass finds nothing to
do. Negation is an involution on normal forms, up to the offset of a negation at the root.
-/

namespace MethodContracts.Node

/-! ## Redexes -/

/-- A negation of a negation, of an equality or of an inequality. -/
inductive Redex : Node → Prop
  | double (inner : Node) (offset offset' : Option Offset) :
    Redex ⟨.unary .not ⟨.unary .not inner, offset⟩, offset'⟩
  | eq (lhs rhs : Node) (offset offset' : Option Offset) :
    Redex ⟨.unary .not ⟨.binary .eq lhs rhs, offset⟩, offset'⟩
  | ne (lhs rhs : Node) (offset offset' : Option Offset) :
    Redex ⟨.unary .not ⟨.binary .ne lhs rhs, offset⟩, offset'⟩

/-- The rule applies to redexes and to nothing else. -/
theorem negationRule_eq_none_iff (n : Node) : n.negationRule = none ↔ ¬ n.Redex := by
  constructor
  · intro h hredex
    cases hredex <;> cases h
  · intro h
    cases hrule : n.negationRule with
    | none => rfl
    | some n' =>
      obtain ⟨op, offset⟩ := n
      have hsimplifies := negationRule_eq_some_iff.mp hrule
      cases hsimplifies with
      | double inner offset' => exact absurd (.double _ _ _) h
      | eq lhs rhs offset' => exact absurd (.eq _ _ _ _) h
      | ne lhs rhs offset' => exact absurd (.ne _ _ _ _) h

/-- There is no redex anywhere in the tree. -/
def Normal (n : Node) : Prop := ∀ m : Node, m.OccursIn n → ¬ m.Redex

/-- In a normal tree the rule applies nowhere. -/
theorem normal_iff_negationRule (n : Node) :
    n.Normal ↔ ∀ m ∈ n.preorder, m.negationRule = none := by
  simp only [Normal, ← mem_preorder_iff, negationRule_eq_none_iff]

instance (n : Node) : Decidable n.Normal :=
  decidable_of_iff _ (normal_iff_negationRule n).symm

/-- A tree is normal when its root is no redex and the trees below it are normal. -/
theorem normal_iff (n : Node) : n.Normal ↔ ¬ n.Redex ∧ ∀ c ∈ n.children, c.Normal := by
  simp only [normal_iff_negationRule, ← negationRule_eq_none_iff]
  exact forall_mem_preorder_iff n

/-! ## One pass is enough -/

/-- What the rule puts in the place of a redex is normal when everything below the redex was. -/
theorem normal_of_simplifies {op : Op Node} {n' : Node} (h : Simplifies op n')
    (hbelow : ∀ c ∈ op.children, c.Normal) : n'.Normal := by
  cases h with
  | double =>
    obtain ⟨-, hinner⟩ := (normal_iff _).mp (hbelow _ List.mem_cons_self)
    exact hinner _ List.mem_cons_self
  | eq lhs rhs offset | ne lhs rhs offset =>
    obtain ⟨-, hsides⟩ := (normal_iff _).mp (hbelow _ List.mem_cons_self)
    exact (normal_iff _).mpr ⟨nofun, hsides⟩

/-- A tree is simplified below its root first, and there when the rule applies. -/
theorem simplified_eq (n : Node) :
    n.simplified =
      (negationRule ⟨n.op.map simplified, n.offset⟩).getD ⟨n.op.map simplified, n.offset⟩ :=
  node_rewrite negationRule n

/-- **A simplified tree is normal.** -/
theorem normal_simplified (n : Node) : n.simplified.Normal := by
  induction n using induct with
  | step n ih =>
    have hbelow : ∀ c ∈ (n.op.map simplified).children, c.Normal := by
      intro c hc
      rw [Op.children_map] at hc
      obtain ⟨c', hc', rfl⟩ := List.mem_map.mp hc
      exact ih c' hc'
    rw [simplified_eq]
    cases hrule : negationRule ⟨n.op.map simplified, n.offset⟩ with
    | none => exact (normal_iff _).mpr ⟨(negationRule_eq_none_iff _).mp hrule, hbelow⟩
    | some n' => exact normal_of_simplifies (negationRule_eq_some_iff.mp hrule) hbelow

theorem simplified_of_normal {n : Node} (h : n.Normal) : n.simplified = n := by
  rw [simplified, rewrite_eq_self ((normal_iff_negationRule n).mp h)]

/-- A normal tree is handed back as it is. -/
theorem simplify_of_normal {n : Node} (hn : n.Recognized) (h : n.Normal) :
    n.simplify = .ok ⟨n, false⟩ := by
  rw [simplify, transform_of_recognized negationRule hn,
    rewrite_eq_self ((normal_iff_negationRule n).mp h)]

theorem length_preorder_unary (op : UnaryOperator) (operand : Node) (offset : Option Offset) :
    (mk (.unary op operand) offset).preorder.length = operand.preorder.length + 1 := by
  rw [length_preorder, children, Op.children, List.flatMap_singleton]

/-- The rule makes trees smaller: by two nodes for a double negation, by one for a comparison. -/
theorem length_lt_of_negationRule (n n' : Node) (h : n.negationRule = some n') :
    n'.preorder.length < n.preorder.length := by
  obtain ⟨op, offset⟩ := n
  have hsimplifies := negationRule_eq_some_iff.mp h
  cases hsimplifies with
  | double inner offset' =>
    rw [length_preorder_unary, length_preorder_unary]
    omega
  | eq lhs rhs offset' | ne lhs rhs offset' =>
    -- the two comparisons have the same operands
    rw [length_preorder_unary, length_preorder, length_preorder]
    exact Nat.lt_succ_self _

/-- **Simplifying reaches a normal form and reports changes exactly.** The result is the given tree,
with no change reported, when that was normal; otherwise it has fewer nodes. Simplifying the result
again changes nothing. -/
theorem simplify_normalizes {n : Node} (h : n.Recognized) :
    ∃ simpler, n.simplify = .ok simpler ∧
      simpler.node.Normal ∧
      (simpler = ⟨n, false⟩ ↔ n.Normal) ∧
      (simpler.changed = false ↔ n.Normal) ∧
      ((∃ m : Node, m.OccursIn n ∧ m.Redex) → simpler.node.preorder.length < n.preorder.length) ∧
      simpler.node.simplify = .ok ⟨simpler.node, false⟩ := by
  have hchanged : (n.rewrite negationRule).changed = false ↔ n.Normal :=
    (changed_rewrite_eq_false_iff n).trans (normal_iff_negationRule n).symm
  refine ⟨n.rewrite negationRule, transform_of_recognized negationRule h, normal_simplified n,
    ⟨fun hsame => ?_, fun hnormal => ?_⟩, hchanged, ?_,
    simplify_of_normal (recognized_simplified h) (normal_simplified n)⟩
  · exact hchanged.mp (congrArg Transformed.changed hsame)
  · exact rewrite_eq_self ((normal_iff_negationRule n).mp hnormal)
  · rintro ⟨m, hm, hredex⟩
    have hlength := length_rewrite_le length_lt_of_negationRule n
    cases hrewrite : (n.rewrite negationRule).changed with
    | false => exact absurd hredex (hchanged.mp hrewrite m hm)
    | true =>
      rw [hrewrite, Bool.toNat_true] at hlength
      omega

/-- In `f(!!!(x == y))` every replacement leaves a redex to the negation above it. -/
theorem simplify_normalizes_nested :
    let x : Node := .unlocated (.ref (.argument 0 (some "x")))
    let y : Node := .unlocated (.ref (.argument 1 (some "y")))
    let equal : Node := ⟨.binary .eq x y, some ⟨3⟩⟩
    let call (arg : Node) : Node := .unlocated (.call ⟨"T", "f"⟩ [arg])
    let n : Node := call equal.negation.negation.negation
    let simpler : Node := call ⟨.binary .ne x y, some ⟨3⟩⟩
    n.Recognized ∧ n.simplify = .ok ⟨simpler, true⟩ ∧ simpler.Normal ∧ ¬ n.Normal ∧
      simpler.preorder.length < n.preorder.length ∧ simpler.simplify = .ok ⟨simpler, false⟩ := by
  intro x y equal call n simpler
  have hn : n.Recognized := by decide
  have hsimplify : n.simplify = .ok ⟨simpler, true⟩ := rfl
  have hredex : equal.negation.Redex := .eq _ _ _ _
  have hoccurs : equal.negation.OccursIn n := mem_preorder_iff.mp (by decide)
  obtain ⟨result, hresult, hnormal, -, hchanged, hsmaller, hagain⟩ := simplify_normalizes hn
  obtain rfl : _ = result := Except.ok.inj (hsimplify.symm.trans hresult)
  have hnot : ¬ n.Normal := fun h => Bool.false_ne_true (hchanged.mpr h).symm
  exact ⟨hn, hsimplify, hnormal, hnot, hsmaller ⟨_, hoccurs, hredex⟩, hagain⟩

/-! ## Negating twice -/

/-- Negating simplifies first. -/
theorem negated_eq (n : Node) :
    n.negated = (negationRule n.simplified.negation).getD n.simplified.negation :=
  simplified_eq n.negation

theorem negated_simplified (n : Node) : n.simplified.negated = n.negated := by
  rw [negated_eq, negated_eq, simplified_of_normal (normal_simplified n)]

/-- A normal tree under a negation is replaced as the rule says. -/
theorem negated_of_simplifies {n n' : Node} (hn : n.Normal) (h : Simplifies (.unary .not n) n') :
    n.negated = n' := by
  have hrule : n.negation.negationRule = some n' := negationRule_eq_some_iff.mpr h
  rw [negated_eq, simplified_of_normal hn, hrule, Option.getD_some]

/-- Where the rule does not apply, a negation is put in front of a normal tree. -/
theorem negated_of_not_redex {n : Node} (hn : n.Normal) (h : ¬ n.negation.Redex) :
    n.negated = n.negation := by
  rw [negated_eq, simplified_of_normal hn, (negationRule_eq_none_iff _).mpr h, Option.getD_none]

/-- Negating a normal tree twice gives it back, but for the offset of a negation at its root. -/
theorem negated_negated_of_normal {n : Node} (hn : n.Normal) :
    (∀ operand, n.op = .unary .not operand → n.negated.negated = .unlocated n.op) ∧
    ((∀ operand, n.op ≠ .unary .not operand) → n.negated.negated = n) := by
  cases hrule : n.negation.negationRule with
  | none =>
    -- a negation in front, which the second negation removes
    have hnegation : ¬ n.negation.Redex := (negationRule_eq_none_iff _).mp hrule
    have hnormal : n.negation.Normal :=
      (normal_iff _).mpr ⟨hnegation, List.forall_mem_singleton.mpr hn⟩
    rw [negated_of_not_redex hn hnegation, negated_of_simplifies hnormal (.double n none)]
    refine ⟨fun operand hop => ?_, fun _ => rfl⟩
    obtain ⟨op, offset⟩ := n
    cases hop
    exact absurd (.double _ _ _) hnegation
  | some n' =>
    have hsimplifies : Simplifies (.unary .not n) n' := negationRule_eq_some_iff.mp hrule
    have hn' : n'.Normal := normal_of_simplifies hsimplifies (List.forall_mem_singleton.mpr hn)
    rw [negated_of_simplifies hn hsimplifies]
    cases hsimplifies with
    | double inner offset =>
      -- the operand of a negation that is no redex gets a negation again
      have hredex : ¬ n'.negation.Redex := by
        obtain ⟨hroot, -⟩ := (normal_iff _).mp hn
        -- the rule does not look at the offset of the root
        have hrule' := (negationRule_eq_none_iff _).mpr hroot
        exact (negationRule_eq_none_iff n'.negation).mp hrule'
      refine ⟨fun operand hop => ?_, fun hop => absurd rfl (hop _)⟩
      exact negated_of_not_redex hn' hredex
    | eq lhs rhs offset =>
      exact ⟨nofun, fun _ => negated_of_simplifies hn' (.ne lhs rhs offset)⟩
    | ne lhs rhs offset =>
      exact ⟨nofun, fun _ => negated_of_simplifies hn' (.eq lhs rhs offset)⟩

/-- **Negation is an involution up to simplification.** The negation of a tree is the negation of
its simplified form. Negated once more it is the simplified form, offsets included; only a
negation at the root of the simplified form comes back without its offset. -/
theorem negate_negate {n : Node} (h : n.Recognized) :
    ∃ simpler once twice, n.simplify = .ok simpler ∧ n.negate = .ok once ∧
      simpler.node.negate = .ok once ∧ once.negate = .ok twice ∧
      (∀ operand, simpler.node.op = .unary .not operand →
        twice = .unlocated simpler.node.op) ∧
      ((∀ operand, simpler.node.op ≠ .unary .not operand) → twice = simpler.node) := by
  obtain ⟨changed, hsimplify⟩ := simplify_of_recognized h
  have honce := negate_of_recognized (recognized_simplified h)
  rw [negated_simplified] at honce
  have htwice := negated_negated_of_normal (normal_simplified n)
  rw [negated_simplified] at htwice
  exact ⟨_, _, _, hsimplify, negate_of_recognized h, honce,
    negate_of_recognized (recognized_negated h), htwice.1, htwice.2⟩

/-- Of `!!!x` the outermost negation is left, with its offset. Negating `x` puts a negation without
offset in front. -/
theorem negate_negate_located :
    let x : Node := .unlocated (.ref (.argument 0 (some "x")))
    let n : Node := ⟨.unary .not ⟨.unary .not ⟨.unary .not x, some ⟨4⟩⟩, some ⟨8⟩⟩, some ⟨12⟩⟩
    n.Recognized ∧ n.simplify = .ok ⟨⟨.unary .not x, some ⟨12⟩⟩, true⟩ ∧ n.negate = .ok x ∧
      x.negate = .ok (.unlocated (.unary .not x)) := by
  intro x n
  have hn : n.Recognized := by decide
  have hsimplify : n.simplify = .ok ⟨⟨.unary .not x, some ⟨12⟩⟩, true⟩ := rfl
  have hnegate : n.negate = .ok x := rfl
  obtain ⟨simpler, once, twice, hsimpler, honce, -, htwice, hnegation, -⟩ := negate_negate hn
  obtain rfl : _ = simpler := Except.ok.inj (hsimplify.symm.trans hsimpler)
  obtain rfl : x = once := Except.ok.inj (hnegate.symm.trans honce)
  rw [hnegation x rfl] at htwice
  exact ⟨hn, hsimplify, hnegate, htwice⟩

end MethodContracts.Node
