import MethodContracts.Expr.Transform
import MethodContracts.Proofs.Expr.Walk

/-!
# What transformations amount to

A transformation fails at unrecognized instructions only. On every other tree it is a plain
bottom-up rewriting, `Node.rewrite`, and what putting a node together again and firing the rule
both keep is kept by the whole of it: `Node.rewrite_induct`. Statements about a transformation
are statements about its rule, then: it reports a change when the rule applies somewhere, and it
leaves a smaller tree when the rule does.
-/

namespace MethodContracts

/-! ## Computations in the places of the children -/

namespace Op

variable {ε α β : Type}

/-- A list of computations fails as the first of them that fails. -/
theorem mapM_map_id {f : α → Except ε β} {fault : α → Option ε} {value : α → β} (as : List α)
    (h : ∀ a ∈ as, f a = (fault a).elim (.ok (value a)) .error) :
    (as.map f).mapM id = (as.findSome? fault).elim (.ok (as.map value)) .error := by
  induction as with
  | nil => rfl
  | cons a rest ih =>
    have hrest := ih fun b hb => h b (List.mem_cons_of_mem _ hb)
    rw [List.map_cons, List.mapM_cons, id, h a List.mem_cons_self, List.findSome?_cons, hrest]
    cases fault a with
    | some why => rfl
    | none => cases rest.findSome? fault <;> rfl

/-- An operation of computations fails as the first of them that fails, in positional order. -/
theorem sequence_map {f : α → Except ε β} {fault : α → Option ε} {value : α → β} (op : Op α)
    (h : ∀ c ∈ op.children, f c = (fault c).elim (.ok (value c)) .error) :
    (op.map f).sequence = (op.children.findSome? fault).elim (.ok (op.map value)) .error := by
  cases op with
  | literal | ref | stackDuplicate => rfl
  | call _ below | newObject _ below | block below | unrecognized _ below =>
    have hbelow := mapM_map_id below h
    simp only [map, sequence, children, hbelow]
    cases below.findSome? fault <;> rfl
  | field child _ _ | throw child | ret child =>
    cases child with
    | none => rfl
    | some child =>
      simp only [map, sequence, children, Option.map, Option.toList, List.findSome?_cons,
        List.findSome?_nil, h child List.mem_cons_self]
      cases fault child <;> rfl
  | unary _ operand =>
    simp only [map, sequence, children, List.findSome?_cons, List.findSome?_nil,
      h operand List.mem_cons_self]
    cases fault operand <;> rfl
  | binary _ lhs rhs =>
    simp only [map, sequence, children, List.findSome?_cons, List.findSome?_nil,
      h lhs List.mem_cons_self, h rhs (List.mem_cons_of_mem _ List.mem_cons_self)]
    cases fault lhs <;> cases fault rhs <;> rfl
  | conditional test thenBranch elseBranch =>
    have htest := h test List.mem_cons_self
    have hthen := h thenBranch (List.mem_cons_of_mem _ List.mem_cons_self)
    cases elseBranch with
    | none =>
      simp only [map, sequence, children, Option.map, Option.toList, List.findSome?_cons,
        List.findSome?_nil, htest, hthen]
      cases fault test <;> cases fault thenBranch <;> rfl
    | some elseBranch =>
      have helse := h elseBranch
        (List.mem_cons_of_mem _ (List.mem_cons_of_mem _ List.mem_cons_self))
      simp only [map, sequence, children, Option.map, Option.toList, List.findSome?_cons,
        List.findSome?_nil, htest, hthen, helse]
      cases fault test <;> cases fault thenBranch <;> cases fault elseBranch <;> rfl

end Op

/-! ## Rewriting -/

namespace Node

variable {rule : Node → Option Node}

/-- Rewrites a tree bottom-up, whatever instructions it holds. -/
def rewrite (rule : Node → Option Node) (n : Node) : Transformed :=
  n.fold fun n below => (Transformed.rebuild n.offset below).apply rule

theorem rewrite_eq (rule : Node → Option Node) (n : Node) :
    n.rewrite rule = (Transformed.rebuild n.offset (n.op.map (rewrite rule))).apply rule := by
  rw [rewrite, fold_eq]
  rfl

/-- The first opcode below several trees is the first one of the first tree that has one. -/
theorem findSome?_flatMap_preorder (ns : List Node) :
    (ns.flatMap preorder).findSome? opcode? =
      ns.findSome? fun n => n.preorder.findSome? opcode? := by
  induction ns with
  | nil => rfl
  | cons n rest ih =>
    rw [List.flatMap_cons, List.findSome?_append, List.findSome?_cons, ih]
    cases n.preorder.findSome? opcode? <;> rfl

/-- **A transformation rewrites the tree, unless the tree holds an unrecognized instruction.** Of
several such instructions the first in preorder is the fault. -/
theorem transform_eq_rewrite (rule : Node → Option Node) (n : Node) :
    n.transform rule =
      match n.preorder.findSome? opcode? with
      | some opcode => .error (.malformedTree opcode)
      | none => .ok (n.rewrite rule) := by
  induction n using induct with
  | step n ih =>
    -- the fault of a child is the first opcode in it
    let fault : Node → Option ModelError :=
      Option.map .malformedTree ∘ fun c => c.preorder.findSome? opcode?
    have hchildren : ∀ c ∈ n.children,
        c.transform rule = (fault c).elim (.ok (c.rewrite rule)) .error := by
      intro c hc
      rw [ih c hc]
      simp only [fault, Function.comp_apply]
      cases c.preorder.findSome? opcode? <;> rfl
    have hbelow := Op.sequence_map n.op hchildren
    rw [← List.map_findSome?] at hbelow
    rw [transform_eq, rewrite_eq, preorder_eq, List.findSome?_cons, findSome?_flatMap_preorder]
    obtain ⟨op, offset⟩ := n
    cases op with
    | unrecognized opcode below => rfl
    | _ =>
      simp only [Op.map, opcode?] at hbelow ⊢
      rw [hbelow]
      split <;> rename_i heq <;> rw [heq] <;> rfl

/-- A tree without unrecognized instructions is transformed. -/
theorem transform_of_recognized (rule : Node → Option Node) {n : Node} (h : n.Recognized) :
    n.transform rule = .ok (n.rewrite rule) := by
  rw [transform_eq_rewrite, (findSome?_opcode_eq_none_iff n).mpr h]

/-- The node of a result is the one that was put together, or the one that the rule gave. -/
theorem node_apply (rule : Node → Option Node) (t : Transformed) :
    (t.apply rule).node = (rule t.node).getD t.node := by
  rw [Transformed.apply]
  cases rule t.node <;> rfl

/-- The rewritten tree is the node around the rewritten children, or what the rule puts in its
place. -/
theorem node_rewrite (rule : Node → Option Node) (n : Node) :
    (n.rewrite rule).node =
      (rule ⟨n.op.map fun c => (c.rewrite rule).node, n.offset⟩).getD
        ⟨n.op.map fun c => (c.rewrite rule).node, n.offset⟩ := by
  rw [rewrite_eq, node_apply, Transformed.rebuild, Op.map_map]
  rfl

/-- **What putting together and firing keep, rewriting keeps.** The relation holds between a node
and the one put together around children that it holds for, and firing the rule on the right
side does not break it. -/
theorem rewrite_induct {motive : Node → Node → Prop}
    (rebuild : ∀ (n : Node) (f : Node → Node), (∀ c ∈ n.children, motive c (f c)) →
      motive n ⟨n.op.map f, n.offset⟩)
    (fire : ∀ n n' n'', motive n n' → rule n' = some n'' → motive n n'') (n : Node) :
    motive n (n.rewrite rule).node := by
  induction n using induct with
  | step n ih =>
    have hbuilt := rebuild n (fun c => (c.rewrite rule).node) ih
    rw [node_rewrite]
    cases hrule : rule ⟨n.op.map fun c => (c.rewrite rule).node, n.offset⟩ with
    | none => exact hbuilt
    | some n' => exact fire n _ n' hbuilt hrule

/-! ## What a rewriting reports -/

/-- Around children that are the given ones, the given node is put together. -/
theorem rebuild_same {n : Node} (h : ∀ c ∈ n.children, c.rewrite rule = ⟨c, false⟩) :
    Transformed.rebuild n.offset (n.op.map (rewrite rule)) = ⟨n, false⟩ := by
  obtain ⟨op, offset⟩ := n
  have hop : op.map (Transformed.node ∘ fun c => ⟨c, false⟩) = op := op.map_id
  have hchanged : op.children.any (Transformed.changed ∘ fun c => ⟨c, false⟩) = false :=
    List.any_eq_false.mpr fun c _ => Bool.false_ne_true
  rw [Op.map_congr h, Transformed.rebuild, Op.map_map, Op.children_map, List.any_map, hop, hchanged]

/-- Where the rule applies to no node, the tree stays the one that was given. -/
theorem rewrite_eq_self {n : Node} (h : ∀ m ∈ n.preorder, rule m = none) :
    n.rewrite rule = ⟨n, false⟩ := by
  induction n using induct with
  | step n ih =>
    obtain ⟨hroot, hbelow⟩ := (forall_mem_preorder_iff n).mp h
    rw [rewrite_eq, rebuild_same fun c hc => ih c hc (hbelow c hc), Transformed.apply, hroot]

/-- **A rewriting reports a change exactly when the rule applies somewhere in the given tree.** -/
theorem changed_rewrite_eq_false_iff (n : Node) :
    (n.rewrite rule).changed = false ↔ ∀ m ∈ n.preorder, rule m = none := by
  constructor
  · intro h
    induction n using induct with
    | step n ih =>
      rw [rewrite_eq, Transformed.apply] at h
      split at h
      · cases h
      · next hroot =>
        -- no child was changed, so the rule has looked at the given node
        have hchildren : ∀ c ∈ n.children, (c.rewrite rule).changed = false := by
          rw [Transformed.rebuild, Op.children_map, List.any_map, List.any_eq_false] at h
          intro c hc
          exact Bool.eq_false_iff.mpr (h c hc)
        have hbelow : ∀ c ∈ n.children, ∀ m ∈ c.preorder, rule m = none :=
          fun c hc => ih c hc (hchildren c hc)
        rw [rebuild_same fun c hc => rewrite_eq_self (hbelow c hc)] at hroot
        exact (forall_mem_preorder_iff n).mpr ⟨hroot, hbelow⟩
  · intro h
    rw [rewrite_eq_self h]

/-! ## How large a rewritten tree is -/

theorem length_preorder (n : Node) :
    n.preorder.length = (n.children.flatMap preorder).length + 1 := by
  rw [preorder_eq, List.length_cons]

/-- What each of several trees loses, all of them lose together. -/
theorem length_flatMap_add_any_le {after before : Node → List Node} {changed : Node → Bool}
    (ns : List Node) (h : ∀ n ∈ ns, (after n).length + (changed n).toNat ≤ (before n).length) :
    (ns.flatMap after).length + (ns.any changed).toNat ≤ (ns.flatMap before).length := by
  induction ns with
  | nil => exact Nat.le_refl 0
  | cons n rest ih =>
    obtain ⟨hn, hrest⟩ := List.forall_mem_cons.mp h
    have hsum := ih hrest
    have hor : (changed n || rest.any changed).toNat ≤
        (changed n).toNat + (rest.any changed).toNat := by
      cases changed n <;> simp
    rw [List.flatMap_cons, List.flatMap_cons, List.length_append, List.length_append,
      List.any_cons]
    omega

/-- **A rule that makes trees smaller leaves a smaller tree whenever it has applied.** -/
theorem length_rewrite_le
    (hrule : ∀ n n', rule n = some n' → n'.preorder.length < n.preorder.length) (n : Node) :
    (n.rewrite rule).node.preorder.length + (n.rewrite rule).changed.toNat ≤ n.preorder.length := by
  induction n using induct with
  | step n ih =>
    have hbelow := length_flatMap_add_any_le n.children ih
    -- the size of the node that is put together, before the rule looks at it
    have hbuilt : (Transformed.rebuild n.offset (n.op.map (rewrite rule))).node.preorder.length =
        (n.children.flatMap fun c => (c.rewrite rule).node.preorder).length + 1 := by
      rw [length_preorder, Transformed.rebuild, children, Op.children_map, Op.children_map,
        List.map_map, List.flatMap_map]
      rfl
    have hchanged : (Transformed.rebuild n.offset (n.op.map (rewrite rule))).changed =
        n.children.any fun c => (c.rewrite rule).changed := by
      rw [Transformed.rebuild, Op.children_map, List.any_map]
      rfl
    rw [length_preorder n, rewrite_eq, Transformed.apply]
    split
    · next n' hroot =>
      have hsmaller := hrule _ _ hroot
      simp only [Bool.toNat_true]
      omega
    · rw [hbuilt, hchanged]
      omega

end Node

end MethodContracts
