import Mathlib.Data.Set.Card
import MethodContracts.Proofs.Expr.Negation

/-!
# Traversals agree

Walks go through the children of a node, and transformations put a node together again from them.
Both meet the nodes of a tree in one order, so all traversals fail at the same trees and with the
same fault: the first unrecognized instruction in preorder. Where they succeed, counts are those of
the places of the tree, and the transformation without rules hands back the tree that was given.
-/

namespace MethodContracts.Node

/-! ## Counting places -/

/-- At how many places of a tree there is a node with some property. -/
noncomputable def count (P : Node → Prop) (n : Node) : Nat :=
  {place | ∃ m, n.at? place = some m ∧ P m}.ncard

/-- Preorder lists every place, and none of them twice. -/
theorem count_eq_countP (P : Node → Prop) [DecidablePred P] (n : Node) :
    n.count P = n.preorder.countP fun m => P m := by
  let held (place : Place) : Bool := (n.at? place).any fun m => P m
  have hset : {place | ∃ m, n.at? place = some m ∧ P m} = ↑(n.places.filter held).toFinset := by
    ext place
    simp only [Set.mem_ofPred_eq, List.coe_toFinset, List.mem_filter, mem_places_iff, held,
      Option.any_eq_true, decide_eq_true_eq]
    exact ⟨fun ⟨m, hm, hP⟩ => ⟨⟨m, hm⟩, m, hm, hP⟩, And.right⟩
  have hcount : n.preorder.countP (fun m => P m) = n.places.countP held := by
    rw [← filterMap_at?_places, List.countP_filterMap]
    refine List.countP_congr fun place _ => ?_
    cases hat : n.at? place <;> simp [held, hat]
  rw [count, hset, Set.ncard_coe_finset, List.toFinset_card_of_nodup (n.nodup_places.filter _),
    ← List.countP_eq_length_filter, hcount]

theorem count_true (n : Node) : n.count (fun _ => True) = n.preorder.length := by
  rw [count_eq_countP, List.countP_eq_length]
  exact fun _ _ => rfl

theorem count_marker (n : Node) :
    n.count (·.kind = .stackDuplicate) = n.preorder.countP isMarker :=
  count_eq_countP _ n

/-! ## Agreement -/

/-- Every traversal of the tree succeeds. -/
structure Traversed (n : Node) : Prop where
  nodes : n.checkStructure = .ok (n.count fun _ => True)
  markers : n.countMarkers = .ok (n.count (·.kind = .stackDuplicate))
  balanced : n.isBalanced = .ok (decide (n.count (·.kind = .stackDuplicate) = 0))
  simplified : ∃ simpler, n.simplify = .ok simpler
  negated : ∃ opposite, n.negate = .ok opposite
  copied : n.copy = .ok ⟨n, false⟩

/-- Every traversal of the tree fails with the same fault. -/
structure Refused (n : Node) (why : ModelError) : Prop where
  nodes : n.checkStructure = .error why
  markers : n.countMarkers = .error why
  balanced : n.isBalanced = .error why
  simplified : n.simplify = .error why
  negated : n.negate = .error why
  copied : n.copy = .error why

theorem Refused.not_traversed {n : Node} {why : ModelError} (h : n.Refused why) :
    ¬ n.Traversed := by
  intro htraversed
  have hnodes := htraversed.nodes.symm.trans h.nodes
  cases hnodes

/-- A negation in front is no unrecognized instruction. -/
theorem findSome?_opcode_negation (n : Node) :
    n.negation.preorder.findSome? opcode? = n.preorder.findSome? opcode? := by
  have hpreorder : n.negation.preorder = n.negation :: n.preorder := by
    rw [preorder_eq n.negation, negation, children, Op.children, List.flatMap_singleton]
  rw [hpreorder]
  rfl

theorem traversed_of_recognized {n : Node} (h : n.Recognized) : n.Traversed := by
  have hopcode := (findSome?_opcode_eq_none_iff n).mpr h
  have hmarkers : n.countMarkers = .ok (n.count (·.kind = .stackDuplicate)) := by
    rw [countMarkers_eq, hopcode, count_marker]
  obtain ⟨changed, hsimplify⟩ := simplify_of_recognized h
  exact {
    nodes := by rw [checkStructure_eq, hopcode, count_true]
    markers := hmarkers
    balanced := by rw [isBalanced, hmarkers]; rfl
    simplified := ⟨_, hsimplify⟩
    negated := ⟨_, negate_of_recognized h⟩
    copied := by rw [copy, transform_of_recognized _ h, rewrite_eq_self fun _ _ => rfl] }

theorem refused_of_opcode {n : Node} {opcode : String}
    (h : n.preorder.findSome? opcode? = some opcode) : n.Refused (.malformedTree opcode) := by
  have hmarkers : n.countMarkers = .error (.malformedTree opcode) := by
    rw [countMarkers_eq, h]
  exact {
    nodes := by rw [checkStructure_eq, h]
    markers := hmarkers
    balanced := by rw [isBalanced, hmarkers]; rfl
    simplified := by rw [simplify, transform_eq_rewrite, h]
    negated := by rw [negate, simplify, transform_eq_rewrite, findSome?_opcode_negation, h]; rfl
    copied := by rw [copy, transform_eq_rewrite, h] }

/-- **All traversals of a tree agree.** The check of the structure, the count of stack markers, the
test for balance, the simplifier, the negation and the transformation without rules all fail, with
the opcode of the first unrecognized instruction in preorder, when there is such an instruction
anywhere in the tree. When there is none all of them succeed: the first two count the places of the
tree and those of its stack markers, the third says whether there are no markers, and the last
returns the tree that was given. -/
theorem traversals_agree (n : Node) :
    ((∃ m : Node, m.OccursIn n ∧ m.kind = .unrecognized) ↔
      ∃ opcode, n.FirstUnrecognized opcode ∧ n.Refused (.malformedTree opcode)) ∧
    ((¬ ∃ m : Node, m.OccursIn n ∧ m.kind = .unrecognized) ↔ n.Traversed) := by
  rw [exists_unrecognized_iff, not_not]
  by_cases h : n.Recognized
  · have htraversed := traversed_of_recognized h
    refine ⟨iff_of_false (not_not_intro h) ?_, iff_of_true h htraversed⟩
    rintro ⟨opcode, -, hrefused⟩
    exact hrefused.not_traversed htraversed
  · obtain ⟨opcode, hopcode⟩ := Option.ne_none_iff_exists'.mp
      (mt (findSome?_opcode_eq_none_iff n).mp h)
    have hrefused := refused_of_opcode hopcode
    exact ⟨iff_of_true h ⟨opcode, (findSome?_opcode_eq_some_iff n opcode).mp hopcode, hrefused⟩,
      iff_of_false h hrefused.not_traversed⟩

end MethodContracts.Node
