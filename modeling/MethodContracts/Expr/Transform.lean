import MethodContracts.Error
import MethodContracts.Expr.Node

/-!
# Transforming trees

A transformation works bottom-up: the children of a node are transformed first, the node is
put together again around them, with its offset, and then a rule may replace it. The result
says whether any rule fired; if none did, the tree is the one that was given.

An unrecognized instruction cannot be transformed. Its children are not looked at, so of
several such instructions the first in pre-order is reported.
-/

namespace MethodContracts

/-- A tree, and whether it is new rather than the one that was given. -/
structure Transformed where
  node : Node
  changed : Bool
deriving DecidableEq

namespace Transformed

/-- A node around transformed children. It is new when one of them is. -/
def rebuild (offset : Option Offset) (op : Op Transformed) : Transformed :=
  ⟨⟨op.map node, offset⟩, op.children.any changed⟩

/-- Lets a rule replace the node. -/
def apply (rule : Node → Option Node) (t : Transformed) : Transformed :=
  match rule t.node with
  | some node => ⟨node, true⟩
  | none => t

end Transformed

namespace Node

/-- Transforms a tree bottom-up. -/
def transform (rule : Node → Option Node) (n : Node) : Except ModelError Transformed :=
  n.fold fun n below =>
    match below with
    | .unrecognized opcode _ => .error (.malformedTree opcode)
    | below => do return (Transformed.rebuild n.offset (← below.sequence)).apply rule

/-- The recursion equation of transformations. -/
theorem transform_eq (rule : Node → Option Node) (n : Node) :
    n.transform rule =
      match n.op.map (transform rule) with
      | .unrecognized opcode _ => .error (.malformedTree opcode)
      | below => do return (Transformed.rebuild n.offset (← below.sequence)).apply rule := by
  rw [transform, fold_eq]
  rfl

/-- The transformation without rules. -/
def copy (n : Node) : Except ModelError Transformed := n.transform fun _ => none

/-- Replaces every literal that equals `old` by a new literal `new` without offset. -/
def replaceLiteral (old new : Constant) (n : Node) : Except ModelError Transformed :=
  n.transform fun n =>
    match n.op with
    | .literal value => if value = old then some (.unlocated (.literal new)) else none
    | _ => none

end Node

end MethodContracts
