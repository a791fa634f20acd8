import MethodContracts.Error
import MethodContracts.Expr.Node

/-!
# Walking a tree

A visitor has a method for every kind of node. A method is called with the node and with the walk
over its children, and says what the walk over the node is: it may record something and may or may
not go through the children. Where nothing else is said the children are walked and nothing is
recorded. An unrecognized instruction has no rule of traversal, so there the walk is given up.

The walk over the children calls the methods of the same visitor, child by child in positional
order. A walk that is given up keeps the records made until then.
-/

namespace MethodContracts

/-- A finished walk: what was recorded, and why it was given up, if it was. -/
structure Walk (ρ : Type) where
  records : List ρ
  failure : Option ModelError
deriving DecidableEq, Repr

namespace Walk

variable {ρ : Type}

/-- One walk and then another, unless the first was given up. -/
def andThen (first second : Walk ρ) : Walk ρ :=
  match first.failure with
  | some _ => first
  | none => ⟨first.records ++ second.records, second.failure⟩

/-- Walks one after another, up to the first that is given up. -/
def all (walks : List (Walk ρ)) : Walk ρ := walks.foldr andThen ⟨[], none⟩

/-- The records of a walk that reached its end. -/
def result (walk : Walk ρ) : Except ModelError (List ρ) :=
  match walk.failure with
  | some why => .error why
  | none => .ok walk.records

end Walk

/-- What to do at the nodes of each kind. Beside the node a method gets what its kind is about, and
the walk over the children. -/
structure Visitor (ρ : Type) where
  /-- any node, with the walk that the method for its kind makes -/
  node (n : Node) (visited : Walk ρ) : Walk ρ := visited
  literal (n : Node) (value : Constant) (below : Walk ρ) : Walk ρ := below
  ref (n : Node) (var : Variable) (below : Walk ρ) : Walk ρ := below
  field (n : Node) (name : String) (below : Walk ρ) : Walk ρ := below
  binary (n : Node) (op : BinaryOperator) (below : Walk ρ) : Walk ρ := below
  unary (n : Node) (op : UnaryOperator) (below : Walk ρ) : Walk ρ := below
  call (n : Node) (callee : Callee) (args : List Node) (below : Walk ρ) : Walk ρ := below
  newObject (n : Node) (constructor : Callee) (below : Walk ρ) : Walk ρ := below
  stackDuplicate (n : Node) (below : Walk ρ) : Walk ρ := below
  block (n : Node) (stmts : List Node) (below : Walk ρ) : Walk ρ := below
  conditional (n : Node) (below : Walk ρ) : Walk ρ := below
  throw (n : Node) (below : Walk ρ) : Walk ρ := below
  ret (n : Node) (below : Walk ρ) : Walk ρ := below
  /-- there is no rule of traversal for these -/
  unrecognized (n : Node) (opcode : String) (below : Walk ρ) : Walk ρ :=
    ⟨[], some (.malformedTree opcode)⟩

namespace Visitor

variable {ρ : Type}

/-- The walk that the method for the kind of a node makes. -/
def dispatch (v : Visitor ρ) (n : Node) (below : Walk ρ) : Walk ρ :=
  match n.op with
  | .literal value => v.literal n value below
  | .ref var => v.ref n var below
  | .field _ _ name => v.field n name below
  | .binary op _ _ => v.binary n op below
  | .unary op _ => v.unary n op below
  | .call callee args => v.call n callee args below
  | .newObject callee _ => v.newObject n callee below
  | .stackDuplicate => v.stackDuplicate n below
  | .block stmts => v.block n stmts below
  | .conditional .. => v.conditional n below
  | .throw _ => v.throw n below
  | .ret _ => v.ret n below
  | .unrecognized opcode _ => v.unrecognized n opcode below

/-- The walk of a visitor over a tree. -/
def walk (v : Visitor ρ) (n : Node) : Walk ρ :=
  n.fold fun n below => v.node n (v.dispatch n (Walk.all below.children))

/-- The recursion equation of a walk. -/
theorem walk_eq (v : Visitor ρ) (n : Node) :
    v.walk n = v.node n (v.dispatch n (Walk.all (n.children.map v.walk))) := by
  rw [walk, Node.fold_eq, Op.children_map]
  rfl

/-- Makes its records at every node, whatever its kind is, and leaves the rest to the methods. -/
def everywhere (record : Node → List ρ) : Visitor ρ where
  node n visited := Walk.andThen ⟨record n, none⟩ visited

/-- Makes one record and goes through the children, unless the node is of a kind in `stop`. -/
def note (record : Node → ρ) (stop : List Kind) (n : Node) (below : Walk ρ) : Walk ρ :=
  if n.kind ∈ stop then ⟨[record n], none⟩ else Walk.andThen ⟨[record n], none⟩ below

/-- Makes one record per node. Below the kinds in `stop` it does not look; an unrecognized
instruction is a node like the others when `lenient`, and otherwise the walk is given up there
before anything is recorded. -/
def tracing (record : Node → ρ) (stop : List Kind) (lenient : Bool) : Visitor ρ where
  literal n _ below := note record stop n below
  ref n _ below := note record stop n below
  field n _ below := note record stop n below
  binary n _ below := note record stop n below
  unary n _ below := note record stop n below
  call n _ _ below := note record stop n below
  newObject n _ below := note record stop n below
  stackDuplicate n below := note record stop n below
  block n _ below := note record stop n below
  conditional n below := note record stop n below
  throw n below := note record stop n below
  ret n below := note record stop n below
  unrecognized n opcode below :=
    if lenient then note record stop n below else ⟨[], some (.malformedTree opcode)⟩

/-- Makes a record at every value that was duplicated on the evaluation stack. -/
def markers : Visitor Unit where
  stackDuplicate _ below := Walk.andThen ⟨[()], none⟩ below

end Visitor

namespace Node

/-- The kinds of all nodes in the order of the walk. -/
def kindWalk (n : Node) : Walk Kind := (Visitor.everywhere fun n => [n.kind]).walk n

/-- The number of nodes of a tree without unrecognized instructions. -/
def checkStructure (n : Node) : Except ModelError Nat :=
  (((Visitor.everywhere fun _ => [()]).walk n).result).map List.length

/-- The nodes that stand for a value duplicated on the evaluation stack. -/
def isMarker (n : Node) : Bool := n.kind = .stackDuplicate

/-- How many stack markers a tree holds. -/
def countMarkers (n : Node) : Except ModelError Nat :=
  ((Visitor.markers.walk n).result).map List.length

/-- A tree without stack markers can be evaluated on its own. -/
def isBalanced (n : Node) : Except ModelError Bool := n.countMarkers.map (· = 0)

end Node

end MethodContracts
