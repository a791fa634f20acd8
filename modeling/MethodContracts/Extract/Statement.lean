import MethodContracts.Extract.Table

/-!
# Shapes of statements

Every top-level statement of a method is a contract call, a legacy guard, the call that ends
the leading contracts, a return, or something else.

From the shapes follow two regions of the body: the leading contracts, and the trailing
ones, among which returns may stand. They decide which kind of clause a guard is.
-/

namespace MethodContracts

/-- What a statement is to the extraction of contracts. -/
inductive Shape where
  | contractCall (kind : ClauseKind) (condition : Node) (message : Option String)
  /-- a conditional throw, `if (test) throw …`; the clause is the negation of the test -/
  | legacyGuard (test : Node)
  | terminator
  | ret
  | other
deriving DecidableEq

namespace Shape

/-- Contract calls, guards and the terminator belong to a block of contracts. -/
def isContract : Shape → Bool
  | contractCall .. | legacyGuard _ | terminator => true
  | _ => false

/-- What may stand among the trailing contracts. -/
def isTrailing (s : Shape) : Bool := s.isContract || s = ret

end Shape

namespace Node

/-- A throw, or a block of which a throw is the only statement. -/
def alwaysThrows (n : Node) : Bool :=
  match n.op with
  | .throw _ => true
  | .block [only] => only.kind = .throw
  | _ => false

/-- The text of a string literal. -/
def literalText? (n : Node) : Option String :=
  match n.op with
  | .literal (.string s) => some s
  | _ => none

/-- The shape of a statement. The terminator is recognized before any contract call, and a
contract call needs an argument for its condition. -/
def shape (table : ContractTable) (terminator : Option Callee) (n : Node) : Shape :=
  match n.op with
  | .call callee args =>
    if args.isEmpty ∧ terminator = some callee then .terminator
    else
      match table.lookup callee args.length, args with
      | some kind, condition :: more => .contractCall kind condition (more.head?.bind literalText?)
      | _, _ => .other
  | .conditional test thenBranch none =>
    if thenBranch.alwaysThrows then .legacyGuard test else .other
  | .ret _ => .ret
  | _ => .other

end Node

/-! ## Regions -/

/-- The leading contracts are the statements before `leadingEnd`, the trailing ones those
from `trailingStart` on. -/
structure Regions where
  leadingEnd : Nat
  trailingStart : Nat
deriving DecidableEq, Repr

namespace Regions

/-- How many contracts stand at the front; the terminator is the last of them. -/
def leadingCount : List Shape → Nat
  | [] => 0
  | s :: rest =>
    if s = .terminator then 1
    else if s.isContract then leadingCount rest + 1
    else 0

/-- The regions of a body. -/
def ofShapes (shapes : List Shape) : Regions :=
  ⟨leadingCount shapes,
    shapes.length - (shapes.reverse.takeWhile Shape.isTrailing).length⟩

/-- The kind of a guard at an index. -/
def guardKind (regions : Regions) (rule : LegacyRule) (index : Nat) : ClauseKind :=
  match rule with
  | .alwaysRequires => .requires
  | .leadingRequiresTrailingEnsures =>
    if regions.leadingEnd ≤ index ∧ regions.trailingStart ≤ index then .ensures else .requires

end Regions

end MethodContracts
