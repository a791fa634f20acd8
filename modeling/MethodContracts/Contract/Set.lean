import MethodContracts.Expr.Text
import MethodContracts.Expr.Walk

/-!
# Contract sets

The contracts of a method are a sequence of clauses in the order in which they were met. A
clause gets into the sequence only when its condition can be evaluated on its own, that is,
when no node of it stands for a value left on the evaluation stack. Every set carries this verdict
on its clauses, so whatever makes a set has to come by the verdict.
-/

namespace MethodContracts

/-- A precondition, postcondition or invariant with the place it was found at, and the
message its author gave it. -/
structure Clause where
  kind : ClauseKind
  condition : Node
  position : Position
  message : Option String
deriving DecidableEq

/-- A clause as it is shown: `Requires: x > 0`. -/
def Clause.display (c : Clause) : String := c.kind.name ++ ": " ++ c.condition.display

/-- The clauses of one method in the order in which they were met. -/
@[ext]
structure ContractSet where
  clauses : List Clause
  /-- each condition was walked to its end, and no stack marker was counted -/
  balanced : ∀ clause ∈ clauses, clause.condition.countMarkers = .ok 0
deriving DecidableEq

namespace ContractSet

/-- The set without clauses. -/
def empty : ContractSet := ⟨[], nofun⟩

/-- The set with a balanced clause at its end. -/
def concat (set : ContractSet) (clause : Clause) (h : clause.condition.countMarkers = .ok 0) :
    ContractSet where
  clauses := set.clauses ++ [clause]
  balanced := List.forall_mem_append.mpr ⟨set.balanced, List.forall_mem_singleton.mpr h⟩

/-- The set with one more clause at its end, if the condition of the clause is balanced. -/
def push (set : ContractSet) (clause : Clause) : Except ModelError ContractSet :=
  match h : clause.condition.countMarkers with
  | .ok 0 => .ok (set.concat clause h)
  | .ok markers => .error (.unbalancedClause clause.position markers)
  | .error why => .error why

/-- Pushes clauses one after another, up to the first that is refused. -/
def pushAll (set : ContractSet) : List Clause → Except ModelError ContractSet
  | [] => .ok set
  | clause :: rest => do (← set.push clause).pushAll rest

/-- The set of the given clauses, if every one of them is accepted. -/
def ofClauses (clauses : List Clause) : Except ModelError ContractSet := empty.pushAll clauses

/-- How many clauses are in the set. -/
def size (set : ContractSet) : Nat := set.clauses.length

/-- The clauses of one kind, in order. -/
def ofKind (set : ContractSet) (kind : ClauseKind) : List Clause :=
  set.clauses.filter (·.kind = kind)

end ContractSet

end MethodContracts
