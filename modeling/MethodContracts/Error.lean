import MethodContracts.Contract.Position

/-!
# Faults of the model

What can be wrong with a tree, a method body, a fingerprint or a clause.
-/

namespace MethodContracts

/-- A fault of the model. -/
inductive ModelError where
  /-- a tree holds an instruction that has no place in the model -/
  | malformedTree (opcode : String)
  /-- the root of a method body is no block -/
  | invalidBody (reason : String)
  /-- a fingerprint of the wrong width -/
  | invalidFingerprint (length : Nat)
  /-- a condition still refers to values duplicated on the evaluation stack -/
  | unbalancedClause (position : Position) (markers : Nat)
deriving DecidableEq, Repr

/-- The text of a fault. -/
def ModelError.message : ModelError → String
  | .malformedTree opcode =>
    "malformed tree: no traversal rule for node kind '" ++ opcode ++ "'"
  | .invalidBody reason => "invalid method body: " ++ reason
  | .invalidFingerprint length =>
    "invalid fingerprint: expected 32 bytes, got " ++ toString length
  | .unbalancedClause position markers =>
    "clause at " ++ position.display ++ " is not stack-balanced: " ++ toString markers ++
      " stack marker(s)"

end MethodContracts
