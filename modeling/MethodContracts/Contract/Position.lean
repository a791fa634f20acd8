import MethodContracts.Expr.Atom

/-!
# Kinds and places of clauses

What a contract clause promises, and the place in a method body where it was found.
-/

namespace MethodContracts

/-- What a clause promises: a condition at entry, at normal return, or between calls. -/
inductive ClauseKind where
  | requires | ensures | invariant
deriving DecidableEq, Repr

namespace ClauseKind

/-- Every kind of clause. -/
def all : List ClauseKind := [requires, ensures, invariant]

/-- The name of a kind, in messages and in stored data. -/
def name : ClauseKind → String
  | requires => "Requires"
  | ensures => "Ensures"
  | invariant => "Invariant"

end ClauseKind

/-- The index of a top-level statement, and its offset when that is known. -/
structure Position where
  statement : UInt64
  offset : Option Offset
deriving DecidableEq, Repr

/-- A position as it is shown: `statement 2 (IL_001c)`. -/
def Position.display (p : Position) : String :=
  "statement " ++ toString p.statement.toNat ++
    (match p.offset with
    | some o => " (" ++ o.display ++ ")"
    | none => "")

end MethodContracts
