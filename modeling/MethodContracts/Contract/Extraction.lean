import MethodContracts.Contract.Set

/-!
# Extraction results

What extraction finds in one method, and what is stored for it: the accepted clauses, and a
diagnostic for every candidate that had to be left out.
-/

namespace MethodContracts

/-- A candidate clause that was left out because its condition depends on values duplicated
on the evaluation stack. -/
structure Diagnostic where
  position : Position
  kind : ClauseKind
  markers : UInt64
  /-- the rendered condition -/
  condition : String
deriving DecidableEq, Repr

/-- The text of a diagnostic. -/
def Diagnostic.message (d : Diagnostic) : String :=
  "unextractable " ++ d.kind.name ++ " clause at " ++ d.position.display ++ ": `" ++
    d.condition ++ "` depends on " ++ toString d.markers.toNat ++
    " duplicated stack value(s)"

/-- The contracts of one method and the candidates that are not among them. -/
structure Extraction where
  contracts : ContractSet
  diagnostics : List Diagnostic
deriving DecidableEq

namespace Extraction

/-- Nothing found. -/
def empty : Extraction := ⟨.empty, []⟩

/-- Contracts of which no candidate was left out. -/
def ofContracts (contracts : ContractSet) : Extraction := ⟨contracts, []⟩

/-- At least one candidate was left out. -/
def isPartial (e : Extraction) : Bool := !e.diagnostics.isEmpty

end Extraction

end MethodContracts
