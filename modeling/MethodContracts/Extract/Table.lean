import Std.Data.HashMap
import MethodContracts.Extract.Config

/-!
# The table of contract calls

Contract calls are looked up by callee and then by number of arguments. Of several entries
for the same pair the first one counts.
-/

namespace MethodContracts

/-- Kinds of clauses by callee and number of arguments. -/
structure ContractTable where
  byCallee : Std.HashMap Callee (Std.HashMap Nat ClauseKind)

namespace ContractTable

/-- The table without entries. -/
def empty : ContractTable := ⟨∅⟩

/-- Adds an entry unless there is one for its callee and arity. -/
def add (table : ContractTable) (m : ContractMethod) : ContractTable :=
  ⟨table.byCallee.insert m.callee
    ((table.byCallee.getD m.callee ∅).insertIfNew m.arity.toNat m.kind)⟩

/-- The table of a list of contract calls. -/
def ofMethods (methods : List ContractMethod) : ContractTable := methods.foldl add empty

/-- The kind of clause that a call with so many arguments declares. -/
def lookup (table : ContractTable) (callee : Callee) (arity : Nat) : Option ClauseKind := do
  (← table.byCallee[callee]?)[arity]?

end ContractTable

end MethodContracts
