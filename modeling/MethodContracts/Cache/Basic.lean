import MethodContracts.Cache.Store

/-!
# The contract cache

The cache keeps extraction results under the fingerprints of the methods they come from. Once a
fingerprint stands for a result, putting a different one is an error and not an overwrite.
A record that cannot be decoded counts as absent, and the next put replaces it.
-/

namespace MethodContracts

/-- What a store holds under a fingerprint. -/
inductive Lookup where
  | hit (e : Extraction)
  | miss
  /-- there is a record, but it cannot be decoded -/
  | stale (why : FormatError)
deriving DecidableEq

/-- What a put did. -/
inductive PutOutcome where
  /-- there was no record -/
  | stored
  /-- an equal result was there, and nothing was written -/
  | unchanged
  /-- a record that could not be decoded was overwritten -/
  | replaced
deriving DecidableEq, Repr

/-- The name of an outcome. -/
def PutOutcome.name : PutOutcome → String
  | .stored => "Stored"
  | .unchanged => "Unchanged"
  | .replaced => "Replaced"

/-- What a record, if there is one, stands for. -/
def Lookup.ofRecord : Option Bytes → Lookup
  | none => .miss
  | some record =>
    match Record.decode record with
    | .ok e => .hit e
    | .error why => .stale why

namespace Cache

variable {σ : Type} [Store σ]

/-- Looks a fingerprint up. -/
def lookup (fp : Fingerprint) : StoreM σ Lookup := do
  return .ofRecord (← Store.load fp)

/-- The contracts under a fingerprint, if there is a readable record. -/
def get? (fp : Fingerprint) : StoreM σ (Option ContractSet) := do
  match ← lookup fp with
  | .hit e => return some e.contracts
  | .miss | .stale _ => return none

/-- Writes a result and says what that did. -/
def write (fp : Fingerprint) (e : Extraction) (outcome : PutOutcome) :
    StoreM σ PutOutcome := do
  Store.save fp (Record.encode e)
  return outcome

/-- Lets a fingerprint stand for a result. -/
def putExtraction (fp : Fingerprint) (e : Extraction) : StoreM σ PutOutcome := do
  match Lookup.ofRecord (← Store.load fp) with
  | .miss => write fp e .stored
  | .stale _ => write fp e .replaced
  | .hit existing => if existing = e then return .unchanged else throw (.inconsistent fp)

/-- Lets a fingerprint stand for contracts without diagnostics. -/
def put (fp : Fingerprint) (contracts : ContractSet) : StoreM σ PutOutcome :=
  putExtraction fp (.ofContracts contracts)

/-- Removes the record under a fingerprint and says whether there was one. -/
def invalidate (fp : Fingerprint) : StoreM σ Bool := Store.remove fp

/-- Removes every record. -/
def invalidateAll : StoreM σ Unit := Store.clear

/-- How many records there are. -/
def size : StoreM σ Nat := Store.count

/-- There is no record. -/
def isEmpty : StoreM σ Bool := do return (← Store.count) = 0

end Cache

end MethodContracts
