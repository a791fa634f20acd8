import Std.Data.ExtHashMap
import MethodContracts.Record.Format

/-!
# Stores of records

A store keeps byte sequences under fingerprints. It knows nothing about what the bytes mean.
Its calls may fail, and a call that fails may still have changed the store.

The plain store is a finite map, and its calls never fail. Two plain stores are equal when they
answer every look-up alike.
-/

namespace MethodContracts

/-- Why a call of a store, or of the cache above it, failed. To write the record of a result is not
among the reasons: `Record.encode` has a record for every result. -/
inductive StorageError where
  /-- a fingerprint already stands for another extraction result -/
  | inconsistent (fp : Fingerprint)
  /-- a record that cannot be decoded -/
  | format (why : FormatError)
  /-- a database that cannot be used -/
  | database
  /-- a store that cannot be prepared -/
  | migration (reason : String)
  /-- a lock that a failed writer left behind -/
  | lockPoisoned (what : String)
deriving DecidableEq

/-- The text of a failure. The wording of database faults is not fixed and stands as
`<sqlite>`. -/
def StorageError.message : StorageError → String
  | .inconsistent fp =>
    "cache inconsistency: fingerprint " ++ fp.display ++
      " already maps to a different contract set"
  | .format why => "cache record format error: " ++ why.message
  | .database => "sqlite error: <sqlite>"
  | .migration reason => "migration error: " ++ reason
  | .lockPoisoned what => "lock poisoned: " ++ what

/-- Computations over a store that may fail. The state survives a failure. -/
abbrev StoreM (σ : Type) := ExceptT StorageError (StateM σ)

/-- The calls of a store. -/
class Store (σ : Type) where
  /-- the record under a fingerprint -/
  load : Fingerprint → StoreM σ (Option Bytes)
  /-- puts a record under a fingerprint, in place of any other -/
  save : Fingerprint → Bytes → StoreM σ Unit
  /-- removes the record under a fingerprint and says whether there was one -/
  remove : Fingerprint → StoreM σ Bool
  /-- removes every record -/
  clear : StoreM σ Unit
  /-- how many records there are -/
  count : StoreM σ Nat

/-- The plain store: a finite map from fingerprints to records. -/
abbrev Records := Std.ExtHashMap Fingerprint Bytes

instance : Store Records where
  load fp := do return (← get)[fp]?
  save fp record := modify fun records => records.insert fp record
  remove fp := do
    let records ← get
    set (records.erase fp)
    return records.contains fp
  clear := set (∅ : Records)
  count := do return (← get).size

end MethodContracts
