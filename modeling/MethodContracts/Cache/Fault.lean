import MethodContracts.Cache.Store

/-!
# Stores with faults

A plain store in which faults can be planted: the next call of one kind fails once, or the
next few look-ups answer that there is no record. A planted failure comes before hiding, and
a look-up that fails hides nothing.

It stands for the stores that do not behave as a map, with which the cache has to live too. What a
call of the cache leaves behind when the store fails can be watched on it, and it shows what is lost
over a store that forgets its records for a while.
-/

namespace MethodContracts

/-- The calls of a store, as the places of faults. -/
inductive StoreCall where
  | load | save | remove | clear | count
deriving DecidableEq, Repr

namespace StoreCall

/-- Every call. -/
def all : List StoreCall := [load, save, remove, clear, count]

/-- The name of a call in the text of a planted failure. -/
def name : StoreCall → String
  | load => "load"
  | save => "store"
  | remove => "remove"
  | clear => "clear"
  | count => "count"

/-- The failure that is planted for a call. -/
def failure (call : StoreCall) : StorageError := .migration ("injected " ++ call.name)

end StoreCall

/-- A plain store with planted faults. -/
structure FaultyRecords where
  records : Records
  /-- how many look-ups will answer that there is no record -/
  hidden : Nat
  /-- the call that will fail next time -/
  failing : Option StoreCall

namespace FaultyRecords

/-- The empty store without faults. -/
def empty : FaultyRecords := ⟨∅, 0, none⟩

/-- Lets a call fail if that is planted; the fault is then used up. -/
def check (call : StoreCall) : StoreM FaultyRecords Unit := do
  if (← get).failing = some call then
    modify fun s => { s with failing := none }
    throw call.failure

/-- Runs a call of the plain store. -/
def plain {α : Type} (act : StoreM Records α) : StoreM FaultyRecords α := do
  let s ← get
  let (result, records) := act.run.run s.records
  set { s with records }
  MonadExcept.ofExcept result

instance : Store FaultyRecords where
  load fp := do
    check .load
    let s ← get
    if 0 < s.hidden then
      set { s with hidden := s.hidden - 1 }
      return none
    else
      plain (Store.load fp)
  save fp record := do
    check .save
    plain (Store.save fp record)
  remove fp := do
    check .remove
    plain (Store.remove fp)
  clear := do
    check .clear
    plain Store.clear
  count := do
    check .count
    plain Store.count

end FaultyRecords

end MethodContracts
