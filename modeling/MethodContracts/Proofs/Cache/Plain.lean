import MethodContracts.Cache.Store

/-!
# Stores that behave as a map

A store may keep its records wherever it likes. What matters above it is that its calls never
fail, answer what a finite map answers, and change the records as the map is changed. Such a
store follows the plain one, and so does every computation over it: it gives the same result
and leaves the same records.
-/

namespace MethodContracts

variable {σ α β : Type}

/-! ## Running computations -/

/-- The result of a computation over a store, and the store after it. -/
def StoreM.on (act : StoreM σ α) (s : σ) : Except StorageError α × σ := act.run.run s

namespace StoreM

@[simp] theorem on_pure (a : α) (s : σ) : on (pure a) s = (.ok a, s) := rfl

@[simp] theorem on_throw (why : StorageError) (s : σ) :
    on (throw why : StoreM σ α) s = (.error why, s) := rfl

/-- A computation goes on from the result and the store of its first part, unless that
failed. -/
theorem on_bind (act : StoreM σ α) (next : α → StoreM σ β) (s : σ) :
    on (act >>= next) s =
      match on act s with
      | (.ok a, s) => on (next a) s
      | (.error why, s) => (.error why, s) := by
  change (act.run.run s >>= fun (r, s) => (ExceptT.bindCont next r).run s) = _
  change ExceptT.bindCont next (on act s).1 (on act s).2 = _
  rcases on act s with ⟨_ | a, s⟩ <;> rfl

theorem on_map (f : α → β) (act : StoreM σ α) (s : σ) :
    on (f <$> act) s = ((on act s).1.map f, (on act s).2) := by
  rw [← bind_pure_comp, on_bind]
  rcases on act s with ⟨_ | a, s⟩ <;> rfl

end StoreM

/-! ## The plain store -/

namespace Records

variable (records : Records) (fp : Fingerprint)

@[simp] theorem on_load : (Store.load fp : StoreM Records _).on records = (.ok records[fp]?, records) :=
  rfl

@[simp] theorem on_save (record : Bytes) :
    (Store.save fp record : StoreM Records _).on records = (.ok (), records.insert fp record) :=
  rfl

@[simp] theorem on_remove :
    (Store.remove fp : StoreM Records _).on records =
      (.ok (records.contains fp), records.erase fp) :=
  rfl

@[simp] theorem on_clear : (Store.clear : StoreM Records _).on records = (.ok (), ∅) := rfl

@[simp] theorem on_count : (Store.count : StoreM Records _).on records = (.ok records.size, records) :=
  rfl

end Records

/-! ## Computations with one write -/

/-- A relation between computations over a store and over the plain one that holds of single calls
and goes on behind a load. That is enough for computations that write at most once, at their end. -/
structure StoreM.Respects [Store σ]
    (R : ∀ {α : Type}, StoreM σ α → StoreM Records α → Prop) : Prop where
  pure {α : Type} (a : α) : R (pure a) (pure a)
  throw {α : Type} (why : StorageError) : R (throw why : StoreM σ α) (throw why)
  map {α β : Type} (f : α → β) {act : StoreM σ α} {plain : StoreM Records α} (h : R act plain) :
    R (f <$> act) (f <$> plain)
  load {α : Type} (fp : Fingerprint) {next : Option Bytes → StoreM σ α}
    {plainNext : Option Bytes → StoreM Records α} (h : ∀ record, R (next record) (plainNext record)) :
    R (Store.load fp >>= next) (Store.load fp >>= plainNext)
  save (fp : Fingerprint) (record : Bytes) : R (Store.save fp record) (Store.save fp record)
  remove (fp : Fingerprint) : R (Store.remove fp) (Store.remove fp)
  clear : R Store.clear Store.clear
  count : R Store.count Store.count

/-! ## Following the plain store -/

/-- The computation gives the result that the plain one gives on the records of the store, and
leaves the records that the plain one leaves. -/
def StoreM.Follows (contents : σ → Records) (act : StoreM σ α) (plain : StoreM Records α) : Prop :=
  ∀ s, (act.on s).1 = (plain.on (contents s)).1 ∧ contents (act.on s).2 = (plain.on (contents s)).2

namespace StoreM.Follows

variable {contents : σ → Records}

theorem pure (a : α) : Follows contents (pure a) (pure a) := fun _ => ⟨rfl, rfl⟩

theorem throw (why : StorageError) :
    Follows contents (throw why : StoreM σ α) (throw why) := fun _ => ⟨rfl, rfl⟩

theorem bind {act : StoreM σ α} {plain : StoreM Records α} {next : α → StoreM σ β}
    {plainNext : α → StoreM Records β} (h : Follows contents act plain)
    (hnext : ∀ a, Follows contents (next a) (plainNext a)) :
    Follows contents (act >>= next) (plain >>= plainNext) := by
  intro s
  obtain ⟨hresult, hrecords⟩ := h s
  rw [on_bind, on_bind]
  rcases hact : act.on s with ⟨result, s'⟩
  rcases hplain : plain.on (contents s) with ⟨result', records⟩
  rw [hact, hplain] at hresult hrecords
  cases hresult
  cases hrecords
  cases result with
  | error why => exact ⟨rfl, rfl⟩
  | ok a => exact hnext a s'

theorem map {act : StoreM σ α} {plain : StoreM Records α} (f : α → β)
    (h : Follows contents act plain) : Follows contents (f <$> act) (f <$> plain) := by
  rw [← bind_pure_comp, ← bind_pure_comp]
  exact h.bind fun a => pure (f a)

end StoreM.Follows

/-- **The store behaves as a map that never fails**: each of its calls follows that of the
plain store. -/
structure Store.Plain [Store σ] (contents : σ → Records) : Prop where
  load (fp : Fingerprint) : StoreM.Follows contents (Store.load fp) (Store.load fp)
  save (fp : Fingerprint) (record : Bytes) :
    StoreM.Follows contents (Store.save fp record) (Store.save fp record)
  remove (fp : Fingerprint) : StoreM.Follows contents (Store.remove fp) (Store.remove fp)
  clear : StoreM.Follows contents Store.clear Store.clear
  count : StoreM.Follows contents Store.count Store.count

/-- So does every computation that is made of them. -/
theorem Store.Plain.respects [Store σ] {contents : σ → Records} (h : Store.Plain contents) :
    StoreM.Respects (StoreM.Follows contents) where
  pure := .pure
  throw := .throw
  map f _ _ hact := hact.map f
  load fp _ _ hnext := (h.load fp).bind hnext
  save := h.save
  remove := h.remove
  clear := h.clear
  count := h.count

/-- The plain store itself is one. -/
theorem Store.plain_records : Store.Plain (id : Records → Records) where
  load _ _ := ⟨rfl, rfl⟩
  save _ _ _ := ⟨rfl, rfl⟩
  remove _ _ := ⟨rfl, rfl⟩
  clear _ := ⟨rfl, rfl⟩
  count _ := ⟨rfl, rfl⟩

end MethodContracts
