import MethodContracts.Cache.Fault
import MethodContracts.Proofs.Cache.Refinement

/-!
# The cache over a store with faults

A store in which faults are planted does not behave as a map. Still a call of the cache that runs
into a planted failure has done nothing: every call loads before it writes, and writes at most
once. So the failure takes one call out of a run, and the other calls are answered as if it had
never been made.

Hiding is worse. A put does not see what is hidden from it and writes over it, and no failure tells.
-/

namespace MethodContracts

variable {α β : Type}

namespace FaultyRecords

/-! ## What a computation comes to -/

/-- The result of the plain computation and the records that it leaves, with the faults as they
were; or the planted failure, which is used up and has left the records alone. -/
inductive Interrupted (s : FaultyRecords) (plain : Except StorageError α × Records) :
    Except StorageError α × FaultyRecords → Prop
  | undisturbed : Interrupted s plain (plain.1, { s with records := plain.2 })
  | failed {call : StoreCall} (h : s.failing = some call) :
    Interrupted s plain (.error call.failure, { s with failing := none })

/-- While nothing is hidden, the computation comes to what the plain one does, unless a planted
failure interrupts it. -/
def Interruptible (act : StoreM FaultyRecords α) (plain : StoreM Records α) : Prop :=
  ∀ s : FaultyRecords, s.hidden = 0 → Interrupted s (plain.on s.records) (act.on s)

theorem on_check (call : StoreCall) (s : FaultyRecords) :
    (check call).on s =
      if s.failing = some call then (.error call.failure, { s with failing := none })
      else (.ok (), s) := by
  rw [check, StoreM.on_bind]
  change StoreM.on (if s.failing = some call then _ else _) s = _
  split_ifs <;> rfl

theorem on_plain (act : StoreM Records α) (s : FaultyRecords) :
    (plain act).on s = ((act.on s.records).1, { s with records := (act.on s.records).2 }) := by
  change StoreM.on (MonadExcept.ofExcept (act.on s.records).1) { s with records := _ } = _
  cases (act.on s.records).1 <;> rfl

theorem on_load (fp : Fingerprint) (s : FaultyRecords) :
    (Store.load fp : StoreM FaultyRecords _).on s =
      if s.failing = some .load then (.error StoreCall.load.failure, { s with failing := none })
      else if 0 < s.hidden then (.ok none, { s with hidden := s.hidden - 1 })
      else (.ok s.records[fp]?, s) := by
  change StoreM.on (check .load >>= fun _ => _) s = _
  rw [StoreM.on_bind, on_check]
  split_ifs with hfails hhidden
  · rfl
  · change StoreM.on (if 0 < s.hidden then _ else _) s = _
    rw [if_pos hhidden]
    rfl
  · change StoreM.on (if 0 < s.hidden then _ else _) s = _
    rw [if_neg hhidden, on_plain]
    rfl

/-- A call of the plain store behind a check for its fault. -/
theorem interruptible_check (call : StoreCall) (act : StoreM Records α) :
    Interruptible (check call >>= fun _ => plain act) act := by
  intro s _
  rw [StoreM.on_bind, on_check]
  split_ifs with hfails
  · exact .failed hfails
  · dsimp only
    rw [on_plain]
    exact .undisturbed

/-- Behind a load the records are still as they were, so a failure there has changed nothing
either. -/
theorem Interruptible.load_bind (fp : Fingerprint) {next : Option Bytes → StoreM FaultyRecords α}
    {plainNext : Option Bytes → StoreM Records α}
    (h : ∀ record, Interruptible (next record) (plainNext record)) :
    Interruptible (Store.load fp >>= next) (Store.load fp >>= plainNext) := by
  intro s hs
  rw [StoreM.on_bind, StoreM.on_bind, on_load, Records.on_load]
  split_ifs with hfails hhidden
  · exact .failed hfails
  · exact absurd hs (Nat.ne_of_gt hhidden)
  · exact h s.records[fp]? s hs

theorem Interruptible.map (f : α → β) {act : StoreM FaultyRecords α} {plain : StoreM Records α}
    (h : Interruptible act plain) : Interruptible (f <$> act) (f <$> plain) := by
  intro s hs
  rw [StoreM.on_map, StoreM.on_map]
  have hact := h s hs
  generalize act.on s = result at hact ⊢
  cases hact with
  | undisturbed => exact .undisturbed
  | failed hfails => exact .failed hfails

theorem respects_interruptible : StoreM.Respects Interruptible where
  pure _ _ _ := .undisturbed
  throw _ _ _ := .undisturbed
  map f _ _ h := h.map f
  load fp _ _ h := .load_bind fp h
  save fp record := interruptible_check .save (Store.save fp record)
  remove fp := interruptible_check .remove (Store.remove fp)
  clear := interruptible_check .clear Store.clear
  count := interruptible_check .count Store.count

/-! ## Calls one after another -/

/-- The store that hides nothing, with a failure planted or not. -/
def showing (records : Records) (failing : Option StoreCall) : FaultyRecords := ⟨records, 0, failing⟩

/-- A call of the cache can be interrupted, and has done nothing then. -/
theorem run_showing (op : Operation) (records : Records) (failing : Option StoreCall) :
    Interrupted (showing records failing) (op.run.on records) (op.run.on (showing records failing)) :=
  Operation.run_related respects_interruptible op (showing records failing) rfl

/-- The first call, and then the others from what it leaves. -/
theorem runAll_cons {op : Operation} {rest : List Operation} {s s' last : FaultyRecords}
    {answer : Except StorageError Answer} {answers : List (Except StorageError Answer)}
    (h : op.run.on s = (answer, s')) (hrest : Operation.runAll rest s' = (answers, last)) :
    Operation.runAll (op :: rest) s = (answer :: answers, last) := by
  rw [Operation.runAll, h, hrest]

/-- While no failure is planted, the store behaves as a map. -/
theorem runAll_sound (ops : List Operation) (records : Records) :
    Operation.runAll ops (showing records none) =
      ((Operation.runAll ops records).1, showing (Operation.runAll ops records).2 none) := by
  induction ops generalizing records with
  | nil => rfl
  | cons op rest ih =>
    have hrun := run_showing op records none
    generalize hop : op.run.on (showing records none) = result at hrun
    cases hrun with
    | undisturbed => exact runAll_cons hop (ih (op.run.on records).2)
    | failed hfails => cases hfails

/-- **A planted failure takes one call out of a run.** While nothing is hidden, calls one after
another do what they do over the plain store, and the failure stays planted; or one of them gives
the failure, and those before and behind it do what they do when it is not made. -/
theorem runAll_failing (ops : List Operation) (records : Records) (call : StoreCall) :
    Operation.runAll ops (showing records (some call)) =
        ((Operation.runAll ops records).1, showing (Operation.runAll ops records).2 (some call)) ∨
      ∃ before op behind, ops = before ++ op :: behind ∧
        Operation.runAll ops (showing records (some call)) =
          ((Operation.runAll before records).1 ++ .error call.failure ::
              (Operation.runAll behind (Operation.runAll before records).2).1,
            showing (Operation.runAll behind (Operation.runAll before records).2).2 none) := by
  induction ops generalizing records with
  | nil => exact .inl rfl
  | cons op rest ih =>
    have hrun := run_showing op records (some call)
    generalize hop : op.run.on (showing records (some call)) = result at hrun
    cases hrun with
    | undisturbed =>
      rcases ih (op.run.on records).2 with hrest | ⟨before, failed, behind, hsplit, hrest⟩
      · exact .inl (runAll_cons hop hrest)
      · exact .inr ⟨op :: before, failed, behind, congrArg (op :: ·) hsplit, runAll_cons hop hrest⟩
    | failed hfails =>
      -- the failure is used up, and the records are those that this call has found
      obtain rfl := Option.some.inj hfails
      exact .inr ⟨[], op, rest, rfl, runAll_cons hop (runAll_sound rest records)⟩

/-! ## What is lost -/

/-- A store with faults does not behave as a map. -/
theorem not_plain : ¬ Store.Plain FaultyRecords.records := by
  intro h
  have hload := (h.load (.replicate 0) (showing ∅ (some .load))).1
  have hfails : (showing ∅ (some .load)).failing = some .load := rfl
  rw [on_load, if_pos hfails] at hload
  cases hload

/-- **A put writes over what is hidden from it**, whatever it is, and calls it a new record. -/
theorem putExtraction_hidden (fp : Fingerprint) (e : Extraction) (records : Records) (hidden : Nat) :
    (Operation.run (.putExtraction fp e)).on (FaultyRecords.mk records (hidden + 1) none) =
      (.ok (.outcome .stored), .mk (records.insert fp (Record.encode e)) hidden none) := by
  rw [Operation.run, StoreM.on_map, Cache.putExtraction, StoreM.on_bind, on_load]
  rfl

end FaultyRecords

end MethodContracts
