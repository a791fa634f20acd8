import MethodContracts.Expr.Negation
import MethodContracts.Proofs.Cache.Refinement

/-!
# Once put, for good

Once a fingerprint stands for a result, the result should stay until it is invalidated: look-ups
find it, the same put changes nothing, and any other put is refused and changes nothing
either. This module finds out for which results that is so. It depends on the nesting of
the JSON text and on nothing else: a text that nests too deep is written and cannot be read, so
the fingerprint stands for nothing after all, and whatever is put next takes its place.
-/

namespace MethodContracts

/-- The call removes what stands under the fingerprint, whatever it is. -/
def Operation.removes (op : Operation) (fp : Fingerprint) : Bool :=
  match op with
  | .invalidate fp' => fp' = fp
  | .invalidateAll => true
  | _ => false

namespace Entries

/-- A result is left in its place by every call that does not remove it. -/
theorem next_getElem? {entries : Entries} {fp : Fingerprint} {e : Extraction}
    (hentry : entries[fp]? = some (.ok e)) {op : Operation} (h : op.removes fp = false) :
    (entries.next op)[fp]? = some (.ok e) := by
  -- a put that writes has found no result, so it is under another fingerprint
  have hput (fp' : Fingerprint) (e' : Extraction) : (entries.putNext fp' e')[fp]? = some (.ok e) := by
    rw [putNext]
    split_ifs with hwrites
    · have hne : ¬ fp' = fp := by
        rintro rfl
        simp [writes, hentry] at hwrites
      rw [Std.ExtHashMap.getElem?_insert, if_neg fun heq => hne (beq_iff_eq.mp heq), hentry]
    · exact hentry
  cases op with
  | putExtraction fp' e' => exact hput fp' e'
  | put fp' contracts => exact hput fp' ⟨contracts, []⟩
  | invalidate fp' =>
    have hne : ¬ fp' = fp := by simpa [Operation.removes] using h
    rw [next, Std.ExtHashMap.getElem?_erase, if_neg fun heq => hne (beq_iff_eq.mp heq), hentry]
  | invalidateAll => cases h
  | lookup | get | size => exact hentry

/-- A result is left in its place by calls none of which removes it. -/
theorem after_getElem? {entries : Entries} {fp : Fingerprint} {e : Extraction}
    (hentry : entries[fp]? = some (.ok e)) {ops : List Operation}
    (h : ∀ op ∈ ops, op.removes fp = false) : (entries.after ops)[fp]? = some (.ok e) := by
  induction ops generalizing entries with
  | nil => exact hentry
  | cons op rest ih =>
    exact ih (next_getElem? hentry (h op List.mem_cons_self))
      fun op hop => h op (List.mem_cons_of_mem _ hop)

/-- Only a text that does not nest too deep is read back. -/
theorem reread_eq_ok_iff {e : Extraction} : reread e = .ok e ↔ e.nesting ≤ 127 := by
  rw [reread]
  split_ifs with h <;> simp [h]

/-- A put that writes leaves what can be read back. -/
theorem putNext_of_writes {entries : Entries} {fp : Fingerprint} (h : entries.writes fp)
    (e : Extraction) : (entries.putNext fp e)[fp]? = some (reread e) := by
  rw [putNext, if_pos h, Std.ExtHashMap.getElem?_insert_self]

/-- A put that does not fail leaves the result, if the text of the result can be read. -/
theorem putNext_of_answer {entries : Entries} {fp : Fingerprint} {e : Extraction} {answer : Answer}
    (hnesting : e.nesting ≤ 127) (h : entries.putAnswer fp e = .ok answer) :
    (entries.putNext fp e)[fp]? = some (.ok e) := by
  cases hwrites : entries.writes fp with
  | true => rw [putNext_of_writes hwrites, reread_eq_ok_iff.mpr hnesting]
  | false =>
    -- nothing is written, so the put is accepted only if the result was there before
    have hsame : entries.putNext fp e = entries := if_neg (by simp [hwrites])
    rw [hsame]
    rcases hentry : entries[fp]? with _ | why | existing
    · simp [writes, hentry] at hwrites
    · simp [writes, hentry] at hwrites
    · rw [putAnswer, hentry] at h
      by_cases heq : existing = e
      · rw [heq]
      · simp [heq] at h

end Entries

namespace Operation

/-- The fingerprint stands for the result as documented: it is found, putting it again changes
nothing, and putting anything else is refused and changes nothing. -/
structure Kept (fp : Fingerprint) (e : Extraction) (records : Records) : Prop where
  lookup : (run (.lookup fp)).on records = (.ok (.found (.hit e)), records)
  same : (run (.putExtraction fp e)).on records = (.ok (.outcome .unchanged), records)
  other : ∀ e', e' ≠ e →
    (run (.putExtraction fp e')).on records = (.error (.inconsistent fp), records)

/-- A look-up answers from the map and leaves the records. -/
theorem run_lookup_on (fp : Fingerprint) (records : Records) :
    (run (.lookup fp)).on records = (records.entries.answer (.lookup fp), records) := by
  exact Prod.ext (run_obeys (.lookup fp) records).answer rfl

/-- The result is kept while the map says so, and only then. -/
theorem kept_iff {fp : Fingerprint} {e : Extraction} {records : Records} :
    Kept fp e records ↔ records.entries[fp]? = some (.ok e) := by
  constructor
  · intro h
    have hanswer := congrArg Prod.fst (run_lookup_on fp records)
    rw [h.lookup, Entries.answer] at hanswer
    rcases hentry : records.entries[fp]? with _ | _ | e' <;> rw [hentry] at hanswer <;> cases hanswer
    rfl
  · intro hentry
    have hwrites : records.entries.writes fp = false := by rw [Entries.writes, hentry]
    refine ⟨?_, ?_, fun e' hne => ?_⟩
    · rw [run_lookup_on, Entries.answer, hentry]
    · rw [putExtraction_on, Entries.putAnswer, hentry, hwrites]
      simp
    · rw [putExtraction_on, Entries.putAnswer, hentry, hwrites]
      simp [Ne.symm hne]

/-- From these records on, the result is kept as soon as it is put: no later calls change
that, whatever they are, as long as none of them removes it. -/
def KeptFrom (fp : Fingerprint) (e : Extraction) (records : Records) : Prop :=
  ∀ answer records', (run (.putExtraction fp e)).on records = (.ok answer, records') →
    ∀ later : List Operation, (∀ op ∈ later, op.removes fp = false) →
      Kept fp e (runAll later records').2

/-- A result whose text does not nest too deep is kept from any records on, damaged ones
included. -/
theorem keptFrom_of_nesting {e : Extraction} (hnesting : e.nesting ≤ 127) (fp : Fingerprint)
    (records : Records) : KeptFrom fp e records := by
  intro answer records' hput later hremoves
  have hobeys := putExtraction_obeys fp e records
  rw [hput] at hobeys
  have hentry : records'.entries[fp]? = some (.ok e) := by
    rw [hobeys.entries]
    exact Entries.putNext_of_answer hnesting hobeys.answer.symm
  obtain ⟨-, hafter, -⟩ := runAll_records later records'
  rw [kept_iff, hafter]
  exact Entries.after_getElem? hentry hremoves

/-- A result whose text nests too deep is lost by being put: the record that is written is
found and cannot be read, and whatever is put next takes its place. -/
theorem putExtraction_deep {e : Extraction} (hdeep : 127 < e.nesting) {fp : Fingerprint}
    {records : Records} (hwrites : records.entries.writes fp) :
    ∃ outcome records', (run (.putExtraction fp e)).on records = (.ok (.outcome outcome), records') ∧
      (run (.lookup fp)).on records' =
        (.ok (.found (.stale (.payload ReadError.shape.message))), records') ∧
      ∀ e', (run (.putExtraction fp e')).on records' =
        (.ok (.outcome .replaced), records'.insert fp (Record.encode e')) := by
  have hdecode : Record.decode (Record.encode e) = .error (.payload ReadError.shape.message) :=
    (Record.decode_encode e).trans (if_neg (Nat.not_le.mpr hdeep))
  have hentry : (Records.entries (records.insert fp (Record.encode e)))[fp]? =
      some (.error (.payload ReadError.shape.message)) := by
    rw [Records.entries_insert, hdecode, Std.ExtHashMap.getElem?_insert_self]
  have hput := putExtraction_on records fp e
  rw [if_pos hwrites] at hput
  have hlater : ∀ e', (run (.putExtraction fp e')).on (records.insert fp (Record.encode e)) =
      (.ok (.outcome .replaced),
        Std.ExtHashMap.insert (records.insert fp (Record.encode e)) fp (Record.encode e')) := by
    intro e'
    have hwrites' : (Records.entries (records.insert fp (Record.encode e))).writes fp = true := by
      rw [Entries.writes, hentry]
    rw [putExtraction_on, if_pos hwrites', Entries.putAnswer, hentry]
  have hlookup := run_lookup_on fp (records.insert fp (Record.encode e))
  rw [Entries.answer, hentry] at hlookup
  rcases hold : records.entries[fp]? with _ | why | existing
  · rw [Entries.putAnswer, hold] at hput
    exact ⟨_, _, hput, hlookup, hlater⟩
  · rw [Entries.putAnswer, hold] at hput
    exact ⟨_, _, hput, hlookup, hlater⟩
  · simp [Entries.writes, hold] at hwrites

/-- Over a fresh store, and whatever was called before: once the result is put, it is kept. -/
def Permanent (fp : Fingerprint) (e : Extraction) : Prop :=
  ∀ earlier : List Operation, KeptFrom fp e (runAll earlier (∅ : Records)).2

theorem permanent_of_nesting {e : Extraction} (hnesting : e.nesting ≤ 127) (fp : Fingerprint) :
    Permanent fp e :=
  fun _ => keptFrom_of_nesting hnesting fp _

/-- Already the first put over a fresh store loses a result whose text nests too deep. -/
theorem not_permanent_of_nesting {e : Extraction} (hdeep : 127 < e.nesting) (fp : Fingerprint) :
    ¬ Permanent fp e := by
  intro hpermanent
  have hfresh : (Records.entries ∅).writes fp = true := by
    rw [Entries.writes, Records.entries_empty, Std.ExtHashMap.getElem?_empty]
  -- nothing is called before the put and nothing between it and the look-up
  obtain ⟨outcome, records', hput, hlookup, -⟩ := putExtraction_deep hdeep hfresh
  have hkept := hpermanent [] _ _ hput [] (List.forall_mem_nil _)
  have hanswer := congrArg Prod.fst (hkept.lookup.symm.trans hlookup)
  cases hanswer

/-- **A result is kept for good exactly when its text nests at most 127 deep.** -/
theorem permanent_iff (e : Extraction) (fp : Fingerprint) : Permanent fp e ↔ e.nesting ≤ 127 := by
  constructor
  · intro hpermanent
    exact Nat.le_of_not_lt fun hdeep => not_permanent_of_nesting hdeep fp hpermanent
  · intro hnesting
    exact permanent_of_nesting hnesting fp

end Operation

/-! ## Around the limit -/

namespace Node

/-- The literal `null` under so many negations. -/
def buried (n : Nat) : Node := Nat.repeat negation n (.unlocated (.literal .null))

theorem standalone_buried (n : Nat) : (buried n).Standalone := by
  induction n with
  | zero => decide
  | succ n ih =>
    have hkind : (buried (n + 1)).kind = .unary := rfl
    rw [standalone_iff, hkind]
    refine ⟨by decide, fun c hc => ?_⟩
    have heq : c = buried n := List.mem_singleton.mp hc
    exact heq ▸ ih

/-- Every negation adds three brackets. -/
theorem depth_encode_buried (n : Nat) : (buried n).encode.depth = 3 * n + 3 := by
  induction n with
  | zero => decide
  | succ n ih =>
    rw [encode_eq codec rfl]
    change max (max 0 (max (buried n).encode.depth 0) + 1 + 1) 0 + 1 = _
    rw [ih]
    omega

end Node

namespace Extraction

/-- A result with one precondition, if its condition stands on its own. -/
def requiring (condition : Node) : Extraction :=
  ⟨.accepted [⟨.requires, condition, ⟨0, none⟩, none⟩], []⟩

theorem clauses_requiring {condition : Node} (h : condition.Standalone) :
    (requiring condition).contracts.clauses = [⟨.requires, condition, ⟨0, none⟩, none⟩] :=
  ContractSet.clauses_accepted (List.forall_mem_singleton.mpr h)

/-- The condition stands in the object of its clause, in a list, in the object of the result. -/
theorem nesting_requiring {condition : Node} (h : condition.Standalone) :
    (requiring condition).nesting = condition.encode.depth + 3 := by
  have hpos : 0 < condition.encode.depth := by
    rw [Node.encode_eq Node.codec rfl]
    exact Nat.succ_pos _
  have hwrite : ContractSet.codec.write (requiring condition).contracts =
      Clause.codec.list.write [⟨.requires, condition, ⟨0, none⟩, none⟩] :=
    congrArg Clause.codec.list.write (clauses_requiring h)
  rw [nesting_eq_depth]
  change max (ContractSet.codec.write (requiring condition).contracts).depth (max (0 + 1) 0) + 1 = _
  rw [hwrite]
  change max (max (max 0 (max condition.encode.depth (max (max 0 0 + 1) 0)) + 1) 0 + 1)
    (max (0 + 1) 0) + 1 = _
  omega

end Extraction

namespace Operation

/-- Under 40 negations the limit is kept, and so is the result. -/
theorem permanent_buried :
    (Extraction.requiring (.buried 40)).contracts.clauses =
        [⟨.requires, .buried 40, ⟨0, none⟩, none⟩] ∧
      Permanent (.replicate 1) (.requiring (.buried 40)) := by
  have hstandalone := Node.standalone_buried 40
  refine ⟨Extraction.clauses_requiring hstandalone, (permanent_iff _ _).mpr ?_⟩
  rw [Extraction.nesting_requiring hstandalone, Node.depth_encode_buried]
  omega

/-- One negation more, and the result is not kept. -/
theorem not_permanent_buried :
    (Extraction.requiring (.buried 41)).contracts.clauses =
        [⟨.requires, .buried 41, ⟨0, none⟩, none⟩] ∧
      ¬ Permanent (.replicate 1) (.requiring (.buried 41)) := by
  have hstandalone := Node.standalone_buried 41
  refine ⟨Extraction.clauses_requiring hstandalone, not_permanent_of_nesting ?_ _⟩
  rw [Extraction.nesting_requiring hstandalone, Node.depth_encode_buried]
  omega

end Operation

end MethodContracts
