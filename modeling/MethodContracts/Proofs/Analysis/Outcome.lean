import MethodContracts.Proofs.Analysis.Method

/-!
# Analyses one after another

What an analysis comes to depends on the store only through the record under the fingerprint of
the method, and it writes to that fingerprint only: `Analysis.outcome` says what is reported and
what is written, and `method_on_eq` that this is all there is to an analysis. So methods with
other fingerprints do not matter to a method, however many of them are analyzed before it.
-/

namespace MethodContracts

/-! ## Stores -/

/-- The records with one more of them, if there is one to write. -/
def Records.written (records : Records) (fp : Fingerprint) : Option Bytes → Records
  | some record => records.insert fp record
  | none => records

theorem Records.getElem?_written_self (records : Records) (fp : Fingerprint)
    (record? : Option Bytes) : (records.written fp record?)[fp]? = record?.or records[fp]? := by
  cases record? with
  | none => rfl
  | some record => exact Std.ExtHashMap.getElem?_insert_self

theorem Records.getElem?_written_of_ne (records : Records) {fp other : Fingerprint}
    (h : fp ≠ other) (record? : Option Bytes) :
    (records.written fp record?)[other]? = records[other]? := by
  cases record? with
  | none => rfl
  | some record =>
    rw [written, Std.ExtHashMap.getElem?_insert, if_neg fun heq => h (beq_iff_eq.mp heq)]

/-! ## One analysis -/

/-- What is found in a body that is not malformed. -/
def Extractor.found (x : Extractor) (m : Method) : Extraction :=
  .ofCandidates ((x.candidates m).map Prod.snd)

/-- What an analysis comes to: a report, and the record that is written, if one is. -/
structure Outcome where
  report : MethodReport
  written : Option Bytes

namespace Analysis

/-- What the analysis of a method comes to, told from the record under its fingerprint. -/
def outcome (x : Extractor) (m : Method) (record : Option Bytes) : Outcome :=
  match record.map Record.decode with
  | some (.ok e) => ⟨.ofExtraction m .cache e [], none⟩
  | entry =>
    match m.root.preorder.findSome? Node.opcode? with
    | some opcode => ⟨.ofMalformed m.qualifiedName m opcode (staleRemarks entry), none⟩
    | none =>
      ⟨.ofExtraction m .extracted (x.found m) (staleRemarks entry),
        some (Record.encode (x.found m))⟩

section Cases

variable {x : Extractor} {m : Method} {record : Option Bytes}

theorem outcome_of_hit {e : Extraction} (h : record.map Record.decode = some (.ok e)) :
    outcome x m record = ⟨.ofExtraction m .cache e [], none⟩ := by
  rw [outcome, h]

theorem outcome_of_opcode (h : ∀ e, record.map Record.decode ≠ some (.ok e)) {opcode : String}
    (hopcode : m.root.preorder.findSome? Node.opcode? = some opcode) :
    outcome x m record =
      ⟨.ofMalformed m.qualifiedName m opcode (staleRemarks (record.map Record.decode)), none⟩ := by
  rw [outcome.eq_def]
  split
  · next e hentry => exact absurd hentry (h e)
  · rw [hopcode]

theorem outcome_of_recognized (h : ∀ e, record.map Record.decode ≠ some (.ok e))
    (hm : m.root.Recognized) :
    outcome x m record =
      ⟨.ofExtraction m .extracted (x.found m) (staleRemarks (record.map Record.decode)),
        some (Record.encode (x.found m))⟩ := by
  rw [outcome.eq_def]
  split
  · next e hentry => exact absurd hentry (h e)
  · rw [(Node.findSome?_opcode_eq_none_iff _).mpr hm]

end Cases

/-- **An analysis is its outcome.** It does not fail, reports what the record under the fingerprint
of the method leads to, and writes to no other fingerprint. -/
theorem method_on_eq (x : Extractor) (m : Method) (records : Records) :
    (method x m).on records =
      (.ok (outcome x m records[m.fingerprint]?).report,
        records.written m.fingerprint (outcome x m records[m.fingerprint]?).written) := by
  by_cases hwrites : records.entries.writes m.fingerprint
  · have hmiss : ∀ e, records[m.fingerprint]?.map Record.decode ≠ some (.ok e) := by
      rw [← Records.getElem?_entries]
      exact Entries.writes_iff.mp hwrites
    rw [method_on_eq_finish x hwrites, Records.getElem?_entries]
    cases hopcode : m.root.preorder.findSome? Node.opcode? with
    | some opcode =>
      rw [finish_on_of_opcode hopcode, outcome_of_opcode hmiss hopcode]
      rfl
    | none =>
      have hm := (Node.findSome?_opcode_eq_none_iff _).mp hopcode
      have hsame (e : Extraction) (hentry : records.entries[m.fingerprint]? = some (.ok e)) :
          e = x.found m := absurd hentry (Entries.writes_iff.mp hwrites e)
      rw [finish_on_of_extract (x.extract_of_recognized hm) hsame, outcome_of_recognized hmiss hm,
        Records.settle, if_pos hwrites]
      rfl
  · obtain ⟨e, hentry⟩ := Entries.not_writes_iff.mp hwrites
    rw [method_on_of_hit hentry, outcome_of_hit (Records.getElem?_entries .. ▸ hentry)]
    rfl

/-! ## Analyses one after another -/

/-- The reports on methods that are analyzed in turn. -/
def reports (x : Extractor) : List Method → Records → List MethodReport
  | [], _ => []
  | m :: rest, records =>
    (outcome x m records[m.fingerprint]?).report ::
      reports x rest
        (records.written m.fingerprint (outcome x m records[m.fingerprint]?).written)

/-- The records after methods were analyzed in turn. -/
def after (x : Extractor) : List Method → Records → Records
  | [], records => records
  | m :: rest, records =>
    after x rest (records.written m.fingerprint (outcome x m records[m.fingerprint]?).written)

/-- **Analyses one after another do not fail.** -/
theorem methods_on_eq (x : Extractor) (ms : List Method) (records : Records) :
    (methods x ms).on records = (.ok (reports x ms records), after x ms records) := by
  induction ms generalizing records with
  | nil => rfl
  | cons m rest ih =>
    simp only [methods, AnalysisM.on_bind, method_on_eq, ih]
    rfl

/-- Methods with other fingerprints leave a record alone. -/
theorem getElem?_after {x : Extractor} {ms : List Method} {fp : Fingerprint}
    (h : ∀ m ∈ ms, m.fingerprint ≠ fp) (records : Records) :
    (after x ms records)[fp]? = records[fp]? := by
  induction ms generalizing records with
  | nil => rfl
  | cons m rest ih =>
    obtain ⟨hm, hrest⟩ := List.forall_mem_cons.mp h
    rw [after, ih hrest, Records.getElem?_written_of_ne _ hm]

end Analysis

end MethodContracts
