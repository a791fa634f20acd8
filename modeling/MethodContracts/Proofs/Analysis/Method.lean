import MethodContracts.Proofs.Analysis.Standalone
import MethodContracts.Proofs.Cache.Refinement
import MethodContracts.Proofs.Extract.Scan

/-!
# The analysis of one method

Each of the two steps of an analysis, and the two of them together, over the plain store. None of
the failures that the steps provide for can happen there when nothing runs in between: the put
finds what the look-up has found, so it never meets another result, and extraction fails at
unrecognized instructions only, which are reported.
-/

namespace MethodContracts

variable {σ α β : Type}

/-! ## Running an analysis -/

namespace AnalysisM

@[simp] theorem on_pure (a : α) (s : σ) : on (pure a) s = (.ok a, s) := rfl

@[simp] theorem on_throw (why : AnalysisError) (s : σ) :
    on (throw why : AnalysisM σ α) s = (.error why, s) := rfl

theorem on_lift (act : StoreM σ α) (s : σ) :
    on act.lift s = ((act.on s).1.mapError .storage, (act.on s).2) := rfl

/-- An analysis goes on from the result and the store of its first part, unless that failed. -/
theorem on_bind (act : AnalysisM σ α) (next : α → AnalysisM σ β) (s : σ) :
    on (act >>= next) s =
      match on act s with
      | (.ok a, s) => on (next a) s
      | (.error why, s) => (.error why, s) := by
  change ExceptT.bindCont next (on act s).1 (on act s).2 = _
  rcases on act s with ⟨_ | a, s⟩ <;> rfl

/-- An analysis has a result only when both its parts have one. -/
theorem exists_of_on_bind {act : AnalysisM σ α} {next : α → AnalysisM σ β} {b : β} {s s' : σ}
    (h : on (act >>= next) s = (.ok b, s')) :
    ∃ a s₁, on act s = (.ok a, s₁) ∧ on (next a) s₁ = (.ok b, s') := by
  rw [on_bind] at h
  split at h
  · next a s₁ hact => exact ⟨a, s₁, hact, h⟩
  · cases h

end AnalysisM

/-! ## What a report says of a body -/

/-- The status of a result says whether it has diagnostics. -/
theorem Status.ofExtraction_eq (e : Extraction) :
    Status.ofExtraction e = if e.diagnostics = [] then .success else .partially := by
  rw [ofExtraction, Extraction.isPartial]
  cases e.diagnostics <;> rfl

namespace MethodReport

/-- The report says of the body what extraction finds in it, after some remarks: the first
unrecognized instruction of a malformed body, and the contracts and diagnostics of any other. -/
def Describes (report : MethodReport) (x : Extractor) (m : Method) (before : List Remark) : Prop :=
  report.method = m.qualifiedName ∧ report.fingerprint = m.fingerprint ∧
    match m.root.preorder.findSome? Node.opcode? with
    | some opcode =>
      x.extract m = .error (.malformedTree m.qualifiedName opcode) ∧ report.status = .failed ∧
        report.contracts = .empty ∧ report.remarks = before ++ [.malformedTree opcode]
    | none =>
      ∃ e, x.extract m = .ok e ∧
        report.status = (if e.diagnostics = [] then .success else .partially) ∧
        report.contracts = e.contracts ∧ report.remarks = before ++ e.diagnostics.map .extraction

theorem describes_of_extract {x : Extractor} {m : Method} {e : Extraction}
    (h : x.extract m = .ok e) (source : Origin) (before : List Remark) :
    (ofExtraction m source e before).Describes x m before := by
  refine ⟨rfl, rfl, ?_⟩
  rw [(Node.findSome?_opcode_eq_none_iff _).mpr (Extractor.recognized_of_extract h)]
  exact ⟨e, h, Status.ofExtraction_eq e, rfl, rfl⟩

theorem describes_of_opcode {m : Method} {opcode : String}
    (h : m.root.preorder.findSome? Node.opcode? = some opcode) (x : Extractor)
    (before : List Remark) :
    (ofMalformed m.qualifiedName m opcode before).Describes x m before := by
  refine ⟨rfl, rfl, ?_⟩
  rw [h]
  exact ⟨x.extract_of_opcode h, rfl, rfl, rfl⟩

end MethodReport

/-! ## Puts that cannot be refused -/

/-- A put writes where no result can be read. -/
theorem Entries.writes_iff {entries : Entries} {fp : Fingerprint} :
    entries.writes fp = true ↔ ∀ e, entries[fp]? ≠ some (.ok e) := by
  rw [writes]
  rcases entries[fp]? with _ | _ | _ <;> simp

theorem Entries.not_writes_iff {entries : Entries} {fp : Fingerprint} :
    ¬ entries.writes fp = true ↔ ∃ e, entries[fp]? = some (.ok e) := by
  rw [writes]
  rcases entries[fp]? with _ | _ | _ <;> simp

/-- The records after a put of a result that agrees with what is there: a record that can be read
stays as it is. -/
def Records.settle (records : Records) (fp : Fingerprint) (e : Extraction) : Records :=
  if records.entries.writes fp then records.insert fp (Record.encode e) else records

theorem Records.getElem?_settle_self (records : Records) (fp : Fingerprint) (e : Extraction) :
    (records.settle fp e)[fp]? =
      if records.entries.writes fp then some (Record.encode e) else records[fp]? := by
  rw [settle]
  split_ifs
  · exact Std.ExtHashMap.getElem?_insert_self
  · rfl

theorem Records.getElem?_settle_of_ne (records : Records) {fp other : Fingerprint}
    (h : fp ≠ other) (e : Extraction) : (records.settle fp e)[other]? = records[other]? := by
  rw [settle]
  split_ifs
  · rw [Std.ExtHashMap.getElem?_insert, if_neg fun heq => h (beq_iff_eq.mp heq)]
  · rfl

/-- A put is accepted where no other result can be read. -/
theorem Cache.putExtraction_on_settle {records : Records} {fp : Fingerprint} {e : Extraction}
    (h : ∀ e', records.entries[fp]? = some (.ok e') → e' = e) :
    ∃ outcome, (Cache.putExtraction fp e).on records = (.ok outcome, records.settle fp e) := by
  have hput := Operation.putExtraction_on records fp e
  rw [Operation.run, StoreM.on_map] at hput
  have hanswer : ∃ outcome, records.entries.putAnswer fp e = .ok (.outcome outcome) := by
    rw [Entries.putAnswer]
    rcases hentry : records.entries[fp]? with _ | why | existing
    · exact ⟨_, rfl⟩
    · exact ⟨_, rfl⟩
    · exact ⟨_, if_pos (h existing hentry)⟩
  obtain ⟨outcome, houtcome⟩ := hanswer
  rw [houtcome] at hput
  obtain ⟨hresult, hrecords⟩ := Prod.mk.inj hput
  obtain ⟨outcome', hok, -⟩ := map_eq_ok_iff.mp hresult
  exact ⟨outcome', Prod.ext hok hrecords⟩

/-! ## The two steps -/

namespace Analysis

/-- The look-up does not fail and changes nothing. -/
theorem lookup_on (m : Method) (records : Records) :
    (lookup m).on records = (.ok (progress m (.ofRecord records[m.fingerprint]?)), records) := by
  rw [lookup, AnalysisM.on_bind, AnalysisM.on_lift, Operation.lookup_on]
  rfl

/-- A result that agrees with what is stored is stored and reported. -/
theorem finish_on_of_extract {x : Extractor} {m : Method} {e : Extraction} {records : Records}
    (hextract : x.extract m = .ok e)
    (h : ∀ e', records.entries[m.fingerprint]? = some (.ok e') → e' = e) (remarks : List Remark) :
    (finish x m remarks).on records =
      (.ok (.ofExtraction m .extracted e remarks), records.settle m.fingerprint e) := by
  obtain ⟨outcome, hput⟩ := Cache.putExtraction_on_settle h
  rw [finish, hextract]
  simp only [AnalysisM.on_bind, AnalysisM.on_lift, hput]
  rfl

/-- A malformed body is reported, and nothing is stored for it. -/
theorem finish_on_of_opcode {m : Method} {opcode : String}
    (h : m.root.preorder.findSome? Node.opcode? = some opcode) (x : Extractor)
    (remarks : List Remark) (records : Records) :
    (finish x m remarks).on records =
      (.ok (.ofMalformed m.qualifiedName m opcode remarks), records) := by
  rw [finish, x.extract_of_opcode h]
  rfl

/-- Where no result can be read, the second step describes the body and stores what it finds. -/
theorem finish_on_of_writes (x : Extractor) {m : Method} {records : Records}
    (h : records.entries.writes m.fingerprint) (remarks : List Remark) :
    ∃ report, (finish x m remarks).on records =
        (.ok report, match x.extract m with
          | .ok e => records.insert m.fingerprint (Record.encode e)
          | .error _ => records) ∧
      report.source = .extracted ∧ report.Describes x m remarks := by
  cases hopcode : m.root.preorder.findSome? Node.opcode? with
  | some opcode =>
    refine ⟨_, ?_, rfl, MethodReport.describes_of_opcode hopcode x remarks⟩
    rw [finish_on_of_opcode hopcode, x.extract_of_opcode hopcode]
  | none =>
    have hextract := x.extract_of_recognized ((Node.findSome?_opcode_eq_none_iff _).mp hopcode)
    refine ⟨_, ?_, rfl, MethodReport.describes_of_extract hextract _ remarks⟩
    rw [finish_on_of_extract hextract fun e' hentry => absurd hentry (Entries.writes_iff.mp h e'),
      hextract, Records.settle, if_pos h]

/-! ## Both steps -/

/-- The remark on a record that cannot be read. -/
def staleRemarks : Option (Except FormatError Extraction) → List Remark
  | some (.error why) => [.staleRecord why]
  | _ => []

/-- After a hit the stored result is reported. -/
theorem method_on_of_hit {m : Method} {e : Extraction} {records : Records}
    (h : records.entries[m.fingerprint]? = some (.ok e)) (x : Extractor) :
    (method x m).on records = (.ok (.ofExtraction m .cache e []), records) := by
  rw [method, AnalysisM.on_bind, lookup_on, Lookup.ofRecord_eq, ← Records.getElem?_entries, h]
  rfl

/-- After anything else the second step has its turn. -/
theorem method_on_eq_finish (x : Extractor) {m : Method} {records : Records}
    (h : records.entries.writes m.fingerprint) :
    (method x m).on records =
      (finish x m (staleRemarks records.entries[m.fingerprint]?)).on records := by
  rw [method, AnalysisM.on_bind, lookup_on, Lookup.ofRecord_eq, ← Records.getElem?_entries]
  rcases hentry : records.entries[m.fingerprint]? with _ | why | e
  · rfl
  · rfl
  · exact absurd hentry (Entries.writes_iff.mp h e)

/-- Then the report describes the body. -/
theorem method_on_of_writes (x : Extractor) {m : Method} {records : Records}
    (h : records.entries.writes m.fingerprint) :
    ∃ report, (method x m).on records =
        (.ok report, match x.extract m with
          | .ok e => records.insert m.fingerprint (Record.encode e)
          | .error _ => records) ∧
      report.source = .extracted ∧
        report.Describes x m (staleRemarks records.entries[m.fingerprint]?) := by
  rw [method_on_eq_finish x h]
  exact finish_on_of_writes x h _

/-- **One analysis, for any configuration, body and contents of the store.** It never fails. When
the record of the body can be read, its result is reported and nothing else counts. Otherwise the
report describes the body, after a remark on the record if there is one, and the result of a body
that is not malformed is stored. -/
theorem method_on (c : Config) (m : Method) (records : Records) :
    ∃ report records', (method (.ofConfig c) m).on records = (.ok report, records') ∧
      match records[m.fingerprint]?.map Record.decode with
      | some (.ok e) =>
        report = ⟨m.qualifiedName, m.fingerprint,
          if e.diagnostics = [] then .success else .partially, .cache, e.contracts,
          e.diagnostics.map .extraction⟩ ∧
        records' = records
      | entry =>
        report.source = .extracted ∧ report.Describes (.ofConfig c) m (staleRemarks entry) ∧
          records' = match (Extractor.ofConfig c).extract m with
            | .ok e => records.insert m.fingerprint (Record.encode e)
            | .error _ => records := by
  rw [← Records.getElem?_entries]
  by_cases hwrites : records.entries.writes m.fingerprint
  · obtain ⟨report, hmethod, hsource, hreport⟩ := method_on_of_writes (.ofConfig c) hwrites
    refine ⟨report, _, hmethod, ?_⟩
    split
    · next e hentry => exact absurd hentry (Entries.writes_iff.mp hwrites e)
    · exact ⟨hsource, hreport, rfl⟩
  · obtain ⟨e, hentry⟩ := Entries.not_writes_iff.mp hwrites
    refine ⟨_, _, method_on_of_hit hentry _, ?_⟩
    rw [hentry, MethodReport.ofExtraction, Status.ofExtraction_eq]
    exact ⟨rfl, rfl⟩

end Analysis

end MethodContracts
