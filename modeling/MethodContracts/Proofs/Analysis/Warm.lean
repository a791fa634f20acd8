import MethodContracts.Proofs.Analysis.Outcome

/-!
# A warm cache does not change the answer

When a method is analyzed a second time, after any number of methods with other fingerprints, the
report says the same of it as the first one did. The first report came from extraction or from the
cache, and so may the second: an extraction result goes through its record and back, and nothing
that a report shows gets lost on the way. A result whose text nests too deep is written as a record
that cannot be read, so it is extracted again, and the second report only has a remark on that
record in front.
-/

namespace MethodContracts

/-! ## What a report says -/

namespace Remark

/-- Remarks on a record that cannot be read. All others are remarks on the body. -/
def isStale : Remark → Bool
  | staleRecord _ => true
  | _ => false

/-- The diagnostic that the remark is made of. -/
def diagnostic? : Remark → Option Diagnostic
  | extraction d => some d
  | _ => none

/-- Remarks on records hold no diagnostics. -/
theorem diagnostic?_of_isStale {remark : Remark} (h : remark.isStale) :
    remark.diagnostic? = none := by
  cases remark with
  | staleRecord why => rfl
  | extraction d => cases h
  | malformedTree opcode => cases h

end Remark

namespace MethodReport

/-- The remarks on the body. -/
def findings (report : MethodReport) : List Remark :=
  report.remarks.filter fun remark => !remark.isStale

/-- The extraction result that is reported. -/
def extraction (report : MethodReport) : Extraction :=
  ⟨report.contracts, report.remarks.filterMap Remark.diagnostic?⟩

/-- The reports say the same of a method. They may differ in where the result comes from and in
remarks on records. -/
structure SaysSame (report other : MethodReport) : Prop where
  method : report.method = other.method
  fingerprint : report.fingerprint = other.fingerprint
  status : report.status = other.status
  contracts : report.contracts = other.contracts
  findings : report.findings = other.findings

theorem SaysSame.refl (report : MethodReport) : report.SaysSame report := ⟨rfl, rfl, rfl, rfl, rfl⟩

/-- Every remark on a record is about one that cannot be read. -/
theorem isStale_of_mem_staleRemarks {entry : Option (Except FormatError Extraction)}
    {remark : Remark} (h : remark ∈ Analysis.staleRemarks entry) : remark.isStale := by
  rcases entry with _ | why | e
  · cases h
  · rw [List.mem_singleton.mp h, Remark.isStale]
  · cases h

variable (m : Method) (source : Origin) (e : Extraction)
  (entry : Option (Except FormatError Extraction))

/-- The findings on a body that is not malformed are the diagnostics of its result. -/
theorem findings_ofExtraction :
    (ofExtraction m source e (Analysis.staleRemarks entry)).findings =
      e.diagnostics.map .extraction := by
  have hstale : (Analysis.staleRemarks entry).filter (fun remark => !remark.isStale) = [] := by
    refine List.filter_eq_nil_iff.mpr fun remark hremark => ?_
    rw [isStale_of_mem_staleRemarks hremark]
    decide
  rw [findings, ofExtraction, List.filter_append, hstale, List.nil_append, List.filter_eq_self]
  intro remark hremark
  obtain ⟨d, -, rfl⟩ := List.mem_map.mp hremark
  rfl

/-- The reported result is the one that the report was made from. -/
theorem extraction_ofExtraction :
    (ofExtraction m source e (Analysis.staleRemarks entry)).extraction = e := by
  have hstale : (Analysis.staleRemarks entry).filterMap Remark.diagnostic? = [] :=
    List.filterMap_eq_nil_iff.mpr fun _ hremark =>
      Remark.diagnostic?_of_isStale (isStale_of_mem_staleRemarks hremark)
  have hdiagnostics : (e.diagnostics.map Remark.extraction).filterMap Remark.diagnostic? =
      e.diagnostics := by
    rw [List.filterMap_map]
    exact List.filterMap_some
  rw [extraction, ofExtraction, List.filterMap_append, hstale, hdiagnostics]
  rfl

/-- Without a remark on a record in front there is none. -/
theorem staleRecord_not_mem (why : FormatError) :
    .staleRecord why ∉ (ofExtraction m source e []).remarks := by
  intro h
  obtain ⟨d, -, hd⟩ := List.mem_map.mp h
  cases hd

/-- Reports on one result say the same, wherever they have it from. -/
theorem saysSame_ofExtraction (source' : Origin)
    (entry' : Option (Except FormatError Extraction)) :
    (ofExtraction m source e (Analysis.staleRemarks entry)).SaysSame
      (ofExtraction m source' e (Analysis.staleRemarks entry')) := by
  refine ⟨rfl, rfl, rfl, rfl, ?_⟩
  rw [findings_ofExtraction, findings_ofExtraction]

theorem status_ofExtraction_ne (before : List Remark) :
    (ofExtraction m source e before).status ≠ .failed := by
  rw [ofExtraction, Status.ofExtraction_eq]
  split_ifs <;> intro h <;> cases h

end MethodReport

/-! ## The second outcome -/

namespace Analysis

/-- What is found after the first analysis of a method leads to an outcome that says the same. -/
structure Repeats (first second : Outcome) : Prop where
  saysSame : second.report.SaysSame first.report
  /-- a result that can be stored comes from the cache -/
  cached : first.report.status ≠ .failed → first.report.extraction.nesting ≤ 127 →
    second.report.source = .cache ∧ (∀ why, .staleRecord why ∉ second.report.remarks) ∧
      second.written = none
  failed : first.report.status = .failed → first.written = none ∧ second.written = none

/-- A result that was extracted is read back from its record when its text is not too deep, and is
extracted again when it is. -/
theorem repeats_of_recognized (x : Extractor) {m : Method} {record : Option Bytes}
    (hmiss : ∀ e, record.map Record.decode ≠ some (.ok e)) (hm : m.root.Recognized) :
    Repeats (outcome x m record) (outcome x m ((outcome x m record).written.or record)) := by
  have hdecode := Record.decode_encode (x.found m)
  have hfailed := MethodReport.status_ofExtraction_ne m .extracted (x.found m)
    (staleRemarks (record.map Record.decode))
  rw [outcome_of_recognized hmiss hm, Option.some_or]
  by_cases hnesting : (x.found m).nesting ≤ 127
  · rw [if_pos hnesting] at hdecode
    have hentry : (some (Record.encode (x.found m))).map Record.decode =
        some (.ok (x.found m)) := congrArg some hdecode
    rw [outcome_of_hit hentry]
    exact ⟨MethodReport.saysSame_ofExtraction m .cache _ none _ _,
      fun _ _ => ⟨rfl, MethodReport.staleRecord_not_mem m .cache _, rfl⟩,
      fun hstatus => absurd hstatus hfailed⟩
  · rw [if_neg hnesting] at hdecode
    have hstale : ∀ e, (some (Record.encode (x.found m))).map Record.decode ≠ some (.ok e) := by
      rw [Option.map_some, hdecode]
      exact nofun
    rw [outcome_of_recognized hstale hm]
    refine ⟨MethodReport.saysSame_ofExtraction .., fun _ hshallow => ?_,
      fun hstatus => absurd hstatus hfailed⟩
    rw [MethodReport.extraction_ofExtraction] at hshallow
    exact absurd hshallow hnesting

/-- The second outcome, from the record that the first analysis has left. -/
theorem outcome_repeats (x : Extractor) (m : Method) (record : Option Bytes) :
    Repeats (outcome x m record) (outcome x m ((outcome x m record).written.or record)) := by
  by_cases hhit : ∃ e, record.map Record.decode = some (.ok e)
  · obtain ⟨e, hentry⟩ := hhit
    -- the first report comes from the cache, and so does the second
    rw [outcome_of_hit hentry, Option.none_or, outcome_of_hit hentry]
    exact ⟨.refl _, fun _ _ => ⟨rfl, MethodReport.staleRecord_not_mem m .cache e, rfl⟩,
      fun _ => ⟨rfl, rfl⟩⟩
  · have hmiss : ∀ e, record.map Record.decode ≠ some (.ok e) := fun e he => hhit ⟨e, he⟩
    cases hopcode : m.root.preorder.findSome? Node.opcode? with
    | some opcode =>
      -- nothing was written, so the second analysis is the first one again
      rw [outcome_of_opcode hmiss hopcode, Option.none_or, outcome_of_opcode hmiss hopcode]
      exact ⟨.refl _, fun hstatus => absurd rfl hstatus, fun _ => ⟨rfl, rfl⟩⟩
    | none =>
      exact repeats_of_recognized x hmiss ((Node.findSome?_opcode_eq_none_iff _).mp hopcode)

/-- **A warm cache does not change the answer.** A method is analyzed, then any methods with other
fingerprints, then the method again. None of this fails, and the second report says the same as
the first. When the first has a result whose text nests at most 127 brackets, the second comes from
the cache and leaves the store as it was; when the first has failed, nothing is written at all. -/
theorem method_on_again (x : Extractor) (m : Method) (records : Records) {between : List Method}
    (hbetween : ∀ other ∈ between, other.fingerprint ≠ m.fingerprint) :
    ∃ first records₁ reports records₂ second records₃,
      (method x m).on records = (.ok first, records₁) ∧
      (methods x between).on records₁ = (.ok reports, records₂) ∧
      (method x m).on records₂ = (.ok second, records₃) ∧
      second.SaysSame first ∧
      (first.status ≠ .failed → first.extraction.nesting ≤ 127 →
        second.source = .cache ∧ (∀ why, .staleRecord why ∉ second.remarks) ∧
          records₃ = records₂) ∧
      (first.status = .failed →
        second.status = .failed ∧ records₁ = records ∧ records₃ = records₂) := by
  refine ⟨_, _, _, _, _, _, method_on_eq .., methods_on_eq .., method_on_eq .., ?_⟩
  -- the methods in between leave the record of this one alone
  rw [getElem?_after hbetween, Records.getElem?_written_self]
  obtain ⟨hsame, hcached, hfailed⟩ := outcome_repeats x m records[m.fingerprint]?
  refine ⟨hsame, fun hstatus hnesting => ?_, fun hstatus => ?_⟩
  · obtain ⟨hsource, hremarks, hwritten⟩ := hcached hstatus hnesting
    refine ⟨hsource, hremarks, ?_⟩
    rw [hwritten]
    rfl
  · obtain ⟨hfirst, hsecond⟩ := hfailed hstatus
    refine ⟨hsame.status.trans hstatus, ?_, ?_⟩
    · rw [hfirst]
      rfl
    · rw [hsecond]
      rfl

/-- An empty method finds a damaged record and replaces it. Then comes a malformed method, and then
the empty one again, from the cache. -/
theorem method_on_again_damaged :
    let x := Extractor.ofConfig .standard
    let m : Method := ⟨"T", ⟨"f", [], "void"⟩, .replicate 1, [], none⟩
    let malformed : Method :=
      ⟨"T", ⟨"g", [], "void"⟩, .replicate 2, [.unlocated (.unrecognized "calli" [])], none⟩
    let records := (∅ : Records).insert (.replicate 1) [0x49, 0x4c]
    (∀ other ∈ [malformed], other.fingerprint ≠ m.fingerprint) ∧
      ∃ first records₁ reports records₂ second,
        (method x m).on records = (.ok first, records₁) ∧
        (methods x [malformed]).on records₁ = (.ok reports, records₂) ∧
        (method x m).on records₂ = (.ok second, records₂) ∧
        first.source = .extracted ∧ first.remarks = [.staleRecord (.truncated 2 38)] ∧
        second.SaysSame first ∧ second.source = .cache ∧
          ∀ why, .staleRecord why ∉ second.remarks := by
  intro x m malformed records
  have hother : ∀ other ∈ [malformed], other.fingerprint ≠ m.fingerprint := by decide
  have hentry : records[m.fingerprint]?.map Record.decode =
      some (.error (.truncated 2 38)) := by
    rw [show records[m.fingerprint]? = some [0x49, 0x4c] from Std.ExtHashMap.getElem?_insert_self]
    rfl
  have hmiss : ∀ e, records[m.fingerprint]?.map Record.decode ≠ some (.ok e) := by
    rw [hentry]
    exact nofun
  have hm : m.root.Recognized := by decide
  have hfound : x.found m = .empty := rfl
  obtain ⟨first, records₁, reports, records₂, second, records₃, hfirst, hothers, hsecond, hsame,
    hcached, -⟩ := method_on_again x m records hother
  have hreport : first = .ofExtraction m .extracted .empty
      (staleRemarks (some (.error (.truncated 2 38)))) := by
    rw [method_on_eq, outcome_of_recognized hmiss hm, hentry, hfound] at hfirst
    cases hfirst
    rfl
  have hnesting : first.extraction.nesting ≤ 127 := by
    rw [hreport, MethodReport.extraction_ofExtraction, Extraction.nesting_eq_depth]
    decide
  have hstatus : first.status ≠ .failed := by
    rw [hreport]
    exact MethodReport.status_ofExtraction_ne m .extracted .empty _
  obtain ⟨hsource, hremarks, rfl⟩ := hcached hstatus hnesting
  exact ⟨hother, first, records₁, reports, _, second, hfirst, hothers, hsecond, hreport ▸ rfl,
    hreport ▸ rfl, hsame, hsource, hremarks⟩

end Analysis

end MethodContracts
