import MethodContracts.Proofs.Extract.Candidates

/-!
# Which entry is about which statement

A result holds contracts in one list and notes on left-out candidates in another. Taken together
they are the entries of the method: one for every contract call and every guard, in the order of
the statements. `Extractor.Traces` ties a list of entries, each with the index of its statement, to
the method and to the result of extraction, so that one can speak of the entry of a statement
whatever has become of it.
-/

namespace MethodContracts

/-! ## Entries -/

/-- What extraction leaves of a statement that declares a clause. -/
inductive Entry where
  | contract (clause : Clause)
  /-- the clause was left out -/
  | note (d : Diagnostic)
deriving DecidableEq

namespace Entry

/-- The kind of the clause that was declared. -/
def kind : Entry → ClauseKind
  | contract clause => clause.kind
  | note d => d.kind

/-- The place of the statement. -/
def position : Entry → Position
  | contract clause => clause.position
  | note d => d.position

/-- The entry with another kind and nothing else changed. -/
def withKind (kind : ClauseKind) : Entry → Entry
  | contract clause => contract { clause with kind }
  | note d => note { d with kind }

/-- The clause, when it was accepted. -/
def contract? : Entry → Option Clause
  | contract clause => some clause
  | note _ => none

/-- The note on the clause, when it was left out. -/
def note? : Entry → Option Diagnostic
  | contract _ => none
  | note d => some d

/-- A candidate is accepted when it has no stack markers. -/
def ofCandidate (clause : Clause) : Entry :=
  if clause.markers = 0 then contract clause else note clause.diagnostic

theorem ofCandidate_cases (clause : Clause) :
    (clause.markers = 0 ∧ ofCandidate clause = contract clause) ∨
      (clause.markers ≠ 0 ∧ ofCandidate clause = note clause.diagnostic) := by
  by_cases hmarkers : clause.markers = 0
  · exact .inl ⟨hmarkers, if_pos hmarkers⟩
  · exact .inr ⟨hmarkers, if_neg hmarkers⟩

@[simp] theorem kind_ofCandidate (clause : Clause) : (ofCandidate clause).kind = clause.kind := by
  obtain ⟨-, h⟩ | ⟨-, h⟩ := ofCandidate_cases clause <;> rw [h] <;> rfl

@[simp] theorem position_ofCandidate (clause : Clause) :
    (ofCandidate clause).position = clause.position := by
  obtain ⟨-, h⟩ | ⟨-, h⟩ := ofCandidate_cases clause <;> rw [h] <;> rfl

/-- The kind of a clause plays no part in whether it is accepted. -/
theorem withKind_ofCandidate (kind : ClauseKind) (clause : Clause) :
    (ofCandidate clause).withKind kind = ofCandidate { clause with kind } := by
  obtain ⟨hmarkers, h⟩ | ⟨hmarkers, h⟩ := ofCandidate_cases clause
  · rw [h]
    exact (if_pos hmarkers).symm
  · rw [h]
    exact (if_neg hmarkers).symm

end Entry

namespace Extraction

/-- The entries make up the result: its contracts are the accepted clauses and its diagnostics are
the notes. -/
structure Comprises (e : Extraction) (entries : List Entry) : Prop where
  contracts : e.contracts.clauses = entries.filterMap Entry.contract?
  diagnostics : e.diagnostics = entries.filterMap Entry.note?

theorem filterMap_contract?_ofCandidate (candidates : List Clause) :
    (candidates.map Entry.ofCandidate).filterMap Entry.contract? =
      candidates.filter (·.markers = 0) := by
  induction candidates with
  | nil => rfl
  | cons clause rest ih =>
    rw [List.map_cons, List.filterMap_cons, List.filter_cons, ih]
    obtain ⟨hmarkers, h⟩ | ⟨hmarkers, h⟩ := Entry.ofCandidate_cases clause <;>
      simp [h, hmarkers, Entry.contract?]

theorem filterMap_note?_ofCandidate (candidates : List Clause) :
    (candidates.map Entry.ofCandidate).filterMap Entry.note? =
      (candidates.filter (·.markers ≠ 0)).map Clause.diagnostic := by
  induction candidates with
  | nil => rfl
  | cons clause rest ih =>
    rw [List.map_cons, List.filterMap_cons, List.filter_cons, ih]
    obtain ⟨hmarkers, h⟩ | ⟨hmarkers, h⟩ := Entry.ofCandidate_cases clause <;>
      simp [h, hmarkers, Entry.note?]

/-- Where nothing is unrecognized, the sorted candidates are made up of their entries. -/
theorem comprises_ofCandidates {candidates : List Clause}
    (h : ∀ clause ∈ candidates, clause.condition.Recognized) :
    (ofCandidates candidates).Comprises (candidates.map Entry.ofCandidate) := by
  obtain ⟨hcontracts, hdiagnostics⟩ := lists_ofCandidates h
  exact ⟨hcontracts.trans (filterMap_contract?_ofCandidate candidates).symm,
    hdiagnostics.trans (filterMap_note?_ofCandidate candidates).symm⟩

end Extraction

/-! ## The entries of a method -/

/-- Contract calls and guards declare a clause. -/
def Shape.declares : Shape → Bool
  | contractCall .. | legacyGuard _ => true
  | _ => false

namespace Extractor

variable {x : Extractor} {m : Method}

/-- The entries are those of the method, each with the index of the statement it is about. -/
structure Traces (x : Extractor) (m : Method) (entries : List (Nat × Entry)) : Prop where
  /-- they make up the result of extraction -/
  result : ∃ e, x.extract m = .ok e ∧ e.Comprises (entries.map Prod.snd)
  /-- they are in the order of the statements, and no statement has two -/
  ordered : entries.Pairwise fun a b => a.1 < b.1
  /-- a statement has one when it declares a clause -/
  exists_iff : ∀ i, (∃ entry, (i, entry) ∈ entries) ↔
    ∃ stmt, m.statements[i]? = some stmt ∧ (x.shape stmt).declares
  /-- they are found where the statement is -/
  position : ∀ i entry, (i, entry) ∈ entries →
    ∃ stmt, m.statements[i]? = some stmt ∧ entry.position = ⟨UInt64.ofNat i, stmt.offset⟩

/-- The entries of a method: what becomes of its candidates. -/
def entries (x : Extractor) (m : Method) : List (Nat × Entry) :=
  (x.candidates m).map fun p => (p.1, .ofCandidate p.2)

theorem mem_entries {i : Nat} {entry : Entry} :
    (i, entry) ∈ x.entries m ↔
      ∃ stmt clause, m.statements[i]? = some stmt ∧
        x.clause? (x.regionsOf m) i stmt = some clause ∧ entry = .ofCandidate clause := by
  constructor
  · intro h
    obtain ⟨⟨j, clause⟩, hclause, heq⟩ := List.mem_map.mp h
    cases heq
    obtain ⟨stmt, hstmt, hclause⟩ := (mem_candidates x m _ clause).mp hclause
    exact ⟨stmt, clause, hstmt, hclause, rfl⟩
  · rintro ⟨stmt, clause, hstmt, hclause, rfl⟩
    have hcandidate := (mem_candidates x m i clause).mpr ⟨stmt, hstmt, hclause⟩
    exact List.mem_map.mpr ⟨(i, clause), hcandidate, rfl⟩

theorem pairwise_entries (x : Extractor) (m : Method) :
    (x.entries m).Pairwise fun a b => a.1 < b.1 :=
  (pairwise_candidates x m).map _ fun _ _ hlt => hlt

theorem clause?_eq_none_iff (regions : Regions) (i : Nat) (stmt : Node) :
    x.clause? regions i stmt = none ↔ (x.shape stmt).declares = false := by
  rw [clause?]
  cases x.shape stmt <;> simp [Shape.declares]

theorem position_of_clause? {regions : Regions} {i : Nat} {stmt : Node} {clause : Clause}
    (h : x.clause? regions i stmt = some clause) :
    clause.position = ⟨UInt64.ofNat i, stmt.offset⟩ := by
  rw [clause?] at h
  split at h
  · cases h
    rfl
  · cases h
    rfl
  · cases h

/-- **Extraction accounts for every statement that declares a clause.** -/
theorem traces_entries (h : m.root.Recognized) : x.Traces m (x.entries m) where
  result := by
    have hcomprises := Extraction.comprises_ofCandidates (recognized_of_mem_candidates x h)
    rw [List.map_map] at hcomprises
    refine ⟨_, extract_of_recognized x h, ?_⟩
    rw [entries, List.map_map]
    exact hcomprises
  ordered := pairwise_entries x m
  exists_iff := by
    intro i
    constructor
    · rintro ⟨entry, hentry⟩
      obtain ⟨stmt, clause, hstmt, hclause, -⟩ := mem_entries.mp hentry
      refine ⟨stmt, hstmt, ?_⟩
      cases hdeclares : (x.shape stmt).declares with
      | true => rfl
      | false =>
        rw [(clause?_eq_none_iff (x.regionsOf m) i stmt).mpr hdeclares] at hclause
        cases hclause
    · rintro ⟨stmt, hstmt, hdeclares⟩
      cases hclause : x.clause? (x.regionsOf m) i stmt with
      | some clause => exact ⟨_, mem_entries.mpr ⟨stmt, clause, hstmt, hclause, rfl⟩⟩
      | none =>
        rw [(clause?_eq_none_iff _ i stmt).mp hclause] at hdeclares
        cases hdeclares
  position := by
    intro i entry hentry
    obtain ⟨stmt, clause, hstmt, hclause, rfl⟩ := mem_entries.mp hentry
    exact ⟨stmt, hstmt, (Entry.position_ofCandidate clause).trans (position_of_clause? hclause)⟩

end Extractor

end MethodContracts
