import MethodContracts.Extract.Extractor
import MethodContracts.Proofs.Contract.Set
import MethodContracts.Proofs.Expr.Negation
import MethodContracts.Proofs.Extract.Statement

/-!
# Extraction is the sorting of candidates

On a body without unrecognized instructions nothing in the scan can fail: tests can be negated,
and conditions can be checked. So the scan comes to this: take the candidate of every statement
that has one, with its index, and sort the candidates into those without stack markers, which
are the contracts, and the others, which leave diagnostics. A body with an unrecognized
instruction is not scanned at all.
-/

namespace MethodContracts

/-- The note on a candidate that is left out. -/
def Clause.diagnostic (c : Clause) : Diagnostic :=
  ⟨c.position, c.kind, UInt64.ofNat c.markers, c.condition.display⟩

/-! ## Sorting -/

namespace Extraction

/-- One result and then another. -/
def append (e e' : Extraction) : Extraction :=
  ⟨e.contracts.append e'.contracts, e.diagnostics ++ e'.diagnostics⟩

theorem append_assoc (a b c : Extraction) : (a.append b).append c = a.append (b.append c) := by
  simp only [append, ContractSet.append, List.append_assoc]

theorem append_empty (e : Extraction) : e.append empty = e := by
  simp only [append, ContractSet.append, empty, ContractSet.empty, List.append_nil]

/-- Candidates, sorted into the contracts and those that are left out. -/
def ofCandidates (candidates : List Clause) : Extraction :=
  ⟨.accepted candidates,
    (candidates.filter fun clause => ¬ clause.condition.Standalone).map Clause.diagnostic⟩

theorem ofCandidates_cons (clause : Clause) (rest : List Clause) :
    ofCandidates (clause :: rest) = (ofCandidates [clause]).append (ofCandidates rest) := by
  simp only [ofCandidates, append, ContractSet.accepted, ContractSet.append, ← List.map_append,
    ← List.filter_append, List.singleton_append]

/-- Where nothing is unrecognized, candidates are sorted by their stack markers. -/
theorem lists_ofCandidates {candidates : List Clause}
    (h : ∀ clause ∈ candidates, clause.condition.Recognized) :
    (ofCandidates candidates).contracts.clauses = candidates.filter (·.markers = 0) ∧
      (ofCandidates candidates).diagnostics =
        (candidates.filter (·.markers ≠ 0)).map Clause.diagnostic := by
  have hsorted (clause : Clause) (hclause : clause ∈ candidates) :
      clause.condition.Standalone ↔ clause.markers = 0 :=
    (Clause.markers_eq_zero_iff (h clause hclause)).symm
  constructor
  · exact List.filter_congr fun clause hclause => decide_eq_decide.mpr (hsorted clause hclause)
  · exact congrArg _ (List.filter_congr fun clause hclause =>
      decide_eq_decide.mpr (not_congr (hsorted clause hclause)))

end Extraction

/-! ## Candidates -/

namespace Extractor

variable (x : Extractor) (regions : Regions)

/-- The candidate clause of a statement. -/
def clause? (index : Nat) (stmt : Node) : Option Clause :=
  let position : Position := ⟨UInt64.ofNat index, stmt.offset⟩
  match x.shape stmt with
  | .contractCall kind condition message => some ⟨kind, condition, position, message⟩
  | .legacyGuard test =>
    some ⟨regions.guardKind x.config.legacyRule index, test.negated, position, none⟩
  | _ => none

/-- The candidates of statements that stand at an index and behind it, with their indices. -/
def candidatesFrom (index : Nat) (stmts : List Node) : List (Nat × Clause) :=
  (stmts.zipIdx index).filterMap fun (stmt, i) => (x.clause? regions i stmt).map (i, ·)

/-- The regions of a method. -/
def regionsOf (m : Method) : Regions := .ofShapes (m.statements.map x.shape)

/-- The candidates of a method, with the indices of their statements. -/
def candidates (m : Method) : List (Nat × Clause) :=
  x.candidatesFrom (x.regionsOf m) 0 m.statements

variable {x regions}

theorem candidatesFrom_cons (index : Nat) (stmt : Node) (rest : List Node) :
    x.candidatesFrom regions index (stmt :: rest) =
      ((x.clause? regions index stmt).map (index, ·)).toList ++
        x.candidatesFrom regions (index + 1) rest := by
  cases hclause : x.clause? regions index stmt <;>
    simp [candidatesFrom, List.zipIdx_cons, hclause]

/-- Negating a test does not fail. -/
theorem candidate?_of_recognized {stmt : Node} (h : stmt.Recognized) (index : Nat) :
    x.candidate? regions index stmt = .ok (x.clause? regions index stmt) := by
  rw [candidate?, clause?]
  cases hshape : x.shape stmt with
  | contractCall | terminator | ret | other => rfl
  | legacyGuard test =>
    obtain ⟨thenBranch, hop, -⟩ := Node.shape_eq_legacyGuard_iff.mp hshape
    have htest : test ∈ stmt.children := by
      rw [Node.children, hop]
      exact List.mem_cons_self
    have hnegate := Node.negate_of_recognized (((Node.recognized_iff stmt).mp h).2 test htest)
    simp only [hnegate]
    rfl

/-- The condition of a candidate is a part of its statement, or the negation of one. -/
theorem recognized_of_clause? {stmt : Node} (h : stmt.Recognized) {index : Nat} {clause : Clause}
    (hclause : x.clause? regions index stmt = some clause) : clause.condition.Recognized := by
  have hchildren := ((Node.recognized_iff stmt).mp h).2
  rw [clause?] at hclause
  cases hshape : x.shape stmt with
  | terminator | ret | other =>
    rw [hshape] at hclause
    cases hclause
  | contractCall kind condition message =>
    rw [hshape] at hclause
    cases hclause
    obtain ⟨callee, more, hop, -⟩ := Node.shape_eq_contractCall_iff.mp hshape
    refine hchildren condition ?_
    rw [Node.children, hop]
    exact List.mem_cons_self
  | legacyGuard test =>
    rw [hshape] at hclause
    cases hclause
    obtain ⟨thenBranch, hop, -⟩ := Node.shape_eq_legacyGuard_iff.mp hshape
    refine Node.recognized_negated (hchildren test ?_)
    rw [Node.children, hop]
    exact List.mem_cons_self

/-! ## The scan -/

/-- A candidate is added, to the contracts or as a diagnostic. -/
theorem accept_of_recognized (e : Extraction) {clause : Clause}
    (h : clause.condition.Recognized) :
    accept e clause = .ok (e.append (.ofCandidates [clause])) := by
  have hmarkers := Clause.markers_eq_zero_iff h
  by_cases hstandalone : clause.condition.Standalone
  · rw [accept, ContractSet.push_of_standalone _ hstandalone]
    simp [hstandalone, Extraction.append, Extraction.ofCandidates, ContractSet.concat,
      ContractSet.append, ContractSet.accepted]
  · have hpos : 0 < clause.markers := Nat.pos_of_ne_zero (mt hmarkers.mp hstandalone)
    rw [accept, ContractSet.push_of_markers _ (Node.countMarkers_of_recognized h) hpos]
    simp [hstandalone, Extraction.append, Extraction.ofCandidates, Clause.diagnostic,
      Clause.markers, ContractSet.append, ContractSet.accepted]

/-- The scan adds what the candidates come to. -/
theorem scan_of_recognized {stmts : List Node} (h : ∀ stmt ∈ stmts, stmt.Recognized)
    (e : Extraction) (index : Nat) :
    x.scan regions e index stmts =
      .ok (e.append (.ofCandidates ((x.candidatesFrom regions index stmts).map Prod.snd))) := by
  induction stmts generalizing e index with
  | nil => exact congrArg Except.ok e.append_empty.symm
  | cons stmt rest ih =>
    obtain ⟨hstmt, hrest⟩ := List.forall_mem_cons.mp h
    rw [scan, candidate?_of_recognized hstmt, candidatesFrom_cons]
    cases hclause : x.clause? regions index stmt with
    | none => exact ih hrest e (index + 1)
    | some clause =>
      have haccept := accept_of_recognized e (recognized_of_clause? hstmt hclause)
      -- what the candidate comes to is added before what comes behind it
      have hscan := ih hrest (e.append (.ofCandidates [clause])) (index + 1)
      rw [Extraction.append_assoc, ← Extraction.ofCandidates_cons] at hscan
      change (accept e clause >>= fun next => x.scan regions next (index + 1) rest) = _
      rw [haccept]
      exact hscan

/-- **Extraction fails at the first unrecognized instruction, wherever it is, and otherwise sorts
the candidates.** -/
theorem run_eq (x : Extractor) (m : Method) :
    x.run m =
      match m.root.preorder.findSome? Node.opcode? with
      | some opcode => .error (.malformedTree opcode)
      | none => .ok (.ofCandidates ((x.candidates m).map Prod.snd)) := by
  rw [run, Node.checkStructure_eq]
  cases hroot : m.root.preorder.findSome? Node.opcode? with
  | some opcode => rfl
  | none =>
    have hrecognized := (Node.findSome?_opcode_eq_none_iff _).mp hroot
    exact scan_of_recognized ((Node.recognized_iff m.root).mp hrecognized).2 _ 0

theorem extract_of_recognized (x : Extractor) {m : Method} (h : m.root.Recognized) :
    x.extract m = .ok (.ofCandidates ((x.candidates m).map Prod.snd)) := by
  rw [extract, run_eq, (Node.findSome?_opcode_eq_none_iff _).mpr h]
  rfl

theorem extract_of_opcode (x : Extractor) {m : Method} {opcode : String}
    (h : m.root.preorder.findSome? Node.opcode? = some opcode) :
    x.extract m = .error (.malformedTree m.qualifiedName opcode) := by
  rw [extract, run_eq, h]
  rfl

/-- Only bodies without unrecognized instructions have a result. -/
theorem recognized_of_extract {x : Extractor} {m : Method} {e : Extraction}
    (h : x.extract m = .ok e) : m.root.Recognized := by
  cases hopcode : m.root.preorder.findSome? Node.opcode? with
  | none => exact (Node.findSome?_opcode_eq_none_iff _).mp hopcode
  | some opcode =>
    rw [extract_of_opcode x hopcode] at h
    cases h

/-- **Extraction fails exactly on malformed bodies**, wherever in the body the unrecognized
instruction is and whether or not a contract is declared there. The fault names the method and the
first unrecognized instruction in preorder. There is no other fault: once the structure of the body
has been checked, neither the negation of a test nor the acceptance of a clause fails. -/
theorem extract_eq_error_iff (x : Extractor) (m : Method) :
    ((∃ why, x.extract m = .error why) ↔ ∃ n : Node, n.OccursIn m.root ∧ n.kind = .unrecognized) ∧
    ∀ why, x.extract m = .error why ↔
      ∃ opcode, m.root.FirstUnrecognized opcode ∧ why = .malformedTree m.qualifiedName opcode := by
  cases hopcode : m.root.preorder.findSome? Node.opcode? with
  | none =>
    have hrecognized := (Node.findSome?_opcode_eq_none_iff _).mp hopcode
    rw [x.extract_of_recognized hrecognized]
    refine ⟨⟨nofun, ?_⟩, fun why => ⟨nofun, ?_⟩⟩
    · rintro ⟨n, hn, hkind⟩
      exact absurd hkind (hrecognized n (Node.mem_preorder_iff.mpr hn))
    · rintro ⟨opcode, hfirst, -⟩
      rw [(Node.findSome?_opcode_eq_some_iff _ _).mpr hfirst] at hopcode
      cases hopcode
  | some opcode =>
    have hfirst := (Node.findSome?_opcode_eq_some_iff _ _).mp hopcode
    rw [x.extract_of_opcode hopcode]
    refine ⟨⟨fun _ => ?_, fun _ => ⟨_, rfl⟩⟩, fun why => ⟨?_, ?_⟩⟩
    · obtain ⟨before, below, offset, after, hsplit, -⟩ := hfirst
      refine ⟨⟨.unrecognized opcode below, offset⟩, Node.mem_preorder_iff.mp ?_, rfl⟩
      rw [hsplit]
      exact List.mem_append_right _ List.mem_cons_self
    · rintro ⟨⟩
      exact ⟨opcode, hfirst, rfl⟩
    · rintro ⟨opcode', hfirst', rfl⟩
      -- there is only one first
      rw [(Node.findSome?_opcode_eq_some_iff _ _).mpr hfirst'] at hopcode
      cases hopcode
      rfl

end Extractor

end MethodContracts
