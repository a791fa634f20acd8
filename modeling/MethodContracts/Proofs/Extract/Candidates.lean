import MethodContracts.Proofs.Extract.Scan
import MethodContracts.Proofs.Extract.Table

/-!
# Which clauses are extracted

The clauses of a method are told from its statements one by one, by what a statement is and by the
list of contract methods: `Config.Declares`. Extraction finds these and no others. Whatever it
finds in one statement, be it nothing, a contract or a condition that it has to leave out, changes
nothing about the others: every candidate keeps the index and the offset of its statement, and
both lists of the result are in the order of the statements.
-/

namespace MethodContracts

/-! ## What a statement declares -/

/-- The statement declares the clause. Two kinds of statements declare one: calls that an entry of
the configuration covers, and conditional throws. -/
inductive Config.Declares (c : Config) (guardKind : ClauseKind) (index : Nat) : Node → Clause → Prop
  /-- a call with at least one argument; the first entry that covers it says which kind, and the
  argument behind the condition is the message when it is a string literal -/
  | call {callee : Callee} {condition : Node} {more : List Node} {offset : Option Offset}
      {entry : ContractMethod}
      (hentry : c.methods.find? (fun m => m.Covers callee (more.length + 1)) = some entry) :
    Declares c guardKind index ⟨.call callee (condition :: more), offset⟩
      ⟨entry.kind, condition, ⟨UInt64.ofNat index, offset⟩,
        more.head?.bind Node.literalText?⟩
  /-- a conditional without else branch whose then branch throws -/
  | guard {test thenBranch condition : Node} {offset : Option Offset} (hthrows : thenBranch.Throws)
      (hcondition : test.negate = .ok condition) :
    Declares c guardKind index ⟨.conditional test thenBranch none, offset⟩
      ⟨guardKind, condition, ⟨UInt64.ofNat index, offset⟩, none⟩

theorem Config.Declares.position_eq {c : Config} {guardKind : ClauseKind} {index : Nat}
    {stmt : Node} {clause : Clause} (h : c.Declares guardKind index stmt clause) :
    clause.position = ⟨UInt64.ofNat index, stmt.offset⟩ := by
  cases h <;> rfl

namespace Extractor

/-- The candidate of a statement is what the statement declares. -/
theorem clause?_eq_some_iff (c : Config) (regions : Regions) (index : Nat) {stmt : Node}
    (h : stmt.Recognized) (clause : Clause) :
    (ofConfig c).clause? regions index stmt = some clause ↔
      c.Declares (regions.guardKind c.legacyRule index) index stmt clause := by
  constructor
  · intro hclause
    obtain ⟨op, offset⟩ := stmt
    rw [clause?] at hclause
    cases hshape : (ofConfig c).shape ⟨op, offset⟩ with
    | terminator | ret | other =>
      rw [hshape] at hclause
      cases hclause
    | contractCall kind condition message =>
      rw [hshape] at hclause
      cases hclause
      obtain ⟨callee, more, hop, hlookup, rfl⟩ := Node.shape_eq_contractCall_iff.mp hshape
      obtain rfl : op = .call callee (condition :: more) := hop
      -- the table answers with the first entry that covers the call
      obtain ⟨entry, hentry, rfl⟩ := Option.map_eq_some_iff.mp
        ((ContractTable.lookup_ofMethods c.methods callee _).symm.trans hlookup)
      exact .call hentry
    | legacyGuard test =>
      rw [hshape] at hclause
      cases hclause
      obtain ⟨thenBranch, hop, hthrows⟩ := Node.shape_eq_legacyGuard_iff.mp hshape
      obtain rfl : op = .conditional test thenBranch none := hop
      exact .guard hthrows
        (Node.negate_of_recognized (((Node.recognized_iff _).mp h).2 test List.mem_cons_self))
  · intro hdeclares
    cases hdeclares with
    | @call callee condition more offset entry hentry =>
      have hlookup : (ofConfig c).table.lookup callee (more.length + 1) = some entry.kind := by
        rw [ofConfig, ContractTable.lookup_ofMethods, hentry]
        rfl
      have hshape : (ofConfig c).shape ⟨.call callee (condition :: more), offset⟩ =
          .contractCall entry.kind condition (more.head?.bind Node.literalText?) :=
        Node.shape_eq_contractCall_iff.mpr ⟨callee, more, rfl, hlookup, rfl⟩
      rw [clause?, hshape]
    | @guard test thenBranch condition offset hthrows hcondition =>
      have hshape : (ofConfig c).shape ⟨.conditional test thenBranch none, offset⟩ =
          .legacyGuard test :=
        Node.shape_eq_legacyGuard_iff.mpr ⟨thenBranch, rfl, hthrows⟩
      have htest : test.Recognized := ((Node.recognized_iff _).mp h).2 test List.mem_cons_self
      rw [Node.negate_of_recognized htest] at hcondition
      obtain rfl : test.negated = condition := Except.ok.inj hcondition
      rw [clause?, hshape]
      rfl

/-! ## The list of candidates -/

/-- The candidate of a statement is listed with the index of the statement. -/
theorem mem_candidates (x : Extractor) (m : Method) (i : Nat) (clause : Clause) :
    (i, clause) ∈ x.candidates m ↔
      ∃ stmt, m.statements[i]? = some stmt ∧ x.clause? (x.regionsOf m) i stmt = some clause := by
  simp only [candidates, candidatesFrom, List.mem_filterMap, Prod.exists,
    List.mem_zipIdx_iff_getElem?]
  constructor
  · rintro ⟨stmt, j, hstmt, hclause⟩
    obtain ⟨clause', hclause', heq⟩ := Option.map_eq_some_iff.mp hclause
    cases heq
    exact ⟨stmt, hstmt, hclause'⟩
  · rintro ⟨stmt, hstmt, hclause⟩
    exact ⟨stmt, i, hstmt, Option.map_eq_some_iff.mpr ⟨clause, hclause, rfl⟩⟩

/-- The candidates are what the statements declare. -/
theorem mem_candidates_iff (c : Config) {m : Method} (h : m.root.Recognized) (i : Nat)
    (clause : Clause) :
    (i, clause) ∈ (ofConfig c).candidates m ↔
      ∃ stmt, m.statements[i]? = some stmt ∧
        c.Declares (((ofConfig c).regionsOf m).guardKind c.legacyRule i) i stmt clause := by
  have hstmts : ∀ stmt ∈ m.statements, stmt.Recognized := ((Node.recognized_iff _).mp h).2
  rw [mem_candidates]
  refine exists_congr fun stmt => and_congr_right fun hstmt => ?_
  exact clause?_eq_some_iff c _ _ (hstmts stmt (List.mem_of_getElem? hstmt)) clause

/-- Nothing in the condition of a candidate is unrecognized. -/
theorem recognized_of_mem_candidates (x : Extractor) {m : Method} (h : m.root.Recognized) :
    ∀ clause ∈ (x.candidates m).map Prod.snd, clause.condition.Recognized := by
  intro clause hclause
  obtain ⟨⟨i, _⟩, hcandidate, rfl⟩ := List.mem_map.mp hclause
  obtain ⟨stmt, hstmt, hclause⟩ := (mem_candidates x m i _).mp hcandidate
  have hstmts : ∀ stmt ∈ m.statements, stmt.Recognized := ((Node.recognized_iff _).mp h).2
  exact recognized_of_clause? (hstmts stmt (List.mem_of_getElem? hstmt)) hclause

/-- There is at most one candidate for a statement, and they stand in order. -/
theorem pairwise_candidates (x : Extractor) (m : Method) :
    (x.candidates m).Pairwise fun a b => a.1 < b.1 := by
  refine (pairwise_zipIdx m.statements).filterMap _ fun a b hlt p hp q hq => ?_
  obtain ⟨_, -, rfl⟩ := Option.map_eq_some_iff.mp hp
  obtain ⟨_, -, rfl⟩ := Option.map_eq_some_iff.mp hq
  exact hlt

/-- An index below the width of positions is not confused with another. -/
theorem nodup_positions {c : Config} {m : Method} (h : m.root.Recognized)
    (hlength : m.statements.length ≤ UInt64.size) :
    (((ofConfig c).candidates m).map fun p => p.2.position.statement).Nodup := by
  -- the position of a candidate tells its index
  have hindex : ∀ p ∈ (ofConfig c).candidates m,
      p.1 < UInt64.size ∧ p.2.position.statement = UInt64.ofNat p.1 := by
    rintro ⟨i, clause⟩ hp
    obtain ⟨stmt, hstmt, hdeclares⟩ := (mem_candidates_iff c h i clause).mp hp
    obtain ⟨hi, -⟩ := List.getElem?_eq_some_iff.mp hstmt
    exact ⟨by omega, congrArg Position.statement hdeclares.position_eq⟩
  rw [List.Nodup, List.pairwise_map]
  refine (pairwise_candidates _ m).imp_of_mem fun {p q} hp hq hlt heq => ?_
  obtain ⟨hp, hpos⟩ := hindex p hp
  obtain ⟨hq, hqos⟩ := hindex q hq
  rw [hpos, hqos] at heq
  have hnat := congrArg UInt64.toNat heq
  rw [UInt64.toNat_ofNat_of_lt' hp, UInt64.toNat_ofNat_of_lt' hq] at hnat
  omega

/-- **Extraction is complete, in order and without duplicates.** There is one list of candidates,
at most one for a statement and in the order of the statements: what the statements declare. The
contracts are the candidates without stack markers, the diagnostics are the notes on the others,
and no two entries of the result are about the same statement. -/
theorem extract_eq_ok {c : Config} {m : Method} {e : Extraction}
    (h : (ofConfig c).extract m = .ok e) :
    ∃ candidates : List (Nat × Clause),
      (∀ i clause, (i, clause) ∈ candidates ↔ ∃ stmt, m.statements[i]? = some stmt ∧
        c.Declares (((ofConfig c).regionsOf m).guardKind c.legacyRule i) i stmt clause) ∧
      (candidates.Pairwise fun a b => a.1 < b.1) ∧
      e.contracts.clauses = (candidates.map Prod.snd).filter (·.markers = 0) ∧
      e.diagnostics = ((candidates.map Prod.snd).filter (·.markers ≠ 0)).map Clause.diagnostic ∧
      (m.statements.length ≤ UInt64.size →
        (e.contracts.clauses.map (·.position.statement) ++
          e.diagnostics.map (·.position.statement)).Nodup) := by
  have hroot : m.root.Recognized := recognized_of_extract h
  rw [extract_of_recognized _ hroot] at h
  obtain rfl := Except.ok.inj h
  obtain ⟨hcontracts, hdiagnostics⟩ :=
    Extraction.lists_ofCandidates (recognized_of_mem_candidates (ofConfig c) hroot)
  refine ⟨_, mem_candidates_iff c hroot, pairwise_candidates _ m, hcontracts, hdiagnostics,
    fun hlength => ?_⟩
  rw [hcontracts, hdiagnostics]
  -- the two lists are the candidates in another order
  have hperm := (List.filter_append_perm (fun clause : Clause => clause.markers = 0)
    (((ofConfig c).candidates m).map Prod.snd)).map (·.position.statement)
  have hnodup := hperm.nodup_iff.mpr (by
    rw [List.map_map]
    exact nodup_positions hroot hlength)
  rw [List.map_append] at hnodup
  simpa [Function.comp_def, Clause.diagnostic] using hnodup

/-- A precondition with a message, a condition on the stack, a return, and a guard. -/
theorem extract_eq_ok_mixed :
    let c : Config := Config.standard.withLegacyRule .alwaysRequires
    let x : Node := .unlocated (.ref (.argument 0 (some "x")))
    let null : Node := .unlocated (.literal .null)
    let require (args : List Node) : Node := .unlocated (.call (Config.standardCallee "Requires") args)
    let m : Method := ⟨"T", ⟨"f", [], "void"⟩, .replicate 0,
      [require [x, .unlocated (.literal (.string "given"))], require [.unlocated .stackDuplicate],
        .unlocated (.ret none),
        ⟨.conditional (.unlocated (.binary .eq x null)) (.unlocated (.throw none)) none, some ⟨7⟩⟩],
      none⟩
    ∃ e, (ofConfig c).extract m = .ok e ∧
      e.contracts.clauses =
        [⟨.requires, x, ⟨0, none⟩, some "given"⟩,
          ⟨.requires, .unlocated (.binary .ne x null), ⟨3, some ⟨7⟩⟩, none⟩] ∧
      e.diagnostics = [⟨⟨1, none⟩, .requires, 1, "<dup>"⟩] ∧
      (e.contracts.clauses.map (·.position.statement) ++
        e.diagnostics.map (·.position.statement)).Nodup := by
  intro c x null require m
  have hroot : m.root.Recognized := by decide
  have hstmts : ∀ stmt ∈ m.statements, stmt.Recognized := ((Node.recognized_iff _).mp hroot).2
  -- the table cannot be evaluated, its list can
  have hentry (n : UInt64) (hn : n = 1 ∨ n = 2) :
      c.methods.find? (fun m => m.Covers (Config.standardCallee "Requires") n.toNat) =
        some ⟨Config.standardCallee "Requires", n, .requires⟩ := by
    rcases hn with rfl | rfl <;> decide
  have hgiven := (clause?_eq_some_iff c ((ofConfig c).regionsOf m) 0
    (hstmts _ List.mem_cons_self) _).mpr (.call (hentry 2 (.inr rfl)))
  have hstack := (clause?_eq_some_iff c ((ofConfig c).regionsOf m) 1
    (hstmts _ (List.mem_cons_of_mem _ List.mem_cons_self)) _).mpr (.call (hentry 1 (.inl rfl)))
  have hextract := extract_of_recognized (ofConfig c) hroot
  obtain ⟨-, -, -, -, -, hnodup⟩ := extract_eq_ok hextract
  have hdistinct := hnodup (by decide)
  rw [candidates] at hextract hdistinct
  simp only [m, candidatesFrom_cons] at hextract hdistinct
  rw [hgiven, hstack] at hextract hdistinct
  exact ⟨_, hextract, by decide +kernel, by decide +kernel, hdistinct⟩

end Extractor

end MethodContracts
