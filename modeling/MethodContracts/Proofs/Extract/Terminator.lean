import MethodContracts.Proofs.Extract.Guards

/-!
# The terminator among the contracts

Contract calls, guards and the terminator make up the blocks of contracts of a method. Which
statements these are is told from the configuration: `Config.IsContract`.

A guard is a postcondition when nothing but contracts and returns comes behind it and the leading
contracts are over before it. They are over in two ways: by a statement that is no contract, and by
the terminator, which is one. So it would be wrong to say that a postcondition needs a statement
before it that is no contract. Behind the terminator it needs none.
-/

namespace MethodContracts

/-! ## Contract statements -/

/-- A conditional without else branch whose then branch throws. -/
def Node.IsGuard (stmt : Node) : Prop :=
  ∃ test thenBranch, stmt.op = .conditional test thenBranch none ∧ thenBranch.Throws

namespace Config

variable {c : Config} {stmt : Node}

/-- The call without arguments that ends the leading contracts. -/
def IsTerminator (c : Config) (stmt : Node) : Prop :=
  ∃ callee, c.terminator = some callee ∧ stmt.op = .call callee []

/-- The statement belongs to a block of contracts. -/
inductive IsContract (c : Config) (stmt : Node) : Prop
  /-- a call that an entry of the configuration covers, with an argument for the condition -/
  | call {callee : Callee} {condition : Node} {more : List Node} {entry : ContractMethod}
      (hop : stmt.op = .call callee (condition :: more)) (hentry : entry ∈ c.methods)
      (hcovers : entry.Covers callee (more.length + 1))
  | guard (h : stmt.IsGuard)
  | terminator (h : c.IsTerminator stmt)

theorem isTerminator_iff_shape :
    c.IsTerminator stmt ↔ (Extractor.ofConfig c).shape stmt = .terminator :=
  Node.shape_eq_terminator_iff.symm

theorem isGuard_iff_shape : stmt.IsGuard ↔ ((Extractor.ofConfig c).shape stmt).isGuard := by
  constructor
  · rintro ⟨test, thenBranch, hop, hthrows⟩
    have hshape : (Extractor.ofConfig c).shape stmt = .legacyGuard test :=
      Node.shape_eq_legacyGuard_iff.mpr ⟨thenBranch, hop, hthrows⟩
    rw [hshape]
    rfl
  · intro h
    cases hshape : (Extractor.ofConfig c).shape stmt with
    | legacyGuard test =>
      obtain ⟨thenBranch, hop, hthrows⟩ := Node.shape_eq_legacyGuard_iff.mp hshape
      exact ⟨test, thenBranch, hop, hthrows⟩
    | contractCall | terminator | ret | other =>
      rw [hshape] at h
      cases h

/-- The shapes that count as contracts are those of contract statements. -/
theorem isContract_iff_shape :
    c.IsContract stmt ↔ ((Extractor.ofConfig c).shape stmt).isContract := by
  constructor
  · intro h
    cases h with
    | @call callee condition more entry hop hentry hcovers =>
      obtain ⟨kind, hlookup⟩ := Option.isSome_iff_exists.mp
        ((ContractTable.isSome_lookup_ofMethods _ _ _).mpr ⟨entry, hentry, hcovers⟩)
      have hshape : (Extractor.ofConfig c).shape stmt =
          .contractCall kind condition (more.head?.bind Node.literalText?) :=
        Node.shape_eq_contractCall_iff.mpr ⟨callee, more, hop, hlookup, rfl⟩
      exact congrArg Shape.isContract hshape
    | guard hguard => exact Shape.isContract_of_isGuard (isGuard_iff_shape.mp hguard)
    | terminator hends => exact congrArg Shape.isContract (isTerminator_iff_shape.mp hends)
  · intro h
    cases hshape : (Extractor.ofConfig c).shape stmt with
    | contractCall kind condition message =>
      obtain ⟨callee, more, hop, hlookup, -⟩ := Node.shape_eq_contractCall_iff.mp hshape
      obtain ⟨entry, hentry, hcovers⟩ :=
        (ContractTable.isSome_lookup_ofMethods _ _ _).mp (Option.isSome_of_eq_some hlookup)
      exact .call hop hentry hcovers
    | legacyGuard test => exact .guard (isGuard_iff_shape.mpr (congrArg Shape.isGuard hshape))
    | terminator => exact .terminator (isTerminator_iff_shape.mpr hshape)
    | ret | other =>
      rw [hshape] at h
      cases h

/-! ## Around a guard -/

section

variable (c) (m : Method) (i : Nat)

/-- A statement before the index is no contract. -/
def BodyBefore : Prop := ∃ j < i, ∃ stmt, m.statements[j]? = some stmt ∧ ¬ c.IsContract stmt

/-- A statement before the index is the terminator. -/
def TerminatorBefore : Prop := ∃ j < i, ∃ stmt, m.statements[j]? = some stmt ∧ c.IsTerminator stmt

/-- Every statement behind the index is a contract or a return. -/
def ContractsBehind : Prop :=
  ∀ j, i < j → ∀ stmt, m.statements[j]? = some stmt → c.IsContract stmt ∨ stmt.kind = .ret

/-- A statement that is no contract ends the leading contracts, and so does the terminator. -/
theorem trailsAt_iff :
    (Extractor.ofConfig c).TrailsAt m i ↔
      (c.BodyBefore m i ∨ c.TerminatorBefore m i) ∧ c.ContractsBehind m i := by
  have hbefore : (c.BodyBefore m i ∨ c.TerminatorBefore m i) ↔
      ∃ j < i, ∃ stmt, m.statements[j]? = some stmt ∧
        (((Extractor.ofConfig c).shape stmt).isContract = false ∨
          (Extractor.ofConfig c).shape stmt = .terminator) := by
    simp only [BodyBefore, TerminatorBefore, isContract_iff_shape, isTerminator_iff_shape,
      Bool.not_eq_true, and_or_left, exists_or]
  rw [hbefore]
  simp only [Extractor.TrailsAt, ContractsBehind, isContract_iff_shape]

end

end Config

namespace Extractor

/-- **The terminator ends the leading contracts.** Under the rule that looks at the place of a guard
its entry is a postcondition exactly when a statement before it is no contract or is the terminator,
and every statement behind it is a contract or a return. So a guard stays a precondition when only
contracts come before it and the terminator is not among them. -/
theorem guard_kinds_terminator {c : Config} {m : Method} {e : Extraction}
    (hrule : c.legacyRule = .leadingRequiresTrailingEnsures)
    (h : (ofConfig c).extract m = .ok e) :
    ∃ entries, (ofConfig c).Traces m entries ∧
      ∀ i stmt, m.statements[i]? = some stmt → stmt.IsGuard →
        ∃ entry, (i, entry) ∈ entries ∧
          (entry.kind = .ensures ↔
            (c.BodyBefore m i ∨ c.TerminatorBefore m i) ∧ c.ContractsBehind m i) ∧
          (¬ c.BodyBefore m i → ¬ c.TerminatorBefore m i → entry.kind = .requires) := by
  have htraces := traces_entries (x := ofConfig c) (recognized_of_extract h)
  refine ⟨(ofConfig c).entries m, htraces, fun i stmt hstmt hguard => ?_⟩
  have hshape := Config.isGuard_iff_shape (c := c).mp hguard
  have hguardAt : (ofConfig c).GuardAt m i := (guardAt_iff hstmt).mpr hshape
  obtain ⟨entry, hentry⟩ :=
    (htraces.exists_iff i).mpr ⟨stmt, hstmt, Shape.declares_of_isGuard hshape⟩
  have hensures : entry.kind = .ensures ↔
      (c.BodyBefore m i ∨ c.TerminatorBefore m i) ∧ c.ContractsBehind m i :=
    (kind_of_guard_eq_ensures_iff hrule hentry hguardAt).trans (c.trailsAt_iff m i)
  refine ⟨entry, hentry, hensures, fun hbody hterminator => ?_⟩
  refine (kind_of_guard_cases hentry hguardAt).resolve_right fun hkind => ?_
  exact (hensures.mp hkind).1.elim hbody hterminator

/-- Two guards with the terminator between them. Only contracts come before either, and the second
one is a postcondition. -/
theorem guard_kinds_terminator_between :
    let c : Config := .standard
    let x : Node := .unlocated (.ref (.argument 0 (some "x")))
    let guard : Node := .unlocated (.conditional x (.unlocated (.throw none)) none)
    let terminator : Node := .unlocated (.call (Config.standardCallee "EndContractBlock") [])
    let m : Method := ⟨"T", ⟨"f", [], "void"⟩, .replicate 0,
      [guard, terminator, guard, .unlocated (.ret none)], none⟩
    c.legacyRule = .leadingRequiresTrailingEnsures ∧
      (∃ e, (ofConfig c).extract m = .ok e) ∧ ¬ c.BodyBefore m 2 ∧
      ∃ entries, (ofConfig c).Traces m entries ∧
        (∃ entry, (0, entry) ∈ entries ∧ entry.kind = .requires) ∧
        (∃ entry, (2, entry) ∈ entries ∧ entry.kind = .ensures) := by
  intro c x guard terminator m
  have hextract := extract_of_recognized (ofConfig c) (m := m) (by decide)
  have hguard : guard.IsGuard := ⟨x, _, rfl, .throw none none⟩
  have hterminator : c.IsTerminator terminator := ⟨_, rfl, rfl⟩
  obtain ⟨entries, htraces, hkinds⟩ := guard_kinds_terminator (c := c) rfl hextract
  refine ⟨rfl, ⟨_, hextract⟩, ?_, entries, htraces, ?_, ?_⟩
  · rintro ⟨j, hj, stmt, hstmt, hbody⟩
    -- the first guard and the terminator are contracts
    obtain rfl | rfl : j = 0 ∨ j = 1 := by omega
    · exact hbody (Option.some.inj hstmt ▸ .guard hguard)
    · exact hbody (Option.some.inj hstmt ▸ .terminator hterminator)
  · obtain ⟨entry, hentry, -, hrequires⟩ := hkinds 0 _ rfl hguard
    refine ⟨entry, hentry, hrequires ?_ ?_⟩
    · rintro ⟨j, hj, -⟩
      exact Nat.not_lt_zero j hj
    · rintro ⟨j, hj, -⟩
      exact Nat.not_lt_zero j hj
  · obtain ⟨entry, hentry, hensures, -⟩ := hkinds 2 _ rfl hguard
    have hbehind : c.ContractsBehind m 2 := by
      intro j hj stmt hstmt
      -- only the return is left
      obtain ⟨hlt, hget⟩ := List.getElem?_eq_some_iff.mp hstmt
      obtain rfl : j = 3 := Nat.le_antisymm (Nat.le_of_lt_succ hlt) hj
      exact .inr (congrArg Node.kind hget.symm)
    exact ⟨entry, hentry, hensures.mpr ⟨.inr ⟨1, by decide, _, rfl, hterminator⟩, hbehind⟩⟩

/-- The guard in `EndContractBlock(); if (x) throw` has no statement before it but a contract, and
its clause is a postcondition. -/
theorem ensures_behind_terminator :
    let c : Config := .standard
    let x : Node := .unlocated (.ref (.argument 0 (some "x")))
    let guard : Node := .unlocated (.conditional x (.unlocated (.throw none)) none)
    let terminator : Node := .unlocated (.call (Config.standardCallee "EndContractBlock") [])
    let m : Method := ⟨"T", ⟨"f", [], "void"⟩, .replicate 0, [terminator, guard], none⟩
    let clause : Clause := ⟨.ensures, .unlocated (.unary .not x), ⟨1, none⟩, none⟩
    c.legacyRule = .leadingRequiresTrailingEnsures ∧
      (ofConfig c).extract m = .ok ⟨.accepted [clause], []⟩ ∧
      (ContractSet.accepted [clause]).clauses = [clause] ∧
      m.statements[1]? = some guard ∧ guard.IsGuard ∧ ¬ c.BodyBefore m 1 ∧
      ¬ (clause.kind = .ensures ↔ c.BodyBefore m 1 ∧ c.ContractsBehind m 1) := by
  intro c x guard terminator m clause
  have hbody : ¬ c.BodyBefore m 1 := by
    rintro ⟨j, hj, stmt, hstmt, hbody⟩
    obtain rfl : j = 0 := Nat.lt_one_iff.mp hj
    exact hbody (Option.some.inj hstmt ▸ .terminator ⟨_, rfl, rfl⟩)
  refine ⟨rfl, ?_, ContractSet.clauses_accepted (by decide), rfl,
    ⟨x, _, rfl, .throw none none⟩, hbody, fun h => hbody (h.mp rfl).1⟩
  rw [extract_of_recognized _ (by decide)]
  rfl

end Extractor

end MethodContracts
