import Mathlib.Data.List.Basic
import Mathlib.Data.List.Induction
import MethodContracts.Proofs.Expr.Positive
import MethodContracts.Proofs.Extract.Entries

/-!
# What becomes of guards

A guard is a conditional throw, and its clause is the negation of its test. Two things about it are
not said at the statement itself: the kind of the clause, which depends on the place of the guard
among the other statements, and whether the clause is accepted, which depends on the test.

The place counts under one of the two rules only. There a guard is a postcondition when the leading
contracts are over and nothing but contracts and returns comes behind it.
-/

namespace MethodContracts

/-! ## The two regions -/

namespace Regions

/-- The leading contracts are over when there has been a statement that is no contract, or the
terminator. -/
theorem leadingCount_le_iff {shapes : List Shape} {i : Nat} {s : Shape} (hs : shapes[i]? = some s)
    (hcontract : s.isContract) :
    leadingCount shapes ≤ i ↔
      ∃ j < i, ∃ t, shapes[j]? = some t ∧ (t.isContract = false ∨ t = .terminator) := by
  induction shapes generalizing i with
  | nil => cases hs
  | cons first rest ih =>
    rw [leadingCount]
    by_cases hterminator : first = .terminator
    · rw [if_pos hterminator]
      constructor
      · intro h
        exact ⟨0, h, first, rfl, .inr hterminator⟩
      · rintro ⟨j, hj, -⟩
        omega
    by_cases hfirst : first.isContract
    · rw [if_neg hterminator, if_pos hfirst]
      cases i with
      | zero => simp
      | succ i =>
        rw [Nat.add_le_add_iff_right, ih hs]
        constructor
        · rintro ⟨j, hj, t, ht, hends⟩
          exact ⟨j + 1, Nat.succ_lt_succ hj, t, ht, hends⟩
        · rintro ⟨j, hj, t, ht, hends⟩
          -- it is not the first statement that ends the region
          cases j with
          | zero =>
            cases ht
            rcases hends with hends | hends
            · rw [hfirst] at hends
              cases hends
            · exact absurd hends hterminator
          | succ j => exact ⟨j, Nat.lt_of_succ_lt_succ hj, t, ht, hends⟩
    · rw [if_neg hterminator, if_neg hfirst]
      have hfirst : first.isContract = false := Bool.eq_false_iff.mpr hfirst
      refine ⟨fun _ => ?_, fun _ => Nat.zero_le i⟩
      cases i with
      | zero =>
        cases hs
        rw [hfirst] at hcontract
        cases hcontract
      | succ i => exact ⟨0, Nat.succ_pos i, first, rfl, .inl hfirst⟩

/-- One more statement at the end. -/
theorem trailingStart_concat (shapes : List Shape) (last : Shape) :
    (ofShapes (shapes ++ [last])).trailingStart =
      if last.isTrailing then (ofShapes shapes).trailingStart else shapes.length + 1 := by
  simp only [ofShapes, List.reverse_append, List.reverse_singleton, List.singleton_append,
    List.takeWhile_cons, List.length_append, List.length_singleton]
  by_cases hlast : last.isTrailing
  · rw [if_pos hlast, if_pos hlast, List.length_cons]
    omega
  · rw [if_neg hlast, if_neg hlast]
    rfl

theorem trailingStart_le_length (shapes : List Shape) :
    (ofShapes shapes).trailingStart ≤ shapes.length :=
  Nat.sub_le _ _

/-- In the trailing region there are contracts and returns, and nothing else. -/
theorem trailingStart_le_iff {shapes : List Shape} {i : Nat} (hi : i ≤ shapes.length) :
    (ofShapes shapes).trailingStart ≤ i ↔ ∀ s ∈ shapes.drop i, s.isTrailing := by
  induction shapes using List.reverseRecOn with
  | nil => simp [ofShapes]
  | append_singleton shapes last ih =>
    rw [trailingStart_concat]
    rw [List.length_append, List.length_singleton] at hi
    have hstart := trailingStart_le_length shapes
    by_cases hend : i = shapes.length + 1
    · -- nothing is left behind the last statement
      have hdrop : (shapes ++ [last]).drop i = [] :=
        List.drop_eq_nil_of_le (by simp [hend])
      rw [hdrop]
      refine ⟨fun _ => nofun, fun _ => ?_⟩
      split <;> omega
    · have hle : i ≤ shapes.length := by omega
      rw [List.drop_append_of_le_length hle, List.forall_mem_append, List.forall_mem_singleton,
        ← ih hle]
      by_cases hlast : last.isTrailing
      · rw [if_pos hlast]
        exact ⟨fun h => ⟨h, hlast⟩, And.left⟩
      · rw [if_neg hlast]
        exact ⟨fun h => absurd h (by omega), fun h => absurd h.2 hlast⟩

end Regions

/-! ## The kind of a guard -/

/-- Where postconditions are followed by postconditions only, the preconditions come first. -/
theorem eq_replicate_append_replicate {kinds : List ClauseKind}
    (hkinds : ∀ kind ∈ kinds, kind = .requires ∨ kind = .ensures)
    (h : kinds.Pairwise fun a b => a = .ensures → b = .ensures) :
    ∃ front back, kinds = .replicate front .requires ++ .replicate back .ensures := by
  induction kinds with
  | nil => exact ⟨0, 0, rfl⟩
  | cons kind rest ih =>
    obtain ⟨hkind, hrest⟩ := List.forall_mem_cons.mp hkinds
    obtain ⟨hlater, hpairs⟩ := List.pairwise_cons.mp h
    rcases hkind with rfl | rfl
    · obtain ⟨front, back, rfl⟩ := ih hrest hpairs
      exact ⟨front + 1, back, rfl⟩
    · have hall := List.eq_replicate_of_mem fun b hb => hlater b hb rfl
      exact ⟨0, rest.length + 1, congrArg (ClauseKind.ensures :: ·) hall⟩

namespace Shape

/-- A conditional throw. -/
def isGuard : Shape → Bool
  | legacyGuard _ => true
  | _ => false

theorem isContract_of_isGuard {s : Shape} (h : s.isGuard) : s.isContract := by
  cases s <;> first | rfl | cases h

theorem declares_of_isGuard {s : Shape} (h : s.isGuard) : s.declares := by
  cases s <;> first | rfl | cases h

theorem isTrailing_iff (s : Shape) : s.isTrailing ↔ s.isContract ∨ s = .ret := by
  rw [isTrailing, Bool.or_eq_true, decide_eq_true_eq]

end Shape

namespace Extractor

variable (x : Extractor) (m : Method)

/-- The statement at the index is a guard. -/
def GuardAt (i : Nat) : Prop := ∃ stmt ∈ m.statements[i]?, (x.shape stmt).isGuard

instance (i : Nat) : Decidable (x.GuardAt m i) :=
  inferInstanceAs (Decidable (∃ stmt ∈ m.statements[i]?, (x.shape stmt).isGuard = true))

/-- The statement at the index comes after the leading contracts, that is, after a statement that
is no contract or after the terminator; and every statement behind it is a contract or a return. -/
def TrailsAt (i : Nat) : Prop :=
  (∃ j < i, ∃ stmt, m.statements[j]? = some stmt ∧
    ((x.shape stmt).isContract = false ∨ x.shape stmt = .terminator)) ∧
  ∀ k, i < k → ∀ stmt, m.statements[k]? = some stmt →
    (x.shape stmt).isContract ∨ stmt.kind = .ret

variable {x m} {i : Nat}

/-- What comes behind a trailing place is a trailing place. -/
theorem TrailsAt.later {j : Nat} (h : x.TrailsAt m i) (hij : i < j) : x.TrailsAt m j := by
  obtain ⟨⟨k, hk, hends⟩, hclosing⟩ := h
  exact ⟨⟨k, Nat.lt_trans hk hij, hends⟩, fun l hl => hclosing l (Nat.lt_trans hij hl)⟩

theorem forall_mem_drop_shapes_iff (P : Shape → Prop) :
    (∀ s ∈ (m.statements.map x.shape).drop i, P s) ↔
      ∀ k, i ≤ k → ∀ stmt, m.statements[k]? = some stmt → P (x.shape stmt) := by
  rw [← List.map_drop, List.forall_mem_map]
  constructor
  · intro h k hk stmt hstmt
    obtain ⟨d, rfl⟩ := Nat.exists_eq_add_of_le hk
    rw [← List.getElem?_drop] at hstmt
    exact h stmt (List.mem_of_getElem? hstmt)
  · intro h stmt hstmt
    obtain ⟨d, hd⟩ := List.mem_iff_getElem?.mp hstmt
    rw [List.getElem?_drop] at hd
    exact h (i + d) (Nat.le_add_right i d) stmt hd

/-- **The regions say which guards are postconditions.** -/
theorem guardKind_eq_ensures_iff (h : x.GuardAt m i) :
    (x.regionsOf m).guardKind .leadingRequiresTrailingEnsures i = .ensures ↔ x.TrailsAt m i := by
  obtain ⟨stmt, hstmt, hguard⟩ := h
  have hcontract := Shape.isContract_of_isGuard hguard
  have hshape : (m.statements.map x.shape)[i]? = some (x.shape stmt) := by
    rw [List.getElem?_map, hstmt]
    rfl
  have hlt : i < (m.statements.map x.shape).length := (List.getElem?_eq_some_iff.mp hshape).1
  have hkind : (x.regionsOf m).guardKind .leadingRequiresTrailingEnsures i = .ensures ↔
      Regions.leadingCount (m.statements.map x.shape) ≤ i ∧
        (Regions.ofShapes (m.statements.map x.shape)).trailingStart ≤ i := by
    rw [Regions.guardKind]
    exact ite_eq_left_iff.trans (by simp [regionsOf, Regions.ofShapes])
  rw [hkind, Regions.leadingCount_le_iff hshape hcontract,
    Regions.trailingStart_le_iff (Nat.le_of_lt hlt), forall_mem_drop_shapes_iff]
  constructor
  · rintro ⟨⟨j, hj, t, ht, hends⟩, htrailing⟩
    rw [List.getElem?_map] at ht
    obtain ⟨before, hbefore, rfl⟩ := Option.map_eq_some_iff.mp ht
    refine ⟨⟨j, hj, before, hbefore, hends⟩, fun k hk behind hbehind => ?_⟩
    have hshape := (Shape.isTrailing_iff _).mp (htrailing k (Nat.le_of_lt hk) behind hbehind)
    exact hshape.imp_right Node.shape_eq_ret_iff.mp
  · rintro ⟨⟨j, hj, before, hbefore, hends⟩, hclosing⟩
    refine ⟨⟨j, hj, x.shape before, by rw [List.getElem?_map, hbefore]; rfl, hends⟩, ?_⟩
    intro k hk behind hbehind
    rw [Shape.isTrailing_iff]
    -- the guard itself is a contract
    rcases Nat.eq_or_lt_of_le hk with rfl | hk
    · cases hstmt.symm.trans hbehind
      exact .inl hcontract
    · exact (hclosing k hk behind hbehind).imp_right Node.shape_eq_ret_iff.mpr

theorem guardAt_iff {stmt : Node} (h : m.statements[i]? = some stmt) :
    x.GuardAt m i ↔ (x.shape stmt).isGuard := by
  simp [GuardAt, h]

/-- The rule of the configuration and the place of a guard make up its kind. -/
theorem kind_of_guard {entry : Entry} (hentry : (i, entry) ∈ x.entries m) (hguard : x.GuardAt m i) :
    entry.kind = (x.regionsOf m).guardKind x.config.legacyRule i := by
  obtain ⟨stmt, clause, hstmt, hclause, rfl⟩ := mem_entries.mp hentry
  rw [guardAt_iff hstmt] at hguard
  rw [Entry.kind_ofCandidate]
  rw [clause?] at hclause
  split at hclause
  · next hshape =>
    rw [hshape] at hguard
    cases hguard
  · cases hclause
    rfl
  · cases hclause

/-- A guard is a precondition or a postcondition. -/
theorem kind_of_guard_cases {entry : Entry} (hentry : (i, entry) ∈ x.entries m)
    (hguard : x.GuardAt m i) : entry.kind = .requires ∨ entry.kind = .ensures := by
  rw [kind_of_guard hentry hguard]
  cases x.config.legacyRule with
  | alwaysRequires => exact .inl rfl
  | leadingRequiresTrailingEnsures =>
    rw [Regions.guardKind]
    split
    · exact .inr rfl
    · exact .inl rfl

/-! ## The rule that looks at the place -/

section LeadingRequiresTrailingEnsures

variable (hrule : x.config.legacyRule = .leadingRequiresTrailingEnsures)

include hrule

/-- Its place makes a guard a postcondition. -/
theorem kind_of_guard_eq_ensures_iff {entry : Entry} (hentry : (i, entry) ∈ x.entries m)
    (hguard : x.GuardAt m i) : entry.kind = .ensures ↔ x.TrailsAt m i := by
  rw [kind_of_guard hentry hguard, hrule]
  exact guardKind_eq_ensures_iff hguard

/-- **Among the guards the preconditions come first.** -/
theorem guards_in_order :
    ∃ front back, ((x.entries m).filter fun p => x.GuardAt m p.1).map (·.2.kind) =
      .replicate front .requires ++ .replicate back .ensures := by
  have hguards : ∀ p ∈ (x.entries m).filter fun p => x.GuardAt m p.1,
      p ∈ x.entries m ∧ x.GuardAt m p.1 := by
    intro p hp
    obtain ⟨hp, hguard⟩ := List.mem_filter.mp hp
    exact ⟨hp, of_decide_eq_true hguard⟩
  apply eq_replicate_append_replicate
  · intro kind hkind
    obtain ⟨p, hp, rfl⟩ := List.mem_map.mp hkind
    obtain ⟨hentry, hguard⟩ := hguards p hp
    exact kind_of_guard_cases hentry hguard
  · -- what comes behind a postcondition is at a trailing place, too
    rw [List.pairwise_map]
    refine ((pairwise_entries x m).filter _).imp_of_mem fun {p q} hp hq hlt hensures => ?_
    obtain ⟨hp, hpguard⟩ := hguards p hp
    obtain ⟨hq, hqguard⟩ := hguards q hq
    have htrails := (kind_of_guard_eq_ensures_iff hrule hp hpguard).mp hensures
    exact (kind_of_guard_eq_ensures_iff hrule hq hqguard).mpr (htrails.later hlt)

end LeadingRequiresTrailingEnsures

/-! ## The other rule -/

/-- Every guard is a precondition, and nothing else is touched. -/
theorem clause?_alwaysRequires (c : Config) (regions : Regions) (i : Nat) (stmt : Node) :
    (ofConfig (c.withLegacyRule .alwaysRequires)).clause? regions i stmt =
      ((ofConfig c).clause? regions i stmt).map fun clause =>
        if ((ofConfig c).shape stmt).isGuard then { clause with kind := .requires }
        else clause := by
  have hshape :
      (ofConfig (c.withLegacyRule .alwaysRequires)).shape stmt = (ofConfig c).shape stmt := rfl
  rw [clause?, clause?, hshape]
  cases (ofConfig c).shape stmt <;> rfl

theorem entries_alwaysRequires (c : Config) (m : Method) :
    (ofConfig (c.withLegacyRule .alwaysRequires)).entries m =
      ((ofConfig c).entries m).map fun p =>
        (p.1, if (ofConfig c).GuardAt m p.1 then p.2.withKind .requires else p.2) := by
  have hregions : (ofConfig (c.withLegacyRule .alwaysRequires)).regionsOf m =
      (ofConfig c).regionsOf m := rfl
  simp only [entries, candidates, candidatesFrom, List.map_filterMap, hregions]
  apply List.filterMap_congr
  rintro ⟨stmt, i⟩ hmem
  have hstmt : m.statements[i]? = some stmt := List.mem_zipIdx_iff_getElem?.mp hmem
  have hguardAt : (ofConfig c).GuardAt m i ↔ ((ofConfig c).shape stmt).isGuard :=
    guardAt_iff hstmt
  rw [clause?_alwaysRequires]
  cases (ofConfig c).clause? ((ofConfig c).regionsOf m) i stmt with
  | none => rfl
  | some clause =>
    by_cases hguard : ((ofConfig c).shape stmt).isGuard
    · simp [hguard, hguardAt, Entry.withKind_ofCandidate]
    · simp [hguard, hguardAt]

/-- **Trailing guards are postconditions, all others are preconditions.** Under the rule that looks
at the place of a guard its entry is a postcondition exactly when the leading contracts are over
before it and only contracts and returns come behind it; so among the guards the preconditions come
first. Under the other rule every guard is a precondition, and the entries are the same in
everything else. -/
theorem guard_kinds {c : Config} {m : Method} {e : Extraction}
    (h : (ofConfig c).extract m = .ok e) :
    ∃ entries : List (Nat × Entry),
      (ofConfig (c.withLegacyRule .leadingRequiresTrailingEnsures)).Traces m entries ∧
      (∀ i entry, (i, entry) ∈ entries → (ofConfig c).GuardAt m i →
        (entry.kind = .ensures ↔ (ofConfig c).TrailsAt m i) ∧
        (¬ (ofConfig c).TrailsAt m i → entry.kind = .requires)) ∧
      (∃ front back,
        (entries.filter fun p => (ofConfig c).GuardAt m p.1).map (·.2.kind) =
          .replicate front .requires ++ .replicate back .ensures) ∧
      (ofConfig (c.withLegacyRule .alwaysRequires)).Traces m
        (entries.map fun p =>
          (p.1, if (ofConfig c).GuardAt m p.1 then p.2.withKind .requires else p.2)) := by
  have hroot : m.root.Recognized := recognized_of_extract h
  let x := ofConfig (c.withLegacyRule .leadingRequiresTrailingEnsures)
  have hrule : x.config.legacyRule = .leadingRequiresTrailingEnsures := rfl
  refine ⟨x.entries m, traces_entries hroot, ?_, guards_in_order hrule, ?_⟩
  · intro i entry hentry hguard
    have hensures := kind_of_guard_eq_ensures_iff hrule hentry hguard
    refine ⟨hensures, fun hplace => ?_⟩
    exact (kind_of_guard_cases hentry hguard).resolve_right fun h => hplace (hensures.mp h)
  · have hentries := entries_alwaysRequires (c.withLegacyRule .leadingRequiresTrailingEnsures) m
    have htraces := traces_entries (x := ofConfig (c.withLegacyRule .alwaysRequires)) hroot
    exact hentries ▸ htraces

/-- Two guards with a statement between them that is no contract. The second one is left out for
its stack marker, and counts as a trailing contract all the same. -/
theorem guard_kinds_trailing :
    let c : Config := Config.standard
    let x : Node := .unlocated (.ref (.argument 0 (some "x")))
    let guard (test : Node) : Node := .unlocated (.conditional test (.unlocated (.throw none)) none)
    let m : Method := ⟨"T", ⟨"f", [], "void"⟩, .replicate 0,
      [guard x, .unlocated (.block []), guard (.unlocated .stackDuplicate), .unlocated (.ret none)],
      none⟩
    (∃ e, (ofConfig c).extract m = .ok e) ∧
      ∃ entries,
        (ofConfig (c.withLegacyRule .leadingRequiresTrailingEnsures)).Traces m entries ∧
        (∃ entry, (0, entry) ∈ entries ∧ entry.kind = .requires) ∧
        (∃ entry, (2, entry) ∈ entries ∧ entry.kind = .ensures) := by
  intro c x guard m
  have hroot : m.root.Recognized := by decide
  have hextract := extract_of_recognized (ofConfig c) hroot
  obtain ⟨entries, htraces, hkind, -, -⟩ := guard_kinds hextract
  refine ⟨⟨_, hextract⟩, entries, htraces, ?_, ?_⟩
  · obtain ⟨entry, hentry⟩ := (htraces.exists_iff 0).mpr ⟨_, rfl, rfl⟩
    have hplace : ¬ (ofConfig c).TrailsAt m 0 := by
      rintro ⟨⟨j, hj, -⟩, -⟩
      exact Nat.not_lt_zero j hj
    exact ⟨entry, hentry, (hkind 0 entry hentry ⟨_, rfl, rfl⟩).2 hplace⟩
  · obtain ⟨entry, hentry⟩ := (htraces.exists_iff 2).mpr ⟨_, rfl, rfl⟩
    have hplace : (ofConfig c).TrailsAt m 2 := by
      refine ⟨⟨1, by decide, _, rfl, .inl rfl⟩, fun k hk stmt hstmt => ?_⟩
      -- only the return is left
      obtain ⟨hlt, hget⟩ := List.getElem?_eq_some_iff.mp hstmt
      obtain rfl : k = 3 := Nat.le_antisymm (Nat.le_of_lt_succ hlt) hk
      exact .inr (congrArg Node.kind hget.symm)
    exact ⟨entry, hentry, (hkind 2 entry hentry ⟨_, rfl, rfl⟩).1.mpr hplace⟩

/-! ## Which guards are accepted -/

/-- The candidate of a guard has the stack markers of its test. -/
theorem markers_of_guard {regions : Regions} {stmt test : Node} {clause : Clause}
    (hshape : x.shape stmt = .legacyGuard test)
    (hclause : x.clause? regions i stmt = some clause) :
    clause.markers = test.preorder.countP Node.isMarker := by
  rw [clause?, hshape] at hclause
  cases hclause
  exact Node.markers_negated test

/-- **Simplifying and negating touch nothing but negations and equalities.** They keep the positive
form of a tree, and so they keep the count of its stack markers. A guard is accepted exactly when
there is no stack marker in its test, and otherwise the note on it counts those in the test. -/
theorem simplify_negate_keep_positive {n : Node} (h : n.Recognized) :
    (∃ simpler opposite, n.simplify = .ok simpler ∧ n.negate = .ok opposite ∧
      simpler.node.positive = n.positive ∧ opposite.positive = n.positive ∧
      simpler.node.countMarkers = n.countMarkers ∧ opposite.countMarkers = n.countMarkers) ∧
    ∀ (x : Extractor) (m : Method) (e : Extraction), x.extract m = .ok e →
      ∃ entries, x.Traces m entries ∧
        ∀ i stmt entry, m.statements[i]? = some stmt → x.shape stmt = .legacyGuard n →
          (i, entry) ∈ entries →
          ((∃ clause, entry = .contract clause) ↔
            ∀ k : Node, k.OccursIn n → k.kind ≠ .stackDuplicate) ∧
          ∀ d, entry = .note d → d.markers = UInt64.ofNat (n.preorder.countP Node.isMarker) := by
  constructor
  · obtain ⟨changed, hsimplify⟩ := Node.simplify_of_recognized h
    refine ⟨_, _, hsimplify, Node.negate_of_recognized h, n.positive_simplified,
      n.positive_negated, ?_, ?_⟩
    · rw [Node.countMarkers_of_recognized (Node.recognized_simplified h),
        Node.countMarkers_of_recognized h, Node.markers_simplified]
    · rw [Node.countMarkers_of_recognized (Node.recognized_negated h),
        Node.countMarkers_of_recognized h, Node.markers_negated]
  · intro x m e hextract
    refine ⟨x.entries m, traces_entries (recognized_of_extract hextract), ?_⟩
    intro i stmt entry hstmt hshape hentry
    obtain ⟨stmt', clause, hstmt', hclause, rfl⟩ := mem_entries.mp hentry
    obtain rfl : stmt' = stmt := Option.some.inj (hstmt'.symm.trans hstmt)
    have hmarkers := markers_of_guard hshape hclause
    have hfree : clause.markers = 0 ↔ ∀ k : Node, k.OccursIn n → k.kind ≠ .stackDuplicate := by
      rw [hmarkers, List.countP_eq_zero]
      simp only [Node.isMarker, decide_eq_true_eq, Node.mem_preorder_iff]
    rw [← hfree, ← hmarkers]
    obtain ⟨hzero, hcontract⟩ | ⟨hzero, hnote⟩ := Entry.ofCandidate_cases clause
    · rw [hcontract]
      refine ⟨⟨fun _ => hzero, fun _ => ⟨clause, rfl⟩⟩, ?_⟩
      rintro d ⟨⟩
    · rw [hnote]
      refine ⟨⟨?_, fun h => absurd h hzero⟩, ?_⟩
      · rintro ⟨clause', ⟨⟩⟩
      · rintro d ⟨⟩
        rfl

/-- The guard `if (!(<dup> == x)) throw` is left out for one stack marker, though its clause is
`<dup> == x` and not the double negation. -/
theorem simplify_negate_keep_positive_marked :
    let x : Node := .unlocated (.ref (.argument 0 (some "x")))
    let equal : Node := ⟨.binary .eq (.unlocated .stackDuplicate) x, some ⟨5⟩⟩
    let test : Node := ⟨.unary .not equal, some ⟨6⟩⟩
    let m : Method := ⟨"T", ⟨"f", [], "void"⟩, .replicate 0,
      [.unlocated (.conditional test (.unlocated (.throw none)) none)], none⟩
    test.Recognized ∧ test.negate = .ok equal ∧ equal.positive = test.positive ∧
      (∃ e, (ofConfig .standard).extract m = .ok e) ∧
      ∃ entries d, (ofConfig .standard).Traces m entries ∧ (0, .note d) ∈ entries ∧
        d.markers = 1 := by
  intro x equal test m
  have htest : test.Recognized := by decide
  have hnegate : test.negate = .ok equal := rfl
  have hextract := extract_of_recognized (ofConfig .standard) (m := m) (by decide)
  obtain ⟨⟨simpler, opposite, -, hopposite, -, hpositive, -⟩, hguards⟩ :=
    simplify_negate_keep_positive htest
  obtain rfl : equal = opposite := Except.ok.inj (hnegate.symm.trans hopposite)
  obtain ⟨entries, htraces, hguard⟩ := hguards _ m _ hextract
  obtain ⟨entry, hentry⟩ := (htraces.exists_iff 0).mpr ⟨_, rfl, rfl⟩
  obtain ⟨haccepted, hmarkers⟩ := hguard 0 _ entry rfl rfl hentry
  refine ⟨htest, hnegate, hpositive, ⟨_, hextract⟩, entries, ?_⟩
  cases entry with
  | note d => exact ⟨d, htraces, hentry, hmarkers d rfl⟩
  | contract clause =>
    -- the marker in the test speaks against it
    have hoccurs : (Node.unlocated .stackDuplicate).OccursIn test :=
      Node.mem_preorder_iff.mp (by decide)
    exact absurd rfl (haccepted.mp ⟨clause, rfl⟩ _ hoccurs)

end Extractor

end MethodContracts
