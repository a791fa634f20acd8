import MethodContracts.Contract.Set
import MethodContracts.Proofs.Expr.Walk
import MethodContracts.Proofs.Result

/-!
# What gets into a contract set

A clause is pushed exactly when its condition can be evaluated on its own. So a set holds the
clauses that were pushed, in order, and nothing in it depends on the evaluation stack; and any list
of clauses of which that can be said is the list of a set.
-/

namespace MethodContracts

/-- How many nodes of the condition stand for values left on the evaluation stack. -/
def Clause.markers (c : Clause) : Nat := c.condition.preorder.countP Node.isMarker

theorem Clause.markers_eq_zero_iff {c : Clause} (h : c.condition.Recognized) :
    c.markers = 0 ↔ c.condition.Standalone := by
  rw [Node.standalone_iff_recognized, markers]
  exact ⟨fun hmarkers => ⟨h, hmarkers⟩, And.right⟩

namespace ContractSet

/-- **Every condition in a set can be evaluated on its own**: the verdict on a condition comes from
every node of it. -/
theorem standalone (set : ContractSet) :
    ∀ clause ∈ set.clauses, clause.condition.Standalone :=
  fun clause hclause => (Node.countMarkers_eq_zero_iff _).mp (set.balanced clause hclause)

/-- Those clauses of a list that stand on their own. -/
def accepted (clauses : List Clause) : ContractSet where
  clauses := clauses.filter (·.condition.Standalone)
  balanced clause hclause := by
    have hstandalone := of_decide_eq_true (List.mem_filter.mp hclause).2
    exact (Node.countMarkers_eq_zero_iff _).mpr hstandalone

/-- Where all of them do, these are all clauses of the list. -/
theorem clauses_accepted {clauses : List Clause}
    (h : ∀ clause ∈ clauses, clause.condition.Standalone) : (accepted clauses).clauses = clauses :=
  List.filter_eq_self.mpr fun clause hclause => decide_eq_true (h clause hclause)

/-- The clauses of one set and then those of another. -/
def append (set more : ContractSet) : ContractSet where
  clauses := set.clauses ++ more.clauses
  balanced := List.forall_mem_append.mpr ⟨set.balanced, more.balanced⟩

/-! ## Pushing -/

theorem push_of_balanced {clause : Clause} (set : ContractSet)
    (h : clause.condition.countMarkers = .ok 0) : set.push clause = .ok (set.concat clause h) := by
  rw [push]
  split <;> simp_all

theorem push_of_standalone {clause : Clause} (set : ContractSet) (h : clause.condition.Standalone) :
    set.push clause = .ok (set.concat clause ((Node.countMarkers_eq_zero_iff _).mpr h)) :=
  push_of_balanced set ((Node.countMarkers_eq_zero_iff _).mpr h)

/-- A clause with stack markers is refused for their number. -/
theorem push_of_markers {clause : Clause} {markers : Nat} (set : ContractSet)
    (h : clause.condition.countMarkers = .ok markers) (hpos : 0 < markers) :
    set.push clause = .error (.unbalancedClause clause.position markers) := by
  rw [push]
  split <;> simp_all

/-- A clause with a condition that cannot be walked is refused. -/
theorem push_of_error {clause : Clause} {why : ModelError} (set : ContractSet)
    (h : clause.condition.countMarkers = .error why) : set.push clause = .error why := by
  rw [push]
  split <;> simp_all

/-- **Only conditions that stand on their own are accepted.** Such a clause is put at the end. -/
theorem push_eq_ok_iff {set set' : ContractSet} {clause : Clause} :
    set.push clause = .ok set' ↔
      clause.condition.Standalone ∧ set'.clauses = set.clauses ++ [clause] := by
  rw [← Node.countMarkers_eq_zero_iff]
  constructor
  · intro h
    cases hmarkers : clause.condition.countMarkers with
    | error why =>
      rw [push_of_error set hmarkers] at h
      cases h
    | ok markers =>
      rcases Nat.eq_zero_or_pos markers with rfl | hpos
      · rw [push_of_balanced set hmarkers] at h
        cases h
        exact ⟨rfl, rfl⟩
      · rw [push_of_markers set hmarkers hpos] at h
        cases h
  · rintro ⟨hbalanced, hclauses⟩
    rw [push_of_balanced set hbalanced]
    exact congrArg Except.ok (ContractSet.ext hclauses.symm)

/-- Clauses are pushed together when each of them is accepted, and stand at the end in order. -/
theorem pushAll_eq_ok_iff {set set' : ContractSet} {clauses : List Clause} :
    set.pushAll clauses = .ok set' ↔
      (∀ clause ∈ clauses, clause.condition.Standalone) ∧
        set'.clauses = set.clauses ++ clauses := by
  induction clauses generalizing set with
  | nil => simp [pushAll, ContractSet.ext_iff, eq_comm]
  | cons clause rest ih =>
    rw [List.forall_mem_cons, and_assoc]
    constructor
    · intro h
      obtain ⟨next, hpush, hmore⟩ := bind_eq_ok_iff.mp h
      obtain ⟨hclause, hnext⟩ := push_eq_ok_iff.mp hpush
      obtain ⟨hrest, hlast⟩ := ih.mp hmore
      exact ⟨hclause, hrest, by simp [hlast, hnext]⟩
    · rintro ⟨hclause, hrest, hlast⟩
      rw [pushAll, push_of_standalone set hclause]
      exact ih.mpr ⟨hrest, by simp [hlast, concat]⟩

/-- The clauses of a list form a set when each of them is accepted. -/
theorem ofClauses_eq_ok_iff {clauses : List Clause} {set : ContractSet} :
    ofClauses clauses = .ok set ↔
      (∀ clause ∈ clauses, clause.condition.Standalone) ∧ set.clauses = clauses :=
  pushAll_eq_ok_iff

/-- The list of a set is accepted clause by clause. -/
theorem ofClauses_clauses (set : ContractSet) : ofClauses set.clauses = .ok set :=
  ofClauses_eq_ok_iff.mpr ⟨set.standalone, rfl⟩

end ContractSet

end MethodContracts
