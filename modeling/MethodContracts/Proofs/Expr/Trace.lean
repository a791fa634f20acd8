import MethodContracts.Proofs.Expr.Walk

/-!
# What visitors see

A visitor that makes a record at each node and goes past the children of some kinds sees the nodes
in preorder that have no node of these kinds above them. When it has no rule for unrecognized
instructions it sees those nodes up to the first such instruction, without that one, and the walk
fails with its opcode. A visitor that makes its record before it looks at the kind of a node sees
that instruction too.
-/

namespace MethodContracts.Visitor

variable {ρ : Type}

/-! ## Tracing visitors -/

/-- A record at each node, and then into the children or past them. Unrecognized instructions are
like other nodes when the visitor is lenient. -/
def noting (record : Node → ρ) (stop : List Kind) (lenient : Bool) (n : Node) : List ρ × Step :=
  match if lenient then none else n.opcode? with
  | some opcode => ([], .giveUp (.malformedTree opcode))
  | none => ([record n], if n.kind ∈ stop then .skip else .descend)

/-- Each method notes the node, and nothing else is decided by its kind. -/
theorem enters_tracing (record : Node → ρ) (stop : List Kind) (lenient : Bool) :
    (tracing record stop lenient).Enters (noting record stop lenient) := by
  intro n below
  have hnote : note record stop n below =
      Walk.andThen ⟨[record n], none⟩
        ((if n.kind ∈ stop then Step.skip else .descend).follow below) := by
    rw [note]
    split_ifs <;> rfl
  obtain ⟨op, offset⟩ := n
  cases op with
  | unrecognized opcode children =>
    cases lenient with
    | true => exact hnote
    | false => rfl
  | _ => cases lenient <;> exact hnote

/-- A tracing visitor goes past the children of the kinds where it stops. -/
theorem walk_tracing (record : Node → ρ) (stop : List Kind) (lenient : Bool) (n : Node) :
    (tracing record stop lenient).walk n =
      run (noting record stop lenient) (n.visible (·.kind ∈ stop)) := by
  refine (enters_tracing record stop lenient).walk_eq_run (fun m hdescend => ?_)
    (fun m hskip => ?_) n
  · rw [noting] at hdescend
    split at hdescend
    · cases hdescend
    · refine decide_eq_false fun hstop => ?_
      rw [if_pos hstop] at hdescend
      cases hdescend
  · rw [noting] at hskip
    split at hskip
    · cases hskip
    · refine decide_eq_true (Classical.byContradiction fun hstop => ?_)
      rw [if_neg hstop] at hskip
      cases hskip

/-- A lenient visitor makes a record at every node that it meets. -/
theorem run_lenient (record : Node → ρ) (stop : List Kind) (ns : List Node) :
    run (noting record stop true) ns = ⟨ns.map record, none⟩ := by
  induction ns with
  | nil => rfl
  | cons n rest ih =>
    have henter : noting record stop true n =
        ([record n], if n.kind ∈ stop then .skip else .descend) := rfl
    rw [run, henter, ih]
    split_ifs <;> rfl

/-- A visitor that is not lenient gives up at unrecognized instructions before it makes a record. -/
theorem strict_noting (record : Node → ρ) (stop : List Kind) :
    Strict (noting record stop false) fun n =>
      if n.kind = .unrecognized then [] else [record n] where
  gives_up n opcode hopcode := by
    rw [noting, if_neg Bool.false_ne_true, hopcode, if_pos (Node.kind_of_opcode? hopcode)]
  goes_on n hopcode := by
    rw [noting, if_neg Bool.false_ne_true, hopcode, if_neg (n.opcode?_eq_none_iff.mp hopcode)]
    by_cases hstop : n.kind ∈ stop
    · exact .inr (by rw [if_pos hstop])
    · exact .inl (by rw [if_neg hstop])

/-- So its records are those of the nodes in front of the first unrecognized instruction. -/
theorem run_strict (record : Node → ρ) (stop : List Kind) (ns : List Node) :
    run (noting record stop false) ns =
      ⟨(ns.takeWhile (·.kind ≠ .unrecognized)).map record,
        (ns.findSome? Node.opcode?).map .malformedTree⟩ := by
  rw [(strict_noting record stop).run_eq, List.flatMap_append]
  have hbefore : (ns.takeWhile (·.kind ≠ .unrecognized)).flatMap
      (fun n => if n.kind = .unrecognized then [] else [record n]) =
      (ns.takeWhile (·.kind ≠ .unrecognized)).map record := by
    rw [List.map_eq_flatMap]
    refine List.flatMap_congr fun n hn => ?_
    have hkind : n.kind ≠ .unrecognized := by simpa using List.mem_takeWhile_imp hn
    rw [if_neg hkind]
  have hfirst : (ns.find? (·.kind = .unrecognized)).toList.flatMap
      (fun n => if n.kind = .unrecognized then [] else [record n]) = [] := by
    cases hfind : ns.find? (·.kind = .unrecognized) with
    | none => rfl
    | some n =>
      have hkind : n.kind = .unrecognized := by simpa using List.find?_some hfind
      rw [Option.toList_some, List.flatMap_singleton, if_pos hkind]
  rw [hbefore, hfirst, List.append_nil]

/-! ## The records of a walk -/

/-- **A walk sees the pruned preorder.** The preorder of a tree goes through its places in order. A
lenient visitor that goes past the children of some kinds makes its records at the nodes in
preorder that have no node of such a kind above them; one that is not lenient makes them up to the
first unrecognized instruction among these, exclusively, and reports its opcode. A visitor that
makes a record at every node before it looks at its kind goes through the whole preorder, up to
the first unrecognized instruction inclusively. -/
theorem walk_sees (record : Node → ρ) (stop : List Kind) (n : Node) :
    n.preorder = n.places.filterMap n.at? ∧
    (tracing record stop true).walk n = ⟨(n.visible (·.kind ∈ stop)).map record, none⟩ ∧
    (tracing record stop false).walk n =
      ⟨((n.visible (·.kind ∈ stop)).takeWhile (·.kind ≠ .unrecognized)).map record,
        ((n.visible (·.kind ∈ stop)).findSome? Node.opcode?).map .malformedTree⟩ ∧
    (everywhere fun m => [record m]).walk n =
      ⟨(n.preorder.takeWhile (·.kind ≠ .unrecognized) ++
          (n.preorder.find? (·.kind = .unrecognized)).toList).map record,
        (n.preorder.findSome? Node.opcode?).map .malformedTree⟩ := by
  refine ⟨n.filterMap_at?_places.symm, ?_, ?_, ?_⟩
  · rw [walk_tracing, run_lenient]
  · rw [walk_tracing, run_strict]
  · rw [(enters_everywhere _).walk_recording, (strict_recording _).run_eq, ← List.map_eq_flatMap]

/-- An unrecognized instruction below a node where the visitor stops is not met, the next one is. -/
example :
    let jump : Node := .unlocated (.unrecognized "jmp" [])
    let leave : Node := .unlocated (.unrecognized "leave" [])
    let n : Node := .unlocated (.block [.unlocated (.unary .not jump), leave])
    (tracing Node.kind [.unary] false).walk n =
      ⟨[.block, .unary], some (.malformedTree "leave")⟩ := by
  rfl

end MethodContracts.Visitor
