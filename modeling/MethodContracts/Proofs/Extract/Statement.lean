import MethodContracts.Extract.Statement

/-!
# Which statements have which shape

Two shapes matter to the clauses of a method: contract calls and guards. Each is characterised by
the operation of the statement. The call that ends the leading contracts has no argument, so
it never takes the place of a contract call. It matters, as returns do, to the kinds of guards.
-/

namespace MethodContracts.Node

variable {table : ContractTable} {terminator : Option Callee}

/-- A throw, or a block of which a throw is the only statement. -/
inductive Throws : Node → Prop
  | throw (exception : Option Node) (offset : Option Offset) : Throws ⟨.throw exception, offset⟩
  | block (exception : Option Node) (offset offset' : Option Offset) :
    Throws ⟨.block [⟨.throw exception, offset⟩], offset'⟩

theorem alwaysThrows_iff (n : Node) : n.alwaysThrows = true ↔ n.Throws := by
  constructor
  · intro h
    obtain ⟨op, offset⟩ := n
    rw [alwaysThrows] at h
    split at h
    · next exception heq =>
      cases heq
      exact .throw _ _
    · next only heq =>
      cases heq
      obtain ⟨op, offset⟩ := only
      cases op <;> simp [kind, Op.kind] at h
      exact .block _ _ _
    · cases h
  · intro h
    cases h <;> rfl

/-- A contract call is a call whose callee and number of arguments the table knows, with a
condition as its first argument. -/
theorem shape_eq_contractCall_iff {n condition : Node} {kind : ClauseKind}
    {message : Option String} :
    n.shape table terminator = .contractCall kind condition message ↔
      ∃ callee more, n.op = .call callee (condition :: more) ∧
        table.lookup callee (more.length + 1) = some kind ∧
        message = more.head?.bind literalText? := by
  constructor
  · intro h
    rw [shape] at h
    split at h
    · next callee args hop =>
      split at h
      · cases h
      · split at h
        · next kind' condition' more _ hlookup =>
          cases h
          exact ⟨callee, more, hop, hlookup, rfl⟩
        · cases h
    · split at h <;> cases h
    · cases h
    · cases h
  · rintro ⟨callee, more, hop, hlookup, rfl⟩
    have hargs : ¬ ((condition :: more).isEmpty ∧ terminator = some callee) := by simp
    rw [shape, hop]
    simp only [if_neg hargs, List.length_cons, hlookup]

/-- A guard is a conditional without else branch whose then branch throws. -/
theorem shape_eq_legacyGuard_iff {n test : Node} :
    n.shape table terminator = .legacyGuard test ↔
      ∃ thenBranch, n.op = .conditional test thenBranch none ∧ thenBranch.Throws := by
  constructor
  · intro h
    rw [shape] at h
    split at h
    · split at h
      · cases h
      · split at h <;> cases h
    · next test' thenBranch hop =>
      split at h
      · next hthrows =>
        cases h
        exact ⟨thenBranch, hop, (alwaysThrows_iff _).mp hthrows⟩
      · cases h
    · cases h
    · cases h
  · rintro ⟨thenBranch, hop, hthrows⟩
    rw [shape, hop]
    exact if_pos ((alwaysThrows_iff _).mpr hthrows)

/-- The terminator is a call without arguments. -/
theorem shape_eq_terminator_iff {n : Node} :
    n.shape table terminator = .terminator ↔
      ∃ callee, terminator = some callee ∧ n.op = .call callee [] := by
  constructor
  · intro h
    rw [shape] at h
    split at h
    · next callee args hop =>
      split at h
      · next hends =>
        obtain rfl := List.isEmpty_iff.mp hends.1
        exact ⟨callee, hends.2, hop⟩
      · split at h <;> cases h
    · split at h <;> cases h
    · cases h
    · cases h
  · rintro ⟨callee, hterminator, hop⟩
    rw [shape, hop]
    exact if_pos ⟨rfl, hterminator⟩

/-- The table matters only to calls, and there only the answer for the call. -/
theorem shape_congr {table' : ContractTable} {n : Node}
    (h : ∀ callee args, n.op = .call callee args →
      table.lookup callee args.length = table'.lookup callee args.length) :
    n.shape table terminator = n.shape table' terminator := by
  obtain ⟨op, offset⟩ := n
  cases op with
  | call callee args => simp only [shape, h callee args rfl]
  | conditional test thenBranch elseBranch => cases elseBranch <;> rfl
  | _ => rfl

/-- A return is a return, whatever it returns. -/
theorem shape_eq_ret_iff {n : Node} : n.shape table terminator = .ret ↔ n.kind = .ret := by
  constructor
  · intro h
    rw [shape] at h
    split at h
    · split at h
      · cases h
      · split at h <;> cases h
    · split at h <;> cases h
    · next value hop => rw [kind, hop, Op.kind]
    · cases h
  · intro h
    obtain ⟨op, offset⟩ := n
    cases op <;> cases h
    rfl

end MethodContracts.Node
