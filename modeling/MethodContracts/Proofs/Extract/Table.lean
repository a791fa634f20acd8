import MethodContracts.Extract.Table

/-!
# The table of contract calls as a list

A look-up in the table answers as a scan of the list it was made from: with the kind of the first
entry for the callee and the number of arguments. The order of the list matters among the entries
for one call only; entries for different calls may stand in any order.
-/

namespace MethodContracts

/-- The entry is for calls of this callee with so many arguments. -/
def ContractMethod.Covers (m : ContractMethod) (callee : Callee) (arity : Nat) : Prop :=
  m.callee = callee ∧ m.arity.toNat = arity

instance (m : ContractMethod) (callee : Callee) (arity : Nat) : Decidable (m.Covers callee arity) :=
  inferInstanceAs (Decidable (_ ∧ _))

/-- Entries for one call have the same callee and the same arity. -/
theorem ContractMethod.Covers.agree {a b : ContractMethod} {callee : Callee} {arity : Nat}
    (ha : a.Covers callee arity) (hb : b.Covers callee arity) :
    a.callee = b.callee ∧ a.arity = b.arity :=
  ⟨ha.1.trans hb.1.symm, UInt64.toNat_inj.mp (ha.2.trans hb.2.symm)⟩

namespace ContractTable

/-- A new entry answers the look-ups that it covers and that were unanswered. -/
theorem lookup_add (table : ContractTable) (m : ContractMethod) (callee : Callee) (arity : Nat) :
    (table.add m).lookup callee arity =
      (table.lookup callee arity).or (if m.Covers callee arity then some m.kind else none) := by
  simp only [lookup, add, ContractMethod.Covers, Std.HashMap.getElem?_insert]
  by_cases hcallee : m.callee = callee
  · subst hcallee
    rw [if_pos (beq_self_eq_true _), Option.bind_eq_bind, Option.bind_some,
      Std.HashMap.getElem?_insertIfNew, Std.HashMap.getD_eq_getD_getElem?]
    -- whether there is an inner table already, and whether it answers
    cases table.byCallee[m.callee]? with
    | none => by_cases harity : m.arity.toNat = arity <;> simp [harity]
    | some inner =>
      by_cases harity : m.arity.toNat = arity
      · subst harity
        by_cases hmem : m.arity.toNat ∈ inner
        · simp [hmem]
        · simp [hmem]
      · simp [harity]
  · simp [hcallee]

theorem lookup_foldl_add (methods : List ContractMethod) (table : ContractTable) (callee : Callee)
    (arity : Nat) :
    (methods.foldl add table).lookup callee arity =
      (table.lookup callee arity).or
        ((methods.find? fun m => m.Covers callee arity).map (·.kind)) := by
  induction methods generalizing table with
  | nil => simp
  | cons m rest ih =>
    rw [List.foldl_cons, ih, lookup_add, Option.or_assoc, List.find?_cons]
    by_cases hcovers : m.Covers callee arity <;> simp [hcovers]

/-- **The first entry for a call counts.** -/
theorem lookup_ofMethods (methods : List ContractMethod) (callee : Callee) (arity : Nat) :
    (ofMethods methods).lookup callee arity =
      (methods.find? fun m => m.Covers callee arity).map (·.kind) := by
  rw [ofMethods, lookup_foldl_add]
  simp [lookup, empty]

/-- A look-up has an answer when an entry covers the call. -/
theorem isSome_lookup_ofMethods (methods : List ContractMethod) (callee : Callee) (arity : Nat) :
    ((ofMethods methods).lookup callee arity).isSome ↔ ∃ m ∈ methods, m.Covers callee arity := by
  rw [lookup_ofMethods, Option.isSome_map, List.find?_isSome]
  simp

/-! ## The order of the entries -/

/-- A look-up depends on the entries for the call, and not on those that stand between them. -/
theorem lookup_eq_of_filter_eq {methods methods' : List ContractMethod} {callee : Callee}
    {arity : Nat}
    (h : methods.filter (·.Covers callee arity) = methods'.filter (·.Covers callee arity)) :
    (ofMethods methods).lookup callee arity = (ofMethods methods').lookup callee arity := by
  rw [lookup_ofMethods, lookup_ofMethods, ← List.head?_filter, h, List.head?_filter]

/-- No call is covered by two entries that differ in callee or arity, so among the entries for a
call there is at most one of them. -/
theorem filter_covers_swap {a b : ContractMethod} (h : a.callee ≠ b.callee ∨ a.arity ≠ b.arity)
    (front back : List ContractMethod) (callee : Callee) (arity : Nat) :
    (front ++ a :: b :: back).filter (·.Covers callee arity) =
      (front ++ b :: a :: back).filter (·.Covers callee arity) := by
  rw [List.filter_append, List.filter_append]
  congr 1
  by_cases ha : a.Covers callee arity
  · have hb : ¬ b.Covers callee arity := by
      intro hb
      obtain ⟨hcallee, harity⟩ := ha.agree hb
      exact h.elim (absurd hcallee) (absurd harity)
    simp [ha, hb]
  · simp [List.filter_cons, ha]

/-- **The table answers as a scan for the first match.** The answer to a look-up is the kind of the
first entry with that callee and that arity, and there is none when there is no such entry. So two
neighbouring entries that differ in callee or arity may change places. -/
theorem lookup_first_match (methods : List ContractMethod) :
    (∀ callee arity, (ofMethods methods).lookup callee arity =
      (methods.find? fun m => m.callee = callee ∧ m.arity.toNat = arity).map (·.kind)) ∧
    ∀ front a b back, methods = front ++ a :: b :: back →
      (a.callee ≠ b.callee ∨ a.arity ≠ b.arity) →
      ∀ callee arity, (ofMethods (front ++ b :: a :: back)).lookup callee arity =
        (ofMethods methods).lookup callee arity := by
  constructor
  · exact lookup_ofMethods methods
  · rintro front a b back rfl hdiffer callee arity
    exact lookup_eq_of_filter_eq (filter_covers_swap hdiffer front back callee arity).symm

/-- Three entries for one callee, two of them for the same number of arguments. The one between
them may change places with the last; then the first and the last are neighbours, and may not. -/
theorem lookup_first_match_interleaved :
    let require : Callee := ⟨"Guard", "Require"⟩
    let first : ContractMethod := ⟨require, 1, .requires⟩
    let between : ContractMethod := ⟨require, 2, .invariant⟩
    let last : ContractMethod := ⟨require, 1, .ensures⟩
    between.arity ≠ last.arity ∧
      (ofMethods [first, between, last]).lookup require 1 = some .requires ∧
      (∀ callee arity, (ofMethods [first, last, between]).lookup callee arity =
        (ofMethods [first, between, last]).lookup callee arity) ∧
      (ofMethods [last, first, between]).lookup require 1 = some .ensures := by
  intro require first between last
  have harity : between.arity ≠ last.arity := by decide
  obtain ⟨hfirst, hswap⟩ := lookup_first_match [first, between, last]
  refine ⟨harity, ?_, hswap [first] between last [] rfl (.inr harity), ?_⟩
  · rw [hfirst]
    decide
  · rw [(lookup_first_match [last, first, between]).1]
    decide

end ContractTable

end MethodContracts
