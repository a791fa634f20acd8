/-!
# Results that may be faults

How a result came about: a computation made of parts has a value only when its parts have
values, and the value is the one that the parts make up.
-/

namespace MethodContracts

variable {ε ε' α β : Type}

theorem map_eq_ok_iff {f : α → β} {result : Except ε α} {b : β} :
    result.map f = .ok b ↔ ∃ a, result = .ok a ∧ f a = b := by
  cases result <;> simp [Except.map]

theorem mapError_eq_ok_iff {f : ε → ε'} {result : Except ε α} {a : α} :
    result.mapError f = .ok a ↔ result = .ok a := by
  constructor
  · intro h
    cases result with
    | error e => cases h
    | ok b => exact congrArg Except.ok (Except.ok.inj h)
  · rintro rfl
    rfl

/-- Faults that are told apart stay so behind an injective map. -/
theorem mapError_inj {f : ε → ε'} (hf : ∀ e e', f e = f e' → e = e')
    {result result' : Except ε α} :
    result.mapError f = result'.mapError f ↔ result = result' := by
  refine ⟨fun h => ?_, congrArg _⟩
  cases result with
  | ok a => exact (mapError_eq_ok_iff.mp h.symm).symm
  | error e =>
    cases result' with
    | ok a => cases h
    | error e' => exact congrArg Except.error (hf e e' (Except.error.inj h))

theorem bind_eq_ok_iff {result : Except ε α} {next : α → Except ε β} {b : β} :
    (result >>= next) = .ok b ↔ ∃ a, result = .ok a ∧ next a = .ok b := by
  cases result <;> simp [bind, Except.bind]

/-- Every result of a list of computations is the result of one of them. -/
theorem mem_of_mapM_eq_ok {f : α → Except ε β} {as : List α} {bs : List β}
    (h : as.mapM f = .ok bs) {b : β} (hb : b ∈ bs) : ∃ a, f a = .ok b := by
  induction as generalizing bs with
  | nil =>
    cases h
    cases hb
  | cons a as ih =>
    rw [List.mapM_cons] at h
    obtain ⟨first, hfirst, hmore⟩ := bind_eq_ok_iff.mp h
    obtain ⟨rest, hrest, hbs⟩ := bind_eq_ok_iff.mp hmore
    cases hbs
    rcases List.mem_cons.mp hb with rfl | hb
    · exact ⟨a, hfirst⟩
    · exact ih hrest hb

end MethodContracts
