import MethodContracts.Extract.Config
import MethodContracts.Proofs.Contract.Json

/-!
# Stored configurations come back

Every configuration round-trips. What a stored one leaves out is written when the configuration is
written again, with the brackets of the default, so a configuration is written within the limit of
a whole text and not within any limit in which it could be read.
-/

namespace MethodContracts

theorem LegacyRule.codec_roundTrips (rule : LegacyRule) : codec.RoundTrips rule :=
  Codec.named_roundTrips (by cases rule <;> decide) (by cases rule <;> decide)

theorem ContractMethod.codec_roundTrips (m : ContractMethod) : codec.RoundTrips m :=
  Codec.record_roundTrips (by decide)
    ⟨Field.required_roundTrips (Callee.codec_roundTrips m.callee),
      Field.required_roundTrips (Codec.uint64_roundTrips m.arity),
      Field.required_roundTrips (ClauseKind.codec_roundTrips m.kind), trivial⟩ rfl

theorem ContractMethod.codec_shallow : codec.Shallow :=
  Codec.record_shallow (fun _ =>
    ⟨Field.required_shallow Callee.codec_shallow,
      Field.required_shallow Codec.uint64_shallow,
      Field.required_shallow (Codec.named_shallow ..), trivial⟩) fun _ => rfl

namespace Config

/-- An absent terminator is written as `null`, so it is told from a missing one. -/
theorem codec_roundTrips (c : Config) : codec.RoundTrips c := by
  have hmethods := Codec.list_roundTrips fun m (_ : m ∈ c.methods) =>
    ContractMethod.codec_roundTrips m
  have hterminator : (Field.nullableDefaulted "end_contract_block" Callee.codec
      standard.terminator).RoundTrips c.terminator :=
    Field.nullableDefaulted_roundTrips fun callee _ => ⟨Callee.codec_roundTrips callee, nofun⟩
  have hrule := LegacyRule.codec_roundTrips c.legacyRule
  exact Codec.record_roundTrips (by decide)
    ⟨Field.defaulted_roundTrips hmethods, hterminator, Field.defaulted_roundTrips hrule, trivial⟩
    rfl

/-- A whole text has room for the defaults. -/
theorem allows_of_read {json : Json} {c : Config} (h : codec.read .wholeText json = .ok c) :
    Scope.wholeText.allows (codec.write c).depth := by
  obtain ⟨values, hread, rfl⟩ := map_eq_ok_iff.mp h
  obtain ⟨inner, henter, hvalues⟩ := Layout.accepts_of_read hread
  cases henter
  have hmethods : (Scope.text 126).allows
      (ContractMethod.codec.list.write standard.methods).depth := by decide
  have hterminator : ∀ callee ∈ standard.terminator,
      (Scope.text 126).allows (Callee.codec.write callee).depth := by decide
  exact Layout.allows_write rfl
    ⟨Field.defaulted_shallow (Codec.list_shallow ContractMethod.codec_shallow) hmethods,
      Field.nullableDefaulted_shallow Callee.codec_shallow hterminator,
      Field.defaulted_shallow (Codec.named_shallow ..) rfl, trivial⟩ hvalues

end Config

end MethodContracts
