import MethodContracts.Contract.Json
import MethodContracts.Proofs.Contract.Set
import MethodContracts.Proofs.Expr.Json

/-!
# Stored contracts come back

Positions, clauses, diagnostics and contract sets round-trip whatever they hold. A contract set is
pushed clause by clause when it is read, and it comes back because every set carries the verdict
that a push looks for. What else is read as a set was such a list of clauses before.
-/

namespace MethodContracts

theorem ClauseKind.codec_roundTrips (kind : ClauseKind) : codec.RoundTrips kind :=
  Codec.named_roundTrips (by cases kind <;> decide) (by cases kind <;> decide)

theorem Position.codec_roundTrips (p : Position) : codec.RoundTrips p := by
  have hstatement : (Field.required "statement_index" Codec.uint64).RoundTrips p.statement :=
    Field.required_roundTrips (Codec.uint64_roundTrips p.statement)
  have hoffset : (Field.optional "offset" Offset.codec).RoundTrips p.offset :=
    Field.optional_roundTrips fun o _ => ⟨Offset.codec_roundTrips o, nofun⟩
  exact Codec.record_roundTrips (by decide) ⟨hstatement, hoffset, trivial⟩ rfl

theorem Clause.codec_roundTrips (c : Clause) : codec.RoundTrips c := by
  have hmessage : (Field.optional "message" Codec.string).RoundTrips c.message :=
    Field.optional_roundTrips fun s _ => ⟨Codec.string_roundTrips s, nofun⟩
  exact Codec.record_roundTrips (by decide)
    ⟨Field.required_roundTrips (ClauseKind.codec_roundTrips c.kind),
      Field.required_roundTrips (Node.codec_roundTrips c.condition),
      Field.required_roundTrips (Position.codec_roundTrips c.position), hmessage, trivial⟩ rfl

theorem Clause.list_roundTrips (clauses : List Clause) : codec.list.RoundTrips clauses :=
  Codec.list_roundTrips fun c _ => codec_roundTrips c

theorem Diagnostic.codec_roundTrips (d : Diagnostic) : codec.RoundTrips d :=
  Codec.body_roundTrips rfl rfl (by decide)
    ⟨Field.required_roundTrips (Position.codec_roundTrips d.position),
      Field.required_roundTrips (ClauseKind.codec_roundTrips d.kind),
      Field.required_roundTrips (Codec.uint64_roundTrips d.markers),
      Field.required_roundTrips (Codec.string_roundTrips d.condition), trivial⟩ rfl

namespace ContractSet

/-- What is read as a set is the list of its clauses. -/
theorem decoder_eq_ok_iff {scope : Scope} {json : Json} {set : ContractSet} :
    decoder scope json = .ok set ↔ Clause.codec.list.read scope json = .ok set.clauses := by
  rw [decoder]
  constructor
  · intro h
    split at h
    · next clauses hread =>
      obtain ⟨-, rfl⟩ := ofClauses_eq_ok_iff.mp (mapError_eq_ok_iff.mp h)
      exact hread
    · cases h
  · intro hread
    rw [hread]
    exact mapError_eq_ok_iff.mpr set.ofClauses_clauses

/-- A contract set round-trips. -/
theorem codec_roundTrips (set : ContractSet) : codec.RoundTrips set := by
  have hlist := Clause.list_roundTrips set.clauses
  refine ⟨hlist.plain, fun scope => ?_⟩
  have hwrite : codec.write set = Clause.codec.list.write set.clauses := rfl
  rw [hwrite]
  change decoder scope (Clause.codec.list.write set.clauses) = _
  rw [decoder, hlist.read]
  unfold Scope.answer
  split_ifs
  · change (ofClauses set.clauses).mapError ReadError.rejected = _
    rw [ofClauses_clauses]
    rfl
  · rfl

end ContractSet

/-- An extraction result round-trips. -/
theorem Extraction.codec_roundTrips (e : Extraction) : codec.RoundTrips e := by
  have hdiagnostics := Codec.list_roundTrips fun d (_ : d ∈ e.diagnostics) =>
    Diagnostic.codec_roundTrips d
  exact Codec.record_roundTrips (by decide)
    ⟨Field.required_roundTrips (ContractSet.codec_roundTrips e.contracts),
      Field.defaulted_roundTrips hdiagnostics, trivial⟩ rfl

/-! ## Fingerprints and signatures -/

theorem Fingerprint.codec_roundTrips (fp : Fingerprint) : codec.RoundTrips fp := by
  have hbytes : Codec.uint8.list.RoundTrips fp.bytes :=
    Codec.list_roundTrips fun b _ => Codec.uint8_roundTrips b
  have hof : (ofBytes fp.bytes).toOption = some fp := by
    rw [ofBytes, dif_pos fp.length_eq]
    rfl
  exact Codec.guarded_roundTrips hbytes hof

theorem Parameter.codec_roundTrips (p : Parameter) : codec.RoundTrips p :=
  Codec.record_roundTrips (by decide)
    ⟨Field.required_roundTrips (Codec.string_roundTrips p.name),
      Field.required_roundTrips (Codec.string_roundTrips p.typeName), trivial⟩ rfl

theorem Signature.codec_roundTrips (s : Signature) : codec.RoundTrips s :=
  Codec.record_roundTrips (by decide)
    ⟨Field.required_roundTrips (Codec.string_roundTrips s.name),
      Field.required_roundTrips (Codec.list_roundTrips fun p _ => Parameter.codec_roundTrips p),
      Field.required_roundTrips (Codec.string_roundTrips s.returnType), trivial⟩ rfl

/-! ## Limits -/

theorem Position.codec_shallow : codec.Shallow :=
  Codec.record_shallow (fun _ =>
    ⟨Field.required_shallow Codec.uint64_shallow, Field.optional_shallow Offset.codec_shallow,
      trivial⟩) fun _ => rfl

theorem Clause.codec_shallow : codec.Shallow :=
  Codec.record_shallow (fun _ =>
    ⟨Field.required_shallow (Codec.named_shallow ..), Field.required_shallow Node.codec_shallow,
      Field.required_shallow Position.codec_shallow,
      Field.optional_shallow Codec.string_shallow, trivial⟩) fun _ => rfl

theorem Diagnostic.codec_shallow : codec.Shallow := by
  refine Decoder.within_variants fun name found hfound => ?_
  unfold case? at hfound
  split at hfound <;> cases hfound
  exact Decoder.Case.within_body (fun _ =>
    ⟨Field.required_shallow Position.codec_shallow, Field.required_shallow (Codec.named_shallow ..),
      Field.required_shallow Codec.uint64_shallow, Field.required_shallow Codec.string_shallow,
      trivial⟩) fun _ => ⟨_, rfl⟩

theorem ContractSet.codec_shallow : codec.Shallow := by
  intro scope json set h
  exact Codec.list_shallow Clause.codec_shallow (decoder_eq_ok_iff.mp h)

/-- A result without diagnostics is written with an empty list of them. Its bracket is not deeper
than that of the contracts, which have to be there. -/
theorem Extraction.codec_shallow : codec.Shallow := by
  refine Decoder.Within.map fun scope json values hread => ?_
  obtain ⟨inner, henter, hvalues⟩ := Layout.accepts_of_read hread
  obtain ⟨json', hcontracts⟩ := hvalues.1.of_required
  have hroom : inner.allows 1 :=
    Scope.allows_of_le (ContractSet.codec_shallow hcontracts) (Nat.le_add_left ..)
  exact Layout.allows_write henter
    ⟨Field.required_shallow ContractSet.codec_shallow,
      Field.defaulted_shallow (Codec.list_shallow Diagnostic.codec_shallow) hroom, trivial⟩ hvalues

theorem Fingerprint.codec_shallow : codec.Shallow := by
  refine Codec.guarded_shallow (Codec.list_shallow Codec.uint8_shallow) ?_
  intro bytes fp h
  rw [ofBytes] at h
  split_ifs at h
  · cases h
    rfl
  · cases h

theorem Parameter.codec_shallow : codec.Shallow :=
  Codec.record_shallow (fun _ =>
    ⟨Field.required_shallow Codec.string_shallow, Field.required_shallow Codec.string_shallow,
      trivial⟩) fun _ => rfl

theorem Signature.codec_shallow : codec.Shallow :=
  Codec.record_shallow (fun _ =>
    ⟨Field.required_shallow Codec.string_shallow,
      Field.required_shallow (Codec.list_shallow Parameter.codec_shallow),
      Field.required_shallow Codec.string_shallow, trivial⟩) fun _ => rfl

end MethodContracts
