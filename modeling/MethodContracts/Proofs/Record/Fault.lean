import MethodContracts.Proofs.Contract.Json
import MethodContracts.Record.Format

/-!
# Stored faults come back

A fault in a record has a stored form of its own, which round-trips.
-/

namespace MethodContracts.FormatError

theorem magicCodec_roundTrips (magic : Vector UInt8 4) : magicCodec.RoundTrips magic := by
  have hbytes : Codec.uint8.list.RoundTrips magic.toList :=
    Codec.list_roundTrips fun b _ => Codec.uint8_roundTrips b
  exact Codec.guarded_roundTrips hbytes (by simp [Vector.toList])

theorem magicCodec_shallow : magicCodec.Shallow := by
  refine Codec.guarded_shallow (Codec.list_shallow Codec.uint8_shallow) ?_
  intro bytes magic h
  split_ifs at h
  cases h
  rfl

theorem codec_roundTrips (fault : FormatError) : codec.RoundTrips fault := by
  cases fault with
  | truncated length minimum =>
    exact Codec.body_roundTrips rfl rfl (by decide)
      ⟨Field.required_roundTrips (Codec.uint64_roundTrips length),
        Field.required_roundTrips (Codec.uint64_roundTrips minimum), trivial⟩ rfl
  | badMagic found =>
    exact Codec.body_roundTrips rfl rfl (by decide)
      ⟨Field.required_roundTrips (magicCodec_roundTrips found), trivial⟩ rfl
  | unsupportedVersion found expected =>
    exact Codec.body_roundTrips rfl rfl (by decide)
      ⟨Field.required_roundTrips (Codec.uint16_roundTrips found),
        Field.required_roundTrips (Codec.uint16_roundTrips expected), trivial⟩ rfl
  | checksumMismatch => exact Codec.unit_roundTrips rfl rfl
  | payload reason =>
    exact Codec.body_roundTrips rfl rfl (by decide)
      ⟨Field.required_roundTrips (Codec.string_roundTrips reason), trivial⟩ rfl

theorem codec_shallow : codec.Shallow := by
  have huint16 {scope : Scope} {name : String} : (Field.required name Codec.uint16).Shallow scope :=
    Field.required_shallow Codec.uint16_shallow
  have huint64 {scope : Scope} {name : String} : (Field.required name Codec.uint64).Shallow scope :=
    Field.required_shallow Codec.uint64_shallow
  refine Decoder.within_variants fun name found hfound => ?_
  unfold case? at hfound
  -- the variants stand in the order of the constructors
  split at hfound <;> cases hfound
  · exact Decoder.Case.within_body (fun _ => ⟨huint64, huint64, trivial⟩) fun _ => ⟨_, rfl⟩
  · exact Decoder.Case.within_body
      (fun _ => ⟨Field.required_shallow magicCodec_shallow, trivial⟩) fun _ => ⟨_, rfl⟩
  · exact Decoder.Case.within_body (fun _ => ⟨huint16, huint16, trivial⟩) fun _ => ⟨_, rfl⟩
  · rfl
  · exact Decoder.Case.within_body
      (fun _ => ⟨Field.required_shallow Codec.string_shallow, trivial⟩) fun _ => ⟨_, rfl⟩

end MethodContracts.FormatError
