import MethodContracts.Error

/-!
# Fingerprints

A fingerprint is the content hash of a method body, computed by whoever decodes the body. Two
bodies with equal fingerprints count as the same input.
-/

namespace MethodContracts

/-- A content hash of 32 bytes. -/
structure Fingerprint where
  bytes : Bytes
  length_eq : bytes.length = 32
deriving DecidableEq

namespace Fingerprint

instance : Hashable Fingerprint := ⟨fun fp => hash fp.bytes⟩

instance : EquivBEq Fingerprint := inferInstance

instance : LawfulHashable Fingerprint := inferInstance

/-- A fingerprint from bytes; any other width is a fault. -/
def ofBytes (bytes : Bytes) : Except ModelError Fingerprint :=
  if h : bytes.length = 32 then .ok ⟨bytes, h⟩ else .error (.invalidFingerprint bytes.length)

/-- The fingerprint that repeats one byte. -/
def replicate (b : UInt8) : Fingerprint := ⟨List.replicate 32 b, List.length_replicate⟩

/-- Two lowercase hexadecimal digits per byte. -/
def display (fp : Fingerprint) : String := fp.bytes.toHex

/-- Fingerprints are ordered like their bytes, from the first on. -/
def compare (a b : Fingerprint) : Ordering :=
  if a.bytes < b.bytes then .lt else if a.bytes = b.bytes then .eq else .gt

end Fingerprint

end MethodContracts
