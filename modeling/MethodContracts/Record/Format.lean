import MethodContracts.Contract.Json
import MethodContracts.Json.Text
import MethodContracts.Record.Blake3

/-!
# Stored records

A record holds one extraction result behind a header of 38 bytes: a magic number, the version
of the format, and the checksum of the payload, which is the result as JSON text.

Decoding checks the parts of the header in this order and then reads the payload, which
checks every clause again.
-/

namespace MethodContracts

/-- Why a stored record cannot be decoded. -/
inductive FormatError where
  | truncated (length minimum : UInt64)
  | badMagic (found : Vector UInt8 4)
  | unsupportedVersion (found expected : UInt16)
  | checksumMismatch
  | payload (reason : String)
deriving DecidableEq, Repr

namespace FormatError

/-- The text of a fault in a record. -/
def message : FormatError → String
  | truncated length minimum =>
    "record is " ++ toString length.toNat ++ " bytes, shorter than the " ++
      toString minimum.toNat ++ "-byte header"
  | badMagic found => "bad record magic " ++ Bytes.listing found.toList
  | unsupportedVersion found expected =>
    "unsupported record format version " ++ toString found.toNat ++ " (expected " ++
      toString expected.toNat ++ ")"
  | checksumMismatch => "record checksum mismatch"
  | payload reason => "record payload is not a valid contract set: " ++ reason

/-- The record of a length that is too small. -/
def truncatedLayout : Layout [UInt64, UInt64] :=
  .two (.required "len" .uint64) (.required "minimum" .uint64)

/-- Four bytes as an array. -/
def magicCodec : Codec (Vector UInt8 4) :=
  ⟨fun v => (Codec.list .uint8).write v.toList,
    (Codec.list .uint8).read.guarded fun bytes =>
      if h : bytes.length = 4 then some ⟨bytes.toArray, by simpa using h⟩ else none⟩

/-- The record of a wrong magic number. -/
def badMagicLayout : Layout [Vector UInt8 4] := .one (.required "found" magicCodec)

/-- The record of a wrong version. -/
def versionLayout : Layout [UInt16, UInt16] :=
  .two (.required "found" .uint16) (.required "expected" .uint16)

/-- The record of an unreadable payload. -/
def payloadLayout : Layout [String] := .one (.required "reason" .string)

/-- Writes a fault. -/
def encode : FormatError → Json
  | truncated length minimum =>
    .variant "Truncated" (truncatedLayout.write (length, minimum, ()))
  | badMagic found => .variant "BadMagic" (badMagicLayout.write (found, ()))
  | unsupportedVersion found expected =>
    .variant "UnsupportedVersion" (versionLayout.write (found, expected, ()))
  | checksumMismatch => .string "ChecksumMismatch"
  | payload reason => .variant "Payload" (payloadLayout.write (reason, ()))

/-- The variants of faults. -/
def case? : String → Option (Decoder.Case FormatError)
  | "Truncated" =>
    some (.body (truncatedLayout.read.map fun (length, minimum, _) => .truncated length minimum))
  | "BadMagic" => some (.body (badMagicLayout.read.map fun (found, _) => .badMagic found))
  | "UnsupportedVersion" =>
    some (.body (versionLayout.read.map fun (found, expected, _) =>
      .unsupportedVersion found expected))
  | "ChecksumMismatch" => some (.unit .checksumMismatch)
  | "Payload" => some (.body (payloadLayout.read.map fun (reason, _) => .payload reason))
  | _ => none

/-- The stored form of faults. -/
def codec : Codec FormatError := ⟨encode, .variants case?⟩

end FormatError

namespace Record

/-- The magic number. -/
def magic : Vector UInt8 4 := #v[0x49, 0x4c, 0x43, 0x43]

/-- The version of the format. -/
def version : UInt16 := 2

/-- The length of the header. -/
def headerLength : Nat := 38

/-- The payload of an extraction result: its JSON text. -/
def payload (e : Extraction) : Bytes := Bytes.ofString (Extraction.codec.render e)

/-- A record from its parts. -/
def assemble (magic : Bytes) (version : UInt16) (checksum payload : Bytes) : Bytes :=
  magic ++ Bytes.ofWord version ++ checksum ++ payload

/-- The record of an extraction result. There is one for every result: all strings, numbers and
lists in it can be written as JSON, however deep the text nests and whatever the bits of a float are,
so writing has no fault to report. -/
def encode (e : Extraction) : Bytes :=
  assemble magic.toList version (Blake3.hash (payload e)) (payload e)

/-- Reads the payload of a record. -/
def decodePayload (bytes : Bytes) : Except FormatError Extraction :=
  match Extraction.codec.parse (.ofBytes bytes) with
  | .ok e => .ok e
  | .error why => .error (.payload why.message)

/-- Checks the parts of a record that is long enough to have them. -/
def decodeParts (found : Vector UInt8 4) (low high : UInt8) (rest : Bytes) :
    Except FormatError Extraction :=
  if found ≠ magic then .error (.badMagic found)
  else if Bytes.word low high ≠ version then
    .error (.unsupportedVersion (Bytes.word low high) version)
  else if rest.take 32 ≠ Blake3.hash (rest.drop 32) then .error .checksumMismatch
  else decodePayload (rest.drop 32)

/-- The extraction result in a record. -/
def decode (record : Bytes) : Except FormatError Extraction :=
  if h : record.length < headerLength then
    .error (.truncated (UInt64.ofNat record.length) (UInt64.ofNat headerLength))
  else
    have hlength : 38 ≤ record.length := Nat.le_of_not_lt h
    decodeParts ⟨(record.take 4).toArray, by simp; omega⟩ record[4] record[5] (record.drop 6)

end Record

end MethodContracts
