/-!
# Bytes and their hexadecimal text

Fingerprints, stored records and checksums are finite sequences of bytes. This module
gives the sequence type, its hexadecimal text in both directions, the little-endian reading
of a 16-bit word, and the bracketed listing that error messages use.
-/

namespace MethodContracts

/-- A finite sequence of bytes. -/
abbrev Bytes := List UInt8

namespace Bytes

/-- The bytes of a text in UTF-8. -/
def ofString (text : String) : Bytes := text.toByteArray.data.toList

/-- The two bytes of a 16-bit word, low byte first. -/
def ofWord (word : UInt16) : Bytes := [word.toUInt8, (word >>> 8).toUInt8]

/-- The 16-bit word with the given low and high bytes. -/
def word (low high : UInt8) : UInt16 := low.toUInt16 ||| (high.toUInt16 <<< 8)

/-- A list of bytes between brackets, in decimal: `[88, 76]`. -/
def listing (bytes : Bytes) : String :=
  "[" ++ ", ".intercalate (bytes.map fun b => toString b.toNat) ++ "]"

/-! ## Hexadecimal text -/

/-- The two lowercase hexadecimal digits of a byte. -/
def hexDigits (b : UInt8) : List Char :=
  [Nat.digitChar (b.toNat / 16), Nat.digitChar (b.toNat % 16)]

/-- Two lowercase hexadecimal digits per byte. -/
def toHex (bytes : Bytes) : String := String.ofList (bytes.flatMap hexDigits)

/-- The value of one hexadecimal digit of either case. -/
def hexValue? (c : Char) : Option Nat :=
  if '0' ≤ c ∧ c ≤ '9' then some (c.toNat - '0'.toNat)
  else if 'a' ≤ c ∧ c ≤ 'f' then some (c.toNat - 'a'.toNat + 10)
  else if 'A' ≤ c ∧ c ≤ 'F' then some (c.toNat - 'A'.toNat + 10)
  else none

/-- Reads pairs of hexadecimal digits; an odd digit or any other character is refused. -/
def ofHexDigits? : List Char → Option Bytes
  | [] => some []
  | high :: low :: rest => do
    let h ← hexValue? high
    let l ← hexValue? low
    let bytes ← ofHexDigits? rest
    return UInt8.ofNat (16 * h + l) :: bytes
  | _ => none

/-- The bytes that a hexadecimal text stands for. -/
def ofHex? (text : String) : Option Bytes := ofHexDigits? text.toList

end Bytes

/-- Lowercase hexadecimal digits of a number, padded with zeros to at least `width`. -/
def paddedHex (width n : Nat) : String :=
  let digits := Nat.toDigits 16 n
  String.ofList (List.replicate (width - digits.length) '0' ++ digits)

end MethodContracts
