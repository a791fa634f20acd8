import MethodContracts.Bytes

/-!
# Characters behind bytes

A stored text is a sequence of bytes and may be damaged. Reading it as UTF-8 gives a sequence
in which every well-formed character is present and every byte that belongs to none leaves
a hole, so that a fault stays in its place and does not spoil what comes before it.
-/

namespace MethodContracts.Text

/-- A sequence of characters with holes where bytes form no character. -/
abbrev Source := List (Option Char)

namespace Source

/-- A Unicode text has no holes. -/
def ofString (text : String) : Source := text.toList.map some

/-- The character at the front of a byte sequence; it takes at most four bytes. -/
def firstChar? (bytes : Bytes) : Option Char :=
  (ByteArray.mk (bytes.take 4).toArray).utf8DecodeChar? 0

/-- The characters of a byte sequence. A byte that starts no character is skipped alone. -/
def ofBytes : Bytes → Source
  | [] => []
  | b :: rest =>
    match firstChar? (b :: rest) with
    | some c => some c :: ofBytes (rest.drop (c.utf8Size - 1))
    | none => none :: ofBytes rest
termination_by bytes => bytes.length

end Source

end MethodContracts.Text
