import MethodContracts.Json.Basic

/-!
# JSON text

The compact text of a tree: no blanks, members in order. Inside a string only the quote, the
backslash and the controls below `0x20` are escaped; every other character is written as
it is.
-/

namespace MethodContracts.Json

/-- A control character by its number, `\u00` and two hexadecimal digits. -/
def controlEscape (c : Char) : List Char :=
  ['\\', 'u', '0', '0', Nat.digitChar (c.toNat / 16), Nat.digitChar (c.toNat % 16)]

/-- A character inside a JSON string. -/
def escapeChar (c : Char) : List Char :=
  if c = '"' then ['\\', '"']
  else if c = '\\' then ['\\', '\\']
  else if c.toNat = 0x8 then ['\\', 'b']
  else if c = '\t' then ['\\', 't']
  else if c = '\n' then ['\\', 'n']
  else if c.toNat = 0xc then ['\\', 'f']
  else if c = '\r' then ['\\', 'r']
  else if c.toNat < 0x20 then controlEscape c
  else [c]

/-- A JSON string. -/
def stringChars (text : String) : List Char :=
  '"' :: text.toList.flatMap escapeChar ++ ['"']

/-- A string that is no Unicode text is written as half of a surrogate pair. -/
def textChars : Option String → List Char
  | some text => stringChars text
  | none => ['"', '\\', 'u', 'd', '8', '0', '0', '"']

mutual

/-- The characters of a tree. What is cut off is written as nothing. -/
def chars : Json → List Char
  | .null => ['n', 'u', 'l', 'l']
  | .bool true => ['t', 'r', 'u', 'e']
  | .bool false => ['f', 'a', 'l', 's', 'e']
  | .int n => (toString n).toList
  | .real spelling => spelling.toList
  | .str text => textChars text
  | .arr items => '[' :: itemChars items ++ [']']
  | .obj members => '\x7b' :: memberChars members ++ ['\x7d']
  | .cut => []

/-- Items with commas between them. -/
def itemChars : List Json → List Char
  | [] => []
  | [item] => item.chars
  | item :: rest => item.chars ++ ',' :: itemChars rest

/-- Members with commas between them. -/
def memberChars : List (Option String × Json) → List Char
  | [] => []
  | [(key, value)] => textChars key ++ ':' :: value.chars
  | (key, value) :: rest => textChars key ++ ':' :: value.chars ++ ',' :: memberChars rest

end

/-- The compact text of a tree. -/
def render (json : Json) : String := String.ofList json.chars

end MethodContracts.Json
