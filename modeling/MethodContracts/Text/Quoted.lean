import MethodContracts.Text.Unprintable

/-!
# Quoted text

How a string constant is shown in a rendered condition: between double quotes, with the
quote and the backslash escaped, the four common controls by letter, and every other
control or unprintable character by its code point, `\u{7f}`. Everything else, the
apostrophe included, is shown as it is.
-/

namespace MethodContracts.Text

/-- A code point in lowercase hexadecimal, without padding, between braces. -/
def codePoint (c : Char) : List Char :=
  ['\\', 'u', '\x7b'] ++ Nat.toDigits 16 c.toNat ++ ['\x7d']

/-- A character inside quotes. -/
def quotedChar (c : Char) : List Char :=
  if c = '"' then ['\\', '"']
  else if c = '\\' then ['\\', '\\']
  else if c = '\n' then ['\\', 'n']
  else if c = '\r' then ['\\', 'r']
  else if c = '\t' then ['\\', 't']
  else if c.toNat = 0 then ['\\', '0']
  else if c.toNat < 0x20 ∨ c.toNat = 0x7f then codePoint c
  else if 0x80 ≤ c.toNat ∧ isUnprintable c then codePoint c
  else [c]

/-- The text between double quotes. -/
def quoted (text : String) : String :=
  String.ofList ('"' :: text.toList.flatMap quotedChar ++ ['"'])

end MethodContracts.Text
