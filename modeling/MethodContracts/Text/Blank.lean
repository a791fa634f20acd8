/-!
# Blank characters

The characters that count as white space at the ends of a setting: the Unicode property
`White_Space`, written out. `trim` removes them from both ends, and a text is blank when
nothing else is in it.
-/

namespace MethodContracts.Text

/-- The Unicode property `White_Space`. The zero-width space, the Mongolian vowel
separator, the byte-order mark and the controls `0x1c` to `0x1f` do not have it. -/
def isBlank (c : Char) : Bool :=
  let n := c.toNat
  (0x9 ≤ n && n ≤ 0xd) || n = 0x20 || n = 0x85 || n = 0xa0 || n = 0x1680 ||
    (0x2000 ≤ n && n ≤ 0x200a) || n = 0x2028 || n = 0x2029 || n = 0x202f ||
    n = 0x205f || n = 0x3000

/-- The text without the blank characters at its two ends. -/
def trim (text : String) : String :=
  let front := text.toList.dropWhile isBlank
  String.ofList ((front.reverse.dropWhile isBlank).reverse)

/-- Nothing but blank characters. -/
def isAllBlank (text : String) : Bool := text.toList.all isBlank

end MethodContracts.Text
