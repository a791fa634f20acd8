import MethodContracts.Json.Basic
import MethodContracts.Text.Utf8

/-!
# Reading JSON

Reading turns a text into a tree and never fails: where the text stops being JSON the tree
ends with `cut`. The grammar is the strict one. There are four blank characters, no comments,
no trailing commas, no leading zeros or plus signs, and no raw controls inside strings.

Each reading function answers with what it read and with the rest of the text; there is
no rest when the text broke off inside.
-/

namespace MethodContracts.Json

open MethodContracts.Text

/-- The four characters that may stand between the parts of a text. -/
def isSpace (c : Char) : Bool := c = ' ' || c = '\n' || c = '\t' || c = '\r'

/-- The text from its first character that is not blank. -/
def skipSpace : Source → Source
  | some c :: rest => if isSpace c then skipSpace rest else some c :: rest
  | source => source

/-! ## Strings -/

/-- A part of a string: a character as it stands, or a 16-bit unit given by its number. -/
inductive Piece where
  | char (c : Option Char)
  | unit (u : Nat)
deriving DecidableEq, Repr

/-- The number that four hexadecimal digits spell. -/
def hexQuad? (a b c d : Option Char) : Option Nat := do
  let a ← Bytes.hexValue? (← a)
  let b ← Bytes.hexValue? (← b)
  let c ← Bytes.hexValue? (← c)
  let d ← Bytes.hexValue? (← d)
  return 4096 * a + 256 * b + 16 * c + d

/-- The character that a backslash and a letter stand for. -/
def escaped? (c : Char) : Option Char :=
  if c = '"' ∨ c = '\\' ∨ c = '/' then some c
  else if c = 'b' then some (Char.ofNat 0x8)
  else if c = 'f' then some (Char.ofNat 0xc)
  else if c = 'n' then some '\n'
  else if c = 'r' then some '\r'
  else if c = 't' then some '\t'
  else none

/-- The pieces of a string up to its closing quote, and the text after it. -/
def pieces : Source → Option (List Piece × Source)
  | some '"' :: rest => some ([], rest)
  | some '\\' :: some 'u' :: a :: b :: c :: d :: rest => do
    let u ← hexQuad? a b c d
    let (more, rest) ← pieces rest
    return (.unit u :: more, rest)
  | some '\\' :: some e :: rest => do
    let c ← escaped? e
    let (more, rest) ← pieces rest
    return (.char c :: more, rest)
  | some '\\' :: _ => none
  | some c :: rest => do
    if c.toNat < 0x20 then none
    let (more, rest) ← pieces rest
    return (.char c :: more, rest)
  | none :: rest => do
    let (more, rest) ← pieces rest
    return (.char none :: more, rest)
  | [] => none

/-- Units that start a surrogate pair. -/
def isHighUnit (u : Nat) : Bool := 0xd800 ≤ u && u < 0xdc00

/-- Units that end a surrogate pair. -/
def isLowUnit (u : Nat) : Bool := 0xdc00 ≤ u && u < 0xe000

/-- The characters of a string, if it is Unicode text: no holes, and surrogate units only in
pairs. `high` is a unit that waits for its other half. -/
def pieceChars? (high : Option Nat) : List Piece → Option (List Char)
  | [] => if high.isNone then some [] else none
  | .char c :: rest => do
    if high.isSome then none
    let more ← pieceChars? none rest
    return (← c) :: more
  | .unit u :: rest =>
    match high with
    | some h => do
      if !isLowUnit u then none
      let more ← pieceChars? none rest
      return Char.ofNat (0x10000 + 0x400 * (h - 0xd800) + (u - 0xdc00)) :: more
    | none =>
      if isHighUnit u then pieceChars? (some u) rest
      else if isLowUnit u then none
      else do
        let more ← pieceChars? none rest
        return Char.ofNat u :: more

/-- The text of a string after its opening quote, and the rest after its closing quote. -/
def stringText? (source : Source) : Option (Option String × Source) :=
  (pieces source).map fun (found, rest) => ((pieceChars? none found).map String.ofList, rest)

/-! ## Numbers and names -/

/-- The decimal digits at the front of a text. -/
def spanDigits : Source → List Char × Source
  | some c :: rest =>
    if c.isDigit then
      let (digits, rest) := spanDigits rest
      (c :: digits, rest)
    else ([], some c :: rest)
  | source => ([], source)

/-- An optional mark followed by at least one digit; without the mark nothing is taken. -/
def fraction? : Source → Option (List Char × Source)
  | some '.' :: rest =>
    match spanDigits rest with
    | ([], _) => none
    | (digits, rest) => some ('.' :: digits, rest)
  | source => some ([], source)

/-- The sign of an exponent, if there is one. -/
def exponentSign : Source → List Char × Source
  | some '+' :: rest => (['+'], rest)
  | some '-' :: rest => (['-'], rest)
  | source => ([], source)

/-- An exponent with at least one digit; without the letter nothing is taken. -/
def exponent? : Source → Option (List Char × Source)
  | some c :: rest =>
    if c = 'e' ∨ c = 'E' then
      let (sign, rest) := exponentSign rest
      match spanDigits rest with
      | ([], _) => none
      | (digits, rest) => some (c :: sign ++ digits, rest)
    else some ([], some c :: rest)
  | source => some ([], source)

/-- The whole part of a number: a single zero, or digits that do not start with one. -/
def whole? (source : Source) : Option (List Char × Source) :=
  match spanDigits source with
  | ([], _) => none
  | ('0' :: _ :: _, _) => none
  | (digits, rest) => some (digits, rest)

/-- The sign of a number. -/
def numberSign : Source → Bool × Source
  | some '-' :: rest => (true, rest)
  | source => (false, source)

/-- A number. Only digits with an optional minus sign make an integer, and negative zero
is none. -/
def number? (source : Source) : Option (Json × Source) := do
  let (negative, rest) := numberSign source
  let (whole, rest) ← whole? rest
  let (frac, rest) ← fraction? rest
  let (expo, rest) ← exponent? rest
  let n := Nat.ofDigitChars 10 whole 0
  let sign := if negative then ['-'] else []
  if frac = [] ∧ expo = [] ∧ ¬(negative = true ∧ n = 0) then
    return (.int (if negative then -(n : Int) else n), rest)
  else
    return (.real (String.ofList (sign ++ whole ++ frac ++ expo)), rest)

/-- The text after the given characters, if it starts with them. -/
def after? : List Char → Source → Option Source
  | [], source => some source
  | c :: cs, some d :: source => if c = d then after? cs source else none
  | _ :: _, _ => none

/-- A value without parts. -/
def scalar? : Source → Option (Json × Source)
  | some '"' :: rest => (stringText? rest).map fun (text, rest) => (.str text, rest)
  | some 'n' :: rest => (after? ['u', 'l', 'l'] rest).map (.null, ·)
  | some 't' :: rest => (after? ['r', 'u', 'e'] rest).map (.bool true, ·)
  | some 'f' :: rest => (after? ['a', 'l', 's', 'e'] rest).map (.bool false, ·)
  | source => number? source

/-- A value without parts, or the place where the text breaks off. -/
def scalar (source : Source) : Json × Option Source :=
  match scalar? source with
  | some (json, rest) => (json, some rest)
  | none => (.cut, none)

/-! ## Values -/

mutual

/-- One value. The number bounds how often the functions of this block call each other. -/
def value : Nat → Source → Json × Option Source
  | 0, _ => (.cut, none)
  | fuel + 1, source =>
    match skipSpace source with
    | some '[' :: rest =>
      match skipSpace rest with
      | some ']' :: rest => (.arr [], some rest)
      | rest =>
        let (items, rest) := itemsFrom fuel rest
        (.arr items, rest)
    | some '\x7b' :: rest =>
      match skipSpace rest with
      | some '\x7d' :: rest => (.obj [], some rest)
      | rest =>
        let (members, rest) := membersFrom fuel rest
        (.obj members, rest)
    | source => scalar source

/-- The items of an array from one of them on, up to the closing bracket. -/
def itemsFrom : Nat → Source → List Json × Option Source
  | 0, _ => ([.cut], none)
  | fuel + 1, source =>
    match value fuel source with
    | (item, none) => ([item], none)
    | (item, some rest) =>
      match skipSpace rest with
      | some ',' :: rest =>
        let (more, rest) := itemsFrom fuel rest
        (item :: more, rest)
      | some ']' :: rest => ([item], some rest)
      | _ => ([item, .cut], none)

/-- The members of an object from one of them on, up to the closing bracket. -/
def membersFrom : Nat → Source → List (Option String × Json) × Option Source
  | 0, _ => ([(none, .cut)], none)
  | fuel + 1, source =>
    match skipSpace source with
    | some '"' :: rest =>
      match stringText? rest with
      | none => ([(none, .cut)], none)
      | some (key, rest) =>
        match skipSpace rest with
        | some ':' :: rest =>
          match value fuel rest with
          | (item, none) => ([(key, item)], none)
          | (item, some rest) =>
            match skipSpace rest with
            | some ',' :: rest =>
              let (more, rest) := membersFrom fuel rest
              ((key, item) :: more, rest)
            | some '\x7d' :: rest => ([(key, item)], some rest)
            | _ => ([(key, item), (none, .cut)], none)
        | _ => ([(key, .cut)], none)
    | _ => ([(none, .cut)], none)

end

/-- A text as a tree, with the fact whether it ends after the tree. -/
structure Document where
  tree : Json
  /-- nothing but blanks follows the tree -/
  ends : Bool

/-- Reads a whole text. Every two calls of the reading functions take at least one
character, so twice the length of the text bounds them. -/
def read (source : Source) : Document :=
  let (tree, rest) := value (2 * source.length + 2) source
  ⟨tree, rest.any fun rest => (skipSpace rest).isEmpty⟩

end MethodContracts.Json
