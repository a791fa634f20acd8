/-!
# JSON trees

A tree holds what a JSON text says before anything is known about the types in it: objects
keep the order and the repetitions of their members, and numbers that are not integers keep
their spelling.

A tree also records where a text stops being JSON. Reading never fails; it ends the tree with
`cut` at the point where no further reading is possible, and everything before that point is
there. So whoever interprets a tree from left to right meets the faults of a text in the
order in which they stand in it.
-/

namespace MethodContracts

/-- A JSON tree.

The text of a string, and of a key, is absent when the string is written correctly but is
no Unicode text: it holds half of a surrogate pair, or bytes that are not UTF-8. -/
inductive Json where
  | null
  | bool (value : Bool)
  | int (value : Int)
  /-- a number written with a fraction or an exponent, or as negative zero -/
  | real (spelling : String)
  | str (text : Option String)
  | arr (items : List Json)
  | obj (members : List (Option String × Json))
  /-- the text stops being JSON here -/
  | cut
deriving Inhabited, Repr

namespace Json

/-- A string whose text is known. -/
abbrev string (s : String) : Json := .str (some s)

/-- A natural number. -/
abbrev nat (n : Nat) : Json := .int n

/-- An object with known keys. -/
def record (members : List (String × Json)) : Json :=
  .obj (members.map fun (key, value) => (some key, value))

/-- An object with one member, the form of a variant with data. -/
def variant (name : String) (data : Json) : Json := .obj [(some name, data)]

/-- Absence is written as `null`. -/
def nullable (write : α → Json) : Option α → Json
  | none => .null
  | some a => write a

/-! ## Measures -/

mutual

/-- How many brackets are open at the deepest place. -/
def depth : Json → Nat
  | .arr items => depthItems items + 1
  | .obj members => depthMembers members + 1
  | _ => 0

/-- The depth of the deepest item. -/
def depthItems : List Json → Nat
  | [] => 0
  | item :: rest => max item.depth (depthItems rest)

/-- The depth of the deepest member. -/
def depthMembers : List (Option String × Json) → Nat
  | [] => 0
  | (_, value) :: rest => max value.depth (depthMembers rest)

end

mutual

/-- The text behind the tree was JSON to its end. -/
def complete : Json → Bool
  | .arr items => completeItems items
  | .obj members => completeMembers members
  | .cut => false
  | _ => true

/-- Every item is complete. -/
def completeItems : List Json → Bool
  | [] => true
  | item :: rest => item.complete && completeItems rest

/-- Every member is complete. -/
def completeMembers : List (Option String × Json) → Bool
  | [] => true
  | (_, value) :: rest => value.complete && completeMembers rest

end

/-- The value of the first member with the given key. -/
def get? (json : Json) (key : String) : Option Json :=
  match json with
  | .obj members => (members.find? fun (k, _) => k = some key).map (·.2)
  | _ => none

end Json

end MethodContracts
