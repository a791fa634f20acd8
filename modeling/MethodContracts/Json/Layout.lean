import MethodContracts.Json.Decoder

/-!
# Record layouts

A record is written as an object with its fields in a fixed order. It is read from an object
whose members may come in any order, where unknown members are skipped and repeated ones
are a fault, or from an array of its fields in that order.

A layout lists the fields of a record. A field knows its name, how its value is written,
whether it is left out, how its value is read, and which value it has where it is
missing.
-/

namespace MethodContracts

/-- A field of a record. -/
structure Field (α : Type) where
  name : String
  /-- what is written; some values are left out -/
  write : α → Option Json
  read : Decoder α
  /-- the value when an object has no such member -/
  missing : Option α
  /-- the value when an array ends before the field -/
  beyond : Option α

namespace Field

variable {α : Type}

/-- A field that is always there. -/
def required (name : String) (codec : Codec α) : Field α :=
  ⟨name, fun a => some (codec.write a), codec.read, none, none⟩

/-- A field that is written as `null` when it has no value, and has none when it is missing
in an object. -/
def nullable (name : String) (codec : Codec α) : Field (Option α) :=
  ⟨name, fun a => some (Json.nullable codec.write a), codec.read.nullable, some none, none⟩

/-- A field that is left out when it has no value. -/
def optional (name : String) (codec : Codec α) : Field (Option α) :=
  ⟨name, Option.map codec.write, codec.read.nullable, some none, some none⟩

/-- A field that is always written, and has a value of its own when it is missing. -/
def defaulted (name : String) (codec : Codec α) (value : α) : Field α :=
  ⟨name, fun a => some (codec.write a), codec.read, some value, some value⟩

/-- As `defaulted`, for a field whose value may be `null`. -/
def nullableDefaulted (name : String) (codec : Codec α) (value : Option α) :
    Field (Option α) :=
  ⟨name, fun a => some (Json.nullable codec.write a), codec.read.nullable, some value,
    some value⟩

end Field

/-- The fields of a record, in order. -/
inductive Layout : List Type → Type 1 where
  | nil : Layout []
  | cons {α : Type} {αs : List Type} (field : Field α) (rest : Layout αs) : Layout (α :: αs)

/-- One value per field. -/
@[reducible] def Values : List Type → Type
  | [] => Unit
  | α :: αs => α × Values αs

/-- The fields that were found so far. -/
@[reducible] def Slots : List Type → Type
  | [] => Unit
  | α :: αs => Option α × Slots αs

namespace Layout

/-- The members that are written for the values of a record. -/
def members {αs : List Type} : Layout αs → Values αs → List (String × Json)
  | .nil, _ => []
  | .cons field rest, (a, values) =>
    match field.write a with
    | some json => (field.name, json) :: rest.members values
    | none => rest.members values

/-- Writes the values of a record as an object. -/
def write {αs : List Type} (layout : Layout αs) (values : Values αs) : Json :=
  .record (layout.members values)

/-- No field found yet. -/
def blank {αs : List Type} : Layout αs → Slots αs
  | .nil => ()
  | .cons _ rest => (none, rest.blank)

/-- Reads the value of the field with the given name; there is no answer when the record
has no such field, and a field that was found before is a fault. -/
def put {αs : List Type} (scope : Scope) (key : String) (json : Json) :
    Layout αs → Slots αs → Option (Except ReadError (Slots αs))
  | .nil, _ => none
  | .cons field rest, (slot, slots) =>
    if field.name = key then
      match slot with
      | some _ => some (.error .shape)
      | none => some ((field.read scope json).map fun a => (some a, slots))
    else
      (rest.put scope key json slots).map (·.map fun slots => (slot, slots))

/-- Goes through the members of an object. Of an unknown member only its being JSON
matters. -/
def fill {αs : List Type} (scope : Scope) (layout : Layout αs) (slots : Slots αs) :
    List (Option String × Json) → Except ReadError (Slots αs)
  | [] => .ok slots
  | (none, _) :: _ => .error .shape
  | (some key, json) :: rest =>
    match layout.put scope key json slots with
    | some (.ok slots) => layout.fill scope slots rest
    | some (.error e) => .error e
    | none => if json.complete then layout.fill scope slots rest else .error .shape

/-- The values of a record whose members have all been seen. -/
def close {αs : List Type} : Layout αs → Slots αs → Except ReadError (Values αs)
  | .nil, _ => .ok ()
  | .cons field rest, (slot, slots) =>
    match slot <|> field.missing with
    | some a => (rest.close slots).map fun values => (a, values)
    | none => .error .shape

/-- The values of a record that is written as an array. -/
def inOrder {αs : List Type} (scope : Scope) : Layout αs → List Json → Except ReadError (Values αs)
  | .nil, [] => .ok ()
  | .nil, _ :: _ => .error .shape
  | .cons field rest, [] =>
    match field.beyond with
    | some a => (rest.inOrder scope []).map fun values => (a, values)
    | none => .error .shape
  | .cons field rest, item :: items =>
    match field.read scope item with
    | .ok a => (rest.inOrder scope items).map fun values => (a, values)
    | .error e => .error e

/-- Reads a record behind its bracket. -/
def readInside {αs : List Type} (layout : Layout αs) (scope : Scope) :
    Json → Except ReadError (Values αs)
  | .obj members =>
    match layout.fill scope layout.blank members with
    | .ok slots => layout.close slots
    | .error e => .error e
  | .arr items => layout.inOrder scope items
  | _ => .error .shape

/-- Reads a record. -/
def read {αs : List Type} (layout : Layout αs) : Decoder (Values αs) := fun scope json =>
  match scope.enter with
  | some inner => layout.readInside inner json
  | none => .error .shape

/-- The layout with one field. -/
def one {α : Type} (f : Field α) : Layout [α] := .cons f .nil

/-- The layout with two fields. -/
def two {α β : Type} (f : Field α) (g : Field β) : Layout [α, β] := .cons f (one g)

/-- The layout with three fields. -/
def three {α β γ : Type} (f : Field α) (g : Field β) (h : Field γ) : Layout [α, β, γ] :=
  .cons f (two g h)

/-- The layout with four fields. -/
def four {α β γ δ : Type} (f : Field α) (g : Field β) (h : Field γ) (i : Field δ) :
    Layout [α, β, γ, δ] := .cons f (three g h i)

end Layout

/-- Values that are written as records: `values` takes a value apart into the fields, and `of`
puts it together again. -/
def Codec.record {α : Type} {αs : List Type} (layout : Layout αs) (values : α → Values αs)
    (of : Values αs → α) : Codec α :=
  ⟨fun a => layout.write (values a), layout.read.map of⟩

end MethodContracts
