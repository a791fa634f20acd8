import MethodContracts.Error
import MethodContracts.Json.Basic

/-!
# Interpreting JSON trees

A decoder turns a tree into a value. It works through the tree from left to right and stops
at the first fault, so the fault that is reported is the first one in the text.

A tree comes from a text or is at hand as such, and that makes two differences. In a text only
127 brackets may be open at once, not counting those in parts that are skipped; and in a text
the record behind a variant may be written as an array, while in a tree at hand it has to be
an object.
-/

namespace MethodContracts

/-- Why a text or a tree was not accepted. -/
inductive ReadError where
  /-- the text is no JSON, or the tree has not the shape of the value -/
  | shape
  /-- the value has the right shape but breaks a rule of the model -/
  | rejected (why : ModelError)
deriving DecidableEq, Repr

/-- The text of a fault. The wording of faults in shape is not fixed and stands as
`<json>`. A reader of texts appends the line and the column to the text of a clause that is
refused; that is left out here. -/
def ReadError.message : ReadError → String
  | .shape => "<json>"
  | .rejected why => why.message

/-- Where a tree comes from. -/
inductive Scope where
  /-- a text, in which so many brackets may still be opened -/
  | text (left : Nat)
  /-- a tree that is at hand as such -/
  | tree
deriving DecidableEq, Repr

namespace Scope

/-- A whole text. -/
def wholeText : Scope := .text 127

/-- The scope behind one more bracket, unless that is one too many. -/
def enter : Scope → Option Scope
  | text 0 => none
  | text (left + 1) => some (text left)
  | tree => some tree

/-- The record behind a variant may be written in this form. -/
def allowsBody : Scope → Json → Bool
  | tree, .arr _ => false
  | _, _ => true

end Scope

/-- Interprets trees. -/
abbrev Decoder (α : Type) := Scope → Json → Except ReadError α

namespace Decoder

variable {α β : Type}

/-- Changes the value that is read. -/
def map (f : α → β) (decode : Decoder α) : Decoder β := fun scope json =>
  (decode scope json).map f

/-- A rule that the value has to satisfy to have the right shape. -/
def guarded (f : α → Option β) (decode : Decoder α) : Decoder β := fun scope json =>
  match decode scope json with
  | .ok a =>
    match f a with
    | some b => .ok b
    | none => .error .shape
  | .error e => .error e

/-- A truth value. -/
def bool : Decoder Bool
  | _, .bool b => .ok b
  | _, _ => .error .shape

/-- A string. -/
def string : Decoder String
  | _, .str (some s) => .ok s
  | _, _ => .error .shape

/-- An integer from `low` to `high`. -/
def intIn (low high : Int) : Decoder Int
  | _, .int n => if low ≤ n ∧ n ≤ high then .ok n else .error .shape
  | _, _ => .error .shape

/-- A byte. -/
def uint8 : Decoder UInt8 := (intIn 0 0xff).map fun n => UInt8.ofNat n.toNat

/-- An unsigned integer of 16 bits. -/
def uint16 : Decoder UInt16 := (intIn 0 0xffff).map fun n => UInt16.ofNat n.toNat

/-- An unsigned integer of 32 bits. -/
def uint32 : Decoder UInt32 := (intIn 0 0xffffffff).map fun n => UInt32.ofNat n.toNat

/-- An unsigned integer of 64 bits. -/
def uint64 : Decoder UInt64 := (intIn 0 0xffffffffffffffff).map fun n => UInt64.ofNat n.toNat

/-- A signed integer of 32 bits. -/
def int32 : Decoder Int32 := (intIn (-0x80000000) 0x7fffffff).map Int32.ofInt

/-- A signed integer of 64 bits. -/
def int64 : Decoder Int64 := (intIn (-0x8000000000000000) 0x7fffffffffffffff).map Int64.ofInt

/-- An array of any length. -/
def list (item : Decoder α) : Decoder (List α)
  | scope, .arr items =>
    match scope.enter with
    | some inner => items.mapM (item inner)
    | none => .error .shape
  | _, _ => .error .shape

/-- A value or `null`. -/
def nullable (decode : Decoder α) : Decoder (Option α)
  | _, .null => .ok none
  | scope, json => (decode scope json).map some

/-! ## Variants -/

/-- What a variant carries: nothing, one value, or a record. -/
inductive Case (α : Type) where
  | unit (a : α)
  | data (decode : Decoder α)
  | body (decode : Decoder α)

/-- Reads what stands under the name of a variant. -/
def Case.read : Case α → Decoder α
  | .unit a, _, json => if json matches .null then .ok a else .error .shape
  | .data decode, scope, json => decode scope json
  | .body decode, scope, json =>
    if scope.allowsBody json then decode scope json else .error .shape

/-- One of several variants. A variant is an object whose only key is its name; one that
carries nothing may be its name alone, and has `null` under it otherwise. -/
def variants (case? : String → Option (Case α)) : Decoder α
  | _, .str (some name) =>
    match case? name with
    | some (.unit a) => .ok a
    | _ => .error .shape
  | scope, .obj [(some name, json)] =>
    match scope.enter, case? name with
    | some inner, some found => found.read inner json
    | _, _ => .error .shape
  | _, _ => .error .shape

/-- One of several values that are written by name. -/
def named (all : List α) (name : α → String) : Decoder α :=
  variants fun s => (all.find? fun a => name a = s).map .unit

end Decoder

/-! ## Both directions -/

/-- How values of a type are written and how they are read. -/
structure Codec (α : Type) where
  write : α → Json
  read : Decoder α

namespace Codec

variable {α β : Type}

/-- A tree stands for itself. -/
def tree : Codec Json := ⟨id, fun _ json => .ok json⟩

/-- Truth values. -/
def bool : Codec Bool := ⟨.bool, .bool⟩

/-- Strings. -/
def string : Codec String := ⟨.string, .string⟩

/-- Bytes. -/
def uint8 : Codec UInt8 := ⟨fun n => .nat n.toNat, .uint8⟩

/-- Unsigned integers of 16 bits. -/
def uint16 : Codec UInt16 := ⟨fun n => .nat n.toNat, .uint16⟩

/-- Unsigned integers of 32 bits. -/
def uint32 : Codec UInt32 := ⟨fun n => .nat n.toNat, .uint32⟩

/-- Unsigned integers of 64 bits. -/
def uint64 : Codec UInt64 := ⟨fun n => .nat n.toNat, .uint64⟩

/-- Signed integers of 32 bits. -/
def int32 : Codec Int32 := ⟨fun n => .int n.toInt, .int32⟩

/-- Signed integers of 64 bits. -/
def int64 : Codec Int64 := ⟨fun n => .int n.toInt, .int64⟩

/-- Arrays. -/
def list (item : Codec α) : Codec (List α) :=
  ⟨fun as => .arr (as.map item.write), .list item.read⟩

/-- Values that are written by name. -/
def named (all : List α) (name : α → String) : Codec α :=
  ⟨fun a => .string (name a), .named all name⟩

/-- Values of another type in the same form. -/
def via (inner : β → α) (of : α → β) (codec : Codec α) : Codec β :=
  ⟨fun b => codec.write (inner b), codec.read.map of⟩

/-- Interprets a tree that is at hand. -/
def decode (codec : Codec α) (json : Json) : Except ReadError α := codec.read .tree json

end Codec

end MethodContracts
