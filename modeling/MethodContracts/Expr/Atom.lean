import MethodContracts.Bytes
import MethodContracts.Number.Double
import MethodContracts.Text.Quoted

/-!
# Atoms of expressions

What expression nodes carry besides their children: instruction offsets, constants, variable
references and the identity of called members.

A floating-point constant is kept as its bit pattern, so that constants are equal when their
bits are: a constant that is not a number equals itself, and the two zeros differ.
-/

namespace MethodContracts

/-- Byte offset of an instruction in the code of its method. -/
structure Offset where
  byte : UInt32
deriving DecidableEq, Repr

/-- An offset as it is shown: `IL_001c`. -/
def Offset.display (o : Offset) : String := "IL_" ++ paddedHex 4 o.byte.toNat

/-- Offsets are ordered like their numbers. -/
def Offset.compare (a b : Offset) : Ordering := Ord.compare a.byte b.byte

/-- A constant operand. -/
inductive Constant where
  | null
  | bool (value : Bool)
  | int32 (value : Int32)
  | int64 (value : Int64)
  /-- a double-precision number, by its bit pattern -/
  | double (bits : UInt64)
  | string (value : String)
deriving DecidableEq, Repr

/-- A constant in a rendered expression. Long integers are marked with `L`. -/
def Constant.display : Constant → String
  | .null => "null"
  | .bool true => "true"
  | .bool false => "false"
  | .int32 v => toString v.toInt
  | .int64 v => toString v.toInt ++ "L"
  | .double bits => (Number.Double.ofBits bits).text
  | .string s => Text.quoted s

/-- The receiver, an argument slot or a local slot. An argument may come with its name. -/
inductive Variable where
  | this
  | argument (index : UInt16) (name : Option String)
  | localSlot (index : UInt16)
deriving DecidableEq, Repr

/-- A variable in a rendered expression: by name where there is one, else by slot. -/
def Variable.display : Variable → String
  | .this => "this"
  | .argument _ (some name) => name
  | .argument index none => "arg" ++ toString index.toNat
  | .localSlot index => "loc" ++ toString index.toNat

/-- A called member: the full name of its declaring type and its own name. -/
structure Callee where
  declaringType : String
  name : String
deriving DecidableEq, Repr, Hashable

namespace Callee

/-- The declaring type without its namespace: what follows the last dot. -/
def shortType (c : Callee) : String :=
  String.ofList ((c.declaringType.toList.reverse.takeWhile (· ≠ '.')).reverse)

/-- Both names, `Type::member`. -/
def display (c : Callee) : String := c.declaringType ++ "::" ++ c.name

/-- Callees are ordered by declaring type and then by name, both by their bytes. -/
def compare (a b : Callee) : Ordering :=
  (Ord.compare a.declaringType b.declaringType).then (Ord.compare a.name b.name)

end Callee

end MethodContracts
