import MethodContracts.Expr.Node
import MethodContracts.Json.Layout

/-!
# Expressions in JSON

The stored form of trees and of what their nodes carry. A node is a record of its operation
and its offset; an operation is a variant with the record of its payload and children; a
floating-point constant is written as its bit pattern, so that every bit of it survives.
-/

namespace MethodContracts

/-- Offsets are numbers. -/
def Offset.codec : Codec Offset := Codec.uint32.via Offset.byte Offset.mk

/-- Binary operators are names. -/
def BinaryOperator.codec : Codec BinaryOperator := .named all name

/-- Unary operators are names. -/
def UnaryOperator.codec : Codec UnaryOperator := .named all name

/-- Kinds are names. -/
def Kind.codec : Codec Kind := .named all name

/-! ## Constants, variables, callees -/

namespace Constant

/-- Every constant but `null` is a variant with one value. -/
def encode : Constant → Json
  | .null => .string "Null"
  | .bool b => .variant "Bool" (Codec.bool.write b)
  | .int32 n => .variant "I32" (Codec.int32.write n)
  | .int64 n => .variant "I64" (Codec.int64.write n)
  | .double bits => .variant "F64" (Codec.uint64.write bits)
  | .string s => .variant "String" (Codec.string.write s)

/-- The variants of constants. -/
def case? : String → Option (Decoder.Case Constant)
  | "Null" => some (.unit .null)
  | "Bool" => some (.data (Codec.bool.read.map .bool))
  | "I32" => some (.data (Codec.int32.read.map .int32))
  | "I64" => some (.data (Codec.int64.read.map .int64))
  | "F64" => some (.data (Codec.uint64.read.map .double))
  | "String" => some (.data (Codec.string.read.map .string))
  | _ => none

/-- The stored form of constants. -/
def codec : Codec Constant := ⟨encode, .variants case?⟩

end Constant

namespace Variable

/-- An argument slot, with its name if it has one. -/
def argumentLayout : Layout [UInt16, Option String] :=
  .two (.required "index" .uint16) (.optional "name" .string)

/-- A local slot. -/
def localLayout : Layout [UInt16] := .one (.required "index" .uint16)

/-- The receiver is a name, slots are variants. -/
def encode : Variable → Json
  | .this => .string "This"
  | .argument index name => .variant "Argument" (argumentLayout.write (index, name, ()))
  | .localSlot index => .variant "Local" (localLayout.write (index, ()))

/-- The variants of variables. -/
def case? : String → Option (Decoder.Case Variable)
  | "This" => some (.unit .this)
  | "Argument" =>
    some (.body (argumentLayout.read.map fun (index, name, _) => .argument index name))
  | "Local" => some (.body (localLayout.read.map fun (index, _) => .localSlot index))
  | _ => none

/-- The stored form of variables. -/
def codec : Codec Variable := ⟨encode, .variants case?⟩

end Variable

namespace Callee

/-- The two names of a callee. -/
def layout : Layout [String, String] :=
  .two (.required "declaring_type" .string) (.required "name" .string)

/-- The stored form of callees. -/
def codec : Codec Callee :=
  .record layout (fun c => (c.declaringType, c.name, ()))
    (fun (declaringType, name, _) => ⟨declaringType, name⟩)

end Callee

/-! ## Operations -/

namespace Op

variable {α : Type}

/-- The record of a literal. -/
def literalLayout : Layout [Constant] := .one (.required "value" Constant.codec)

/-- The record of a variable reference. -/
def refLayout : Layout [Variable] := .one (.required "var" Variable.codec)

/-- The record of a field read. -/
def fieldLayout (child : Codec α) : Layout [Option α, String, String] :=
  .three (.nullable "target" child) (.required "declaring_type" .string)
    (.required "field" .string)

/-- The record of a binary operation. -/
def binaryLayout (child : Codec α) : Layout [BinaryOperator, α, α] :=
  .three (.required "op" BinaryOperator.codec) (.required "lhs" child) (.required "rhs" child)

/-- The record of a unary operation. -/
def unaryLayout (child : Codec α) : Layout [UnaryOperator, α] :=
  .two (.required "op" UnaryOperator.codec) (.required "operand" child)

/-- The record of a call. -/
def callLayout (child : Codec α) : Layout [Callee, List α] :=
  .two (.required "callee" Callee.codec) (.required "args" child.list)

/-- The record of an object creation. -/
def newObjectLayout (child : Codec α) : Layout [Callee, List α] :=
  .two (.required "ctor" Callee.codec) (.required "args" child.list)

/-- The record of a block. -/
def blockLayout (child : Codec α) : Layout [List α] := .one (.required "stmts" child.list)

/-- The record of a conditional. -/
def conditionalLayout (child : Codec α) : Layout [α, α, Option α] :=
  .three (.required "test" child) (.required "then_branch" child)
    (.nullable "else_branch" child)

/-- The record of a throw. -/
def throwLayout (child : Codec α) : Layout [Option α] := .one (.nullable "exception" child)

/-- The record of a return. -/
def retLayout (child : Codec α) : Layout [Option α] := .one (.nullable "value" child)

/-- The record of an unrecognized instruction. -/
def unrecognizedLayout (child : Codec α) : Layout [String, List α] :=
  .two (.required "opcode" .string) (.required "children" child.list)

/-- Writes an operation, given how its children are written. -/
def encode (child : Codec α) : Op α → Json
  | .literal value => .variant "Literal" (literalLayout.write (value, ()))
  | .ref v => .variant "VariableRef" (refLayout.write (v, ()))
  | .field target owner name =>
    .variant "FieldRef" ((fieldLayout child).write (target, owner, name, ()))
  | .binary op lhs rhs => .variant "BinaryOp" ((binaryLayout child).write (op, lhs, rhs, ()))
  | .unary op operand => .variant "UnaryOp" ((unaryLayout child).write (op, operand, ()))
  | .call callee args => .variant "Call" ((callLayout child).write (callee, args, ()))
  | .newObject callee args =>
    .variant "NewObject" ((newObjectLayout child).write (callee, args, ()))
  | .stackDuplicate => .string "StackDuplicate"
  | .block stmts => .variant "Block" ((blockLayout child).write (stmts, ()))
  | .conditional test thenBranch elseBranch =>
    .variant "Conditional" ((conditionalLayout child).write (test, thenBranch, elseBranch, ()))
  | .throw exception => .variant "Throw" ((throwLayout child).write (exception, ()))
  | .ret value => .variant "Return" ((retLayout child).write (value, ()))
  | .unrecognized opcode children =>
    .variant "Unrecognized" ((unrecognizedLayout child).write (opcode, children, ()))

/-- The variants of operations, given how their children are read. -/
def case? (child : Codec α) : String → Option (Decoder.Case (Op α))
  | "Literal" => some (.body (literalLayout.read.map fun (value, _) => .literal value))
  | "VariableRef" => some (.body (refLayout.read.map fun (v, _) => .ref v))
  | "FieldRef" =>
    some (.body ((fieldLayout child).read.map fun (target, owner, name, _) =>
      .field target owner name))
  | "BinaryOp" =>
    some (.body ((binaryLayout child).read.map fun (op, lhs, rhs, _) => .binary op lhs rhs))
  | "UnaryOp" =>
    some (.body ((unaryLayout child).read.map fun (op, operand, _) => .unary op operand))
  | "Call" =>
    some (.body ((callLayout child).read.map fun (callee, args, _) => .call callee args))
  | "NewObject" =>
    some (.body ((newObjectLayout child).read.map fun (callee, args, _) =>
      .newObject callee args))
  | "StackDuplicate" => some (.unit .stackDuplicate)
  | "Block" => some (.body ((blockLayout child).read.map fun (stmts, _) => .block stmts))
  | "Conditional" =>
    some (.body ((conditionalLayout child).read.map fun (test, thenBranch, elseBranch, _) =>
      .conditional test thenBranch elseBranch))
  | "Throw" => some (.body ((throwLayout child).read.map fun (exception, _) => .throw exception))
  | "Return" => some (.body ((retLayout child).read.map fun (value, _) => .ret value))
  | "Unrecognized" =>
    some (.body ((unrecognizedLayout child).read.map fun (opcode, children, _) =>
      .unrecognized opcode children))
  | _ => none

/-- The stored form of operations over children with a stored form. -/
def codec (child : Codec α) : Codec (Op α) := ⟨encode child, .variants (case? child)⟩

end Op

/-! ## Nodes -/

namespace Node

/-- The record of a node, over children with a stored form. -/
def layout {α : Type} (child : Codec α) : Layout [Op α, Option Offset] :=
  .two (.required "op" (Op.codec child)) (.optional "offset" Offset.codec)

/-- Writes a tree. -/
def encode (n : Node) : Json := n.fold fun n below => (layout .tree).write (below, n.offset, ())

/-- The codec of trees of at most the given height. -/
def codecWithin : Nat → Codec Node
  | 0 => ⟨encode, fun _ _ => .error .shape⟩
  | height + 1 =>
    ⟨encode, (layout (codecWithin height)).read.map fun (op, offset, _) => ⟨op, offset⟩⟩

/-- The stored form of trees. Every node has a bracket of its own, so a tree is no higher than
the brackets of its stored form are deep. -/
def codec : Codec Node := ⟨encode, fun scope json => (codecWithin json.depth).read scope json⟩

end Node

/-- The stored form of operations over trees. -/
def Op.nodeCodec : Codec (Op Node) := Op.codec Node.codec

end MethodContracts
