import MethodContracts.Contract.Fingerprint
import MethodContracts.Expr.Node

/-!
# Method bodies

A decoded method: its signature, the fingerprint of its code and its body, a tree whose root
is a block. The statements of that block are the top-level statements of the method.
-/

namespace MethodContracts

/-- A formal parameter. -/
structure Parameter where
  name : String
  typeName : String
deriving DecidableEq, Repr

/-- The signature of a method. -/
structure Signature where
  name : String
  parameters : List Parameter
  returnType : String
deriving DecidableEq, Repr

/-- A signature as it is shown: `void Withdraw(int amount)`. -/
def Signature.display (s : Signature) : String :=
  s.returnType ++ " " ++ s.name ++ "(" ++
    ", ".intercalate (s.parameters.map fun p => p.typeName ++ " " ++ p.name) ++ ")"

/-- A method with its body, given by the statements and the offset of the root block. -/
structure Method where
  declaringType : String
  signature : Signature
  fingerprint : Fingerprint
  statements : List Node
  rootOffset : Option Offset
deriving DecidableEq

namespace Method

/-- The root of the body. -/
def root (m : Method) : Node := ⟨.block m.statements, m.rootOffset⟩

/-- A method from the root of its body, which has to be a block. -/
def ofRoot (declaringType : String) (signature : Signature) (fingerprint : Fingerprint)
    (root : Node) : Except ModelError Method :=
  match root.op with
  | .block statements => .ok ⟨declaringType, signature, fingerprint, statements, root.offset⟩
  | op => .error (.invalidBody ("root must be a Block, found " ++ op.kind.name))

/-- The name of the method with that of its type, `Type::method`. -/
def qualifiedName (m : Method) : String := m.declaringType ++ "::" ++ m.signature.name

end Method

end MethodContracts
