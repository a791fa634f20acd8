/-!
# Operators

The operators of condition expressions, their symbols, and the one pair of comparisons
that are exact negations of each other.

Only equality can be negated without knowing the operand type. An ordered comparison
cannot: `!(a < b)` differs from `a >= b` when an operand is no number.
-/

namespace MethodContracts

/-- Operators with two operands. -/
inductive BinaryOperator where
  | add | sub | mul | div | rem
  | bitAnd | bitOr | bitXor | shl | shr
  | eq | ne | lt | le | gt | ge
  | logicalAnd | logicalOr
deriving DecidableEq, Repr

/-- Operators with one operand: logical negation, arithmetic negation, complement. -/
inductive UnaryOperator where
  | not | neg | bitNot
deriving DecidableEq, Repr

namespace BinaryOperator

/-- Every binary operator. -/
def all : List BinaryOperator :=
  [add, sub, mul, div, rem, bitAnd, bitOr, bitXor, shl, shr, eq, ne, lt, le, gt, ge,
   logicalAnd, logicalOr]

/-- The symbol in a rendered expression. -/
def symbol : BinaryOperator → String
  | add => "+"
  | sub => "-"
  | mul => "*"
  | div => "/"
  | rem => "%"
  | bitAnd => "&"
  | bitOr => "|"
  | bitXor => "^"
  | shl => "<<"
  | shr => ">>"
  | eq => "=="
  | ne => "!="
  | lt => "<"
  | le => "<="
  | gt => ">"
  | ge => ">="
  | logicalAnd => "&&"
  | logicalOr => "||"

/-- The name in stored data. -/
def name : BinaryOperator → String
  | add => "Add"
  | sub => "Sub"
  | mul => "Mul"
  | div => "Div"
  | rem => "Rem"
  | bitAnd => "BitAnd"
  | bitOr => "BitOr"
  | bitXor => "BitXor"
  | shl => "Shl"
  | shr => "Shr"
  | eq => "Eq"
  | ne => "Ne"
  | lt => "Lt"
  | le => "Le"
  | gt => "Gt"
  | ge => "Ge"
  | logicalAnd => "LogicalAnd"
  | logicalOr => "LogicalOr"

/-- The six relational operators. -/
def isComparison : BinaryOperator → Bool
  | eq | ne | lt | le | gt | ge => true
  | _ => false

/-- The operator whose result is always the logical negation of this one's. -/
def exactNegation? : BinaryOperator → Option BinaryOperator
  | eq => some ne
  | ne => some eq
  | _ => none

end BinaryOperator

namespace UnaryOperator

/-- Every unary operator. -/
def all : List UnaryOperator := [not, neg, bitNot]

/-- The symbol in a rendered expression. -/
def symbol : UnaryOperator → String
  | not => "!"
  | neg => "-"
  | bitNot => "~"

/-- The name in stored data. -/
def name : UnaryOperator → String
  | not => "Not"
  | neg => "Neg"
  | bitNot => "BitNot"

end UnaryOperator

end MethodContracts
