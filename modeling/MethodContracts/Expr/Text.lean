import MethodContracts.Expr.Node

/-!
# Rendered expressions

The text of a tree. There is no precedence: an operand that is itself a binary operation
stands in parentheses, and nothing else does.
-/

namespace MethodContracts

/-- A rendered tree, with what a surrounding operation has to know of it. -/
structure Rendered where
  text : String
  isBinary : Bool

namespace Rendered

/-- The text of an operand: in parentheses when it is a binary operation. -/
def operand (r : Rendered) : String := if r.isBinary then "(" ++ r.text ++ ")" else r.text

/-- Arguments, separated by commas. -/
def arguments (args : List Rendered) : String := ", ".intercalate (args.map text)

end Rendered

/-- The text of an operation over rendered children. -/
def Op.display : Op Rendered → String
  | .literal value => value.display
  | .ref v => v.display
  | .field (some target) _ name => target.operand ++ "." ++ name
  | .field none owner name => owner ++ "." ++ name
  | .binary op lhs rhs => lhs.operand ++ " " ++ op.symbol ++ " " ++ rhs.operand
  | .unary op operand => op.symbol ++ operand.operand
  | .call callee args =>
    callee.shortType ++ "." ++ callee.name ++ "(" ++ Rendered.arguments args ++ ")"
  | .newObject callee args => "new " ++ callee.shortType ++ "(" ++ Rendered.arguments args ++ ")"
  | .stackDuplicate => "<dup>"
  | .block stmts => "\x7b " ++ String.join (stmts.map fun s => s.text ++ "; ") ++ "\x7d"
  | .conditional test thenBranch elseBranch =>
    "if (" ++ test.text ++ ") " ++ thenBranch.text ++
      (match elseBranch with
      | some branch => " else " ++ branch.text
      | none => "")
  | .throw (some exception) => "throw " ++ exception.text
  | .throw none => "rethrow"
  | .ret (some value) => "return " ++ value.text
  | .ret none => "return"
  | .unrecognized opcode _ => "<unrecognized " ++ opcode ++ ">"

/-- Only binary operations are put in parentheses. -/
def Op.isBinary : Op α → Bool
  | .binary .. => true
  | _ => false

namespace Node

/-- The rendered tree. -/
def rendered (n : Node) : Rendered := n.fold fun _ below => ⟨below.display, below.isBinary⟩

/-- The text of a tree. -/
def display (n : Node) : String := n.rendered.text

end Node

end MethodContracts
