import MethodContracts.Expr.Atom
import MethodContracts.Expr.Operator

/-!
# Expression trees

The body of a method is a tree of nodes. A node is one operation with its payload and its
children, together with the offset it was decoded from, when that is known.

The layout of an operation does not depend on what stands in the places of its children, so
`Op α` leaves that open: `Op Node` is an operation over subtrees, `Op String` the same operation
over their texts, and so on. One recursion, `Node.fold`, computes bottom-up whatever can be
computed from a node and the results for its children; every traversal of the library is
an instance of it. Its single equation is `Node.fold_eq`, and `Node.induct` is the induction
that goes with it.
-/

namespace MethodContracts

/-- An operation whose children are of type `α`. Optional children are a static field's
receiver, an else branch, the operand of a rethrow and that of a return without a value. -/
inductive Op (α : Type) where
  | literal (value : Constant)
  | ref (var : Variable)
  | field (target : Option α) (declaringType field : String)
  | binary (op : BinaryOperator) (lhs rhs : α)
  | unary (op : UnaryOperator) (operand : α)
  /-- a method call; the receiver of an instance call is its first argument -/
  | call (callee : Callee) (args : List α)
  | newObject (constructor : Callee) (args : List α)
  /-- a value duplicated earlier on the evaluation stack -/
  | stackDuplicate
  | block (stmts : List α)
  | conditional (test thenBranch : α) (elseBranch : Option α)
  | throw (exception : Option α)
  | ret (value : Option α)
  /-- an instruction that has no place in the model -/
  | unrecognized (opcode : String) (children : List α)
deriving DecidableEq, Repr

/-- An expression node. -/
structure Node where
  op : Op Node
  offset : Option Offset

/-- Which operation a node performs, without payload. -/
inductive Kind where
  | literal | ref | field | binary | unary | call | newObject | stackDuplicate
  | block | conditional | throw | ret | unrecognized
deriving DecidableEq, Repr

namespace Kind

/-- Every kind. -/
def all : List Kind :=
  [literal, ref, field, binary, unary, call, newObject, stackDuplicate,
   block, conditional, throw, ret, unrecognized]

/-- The name of a kind, in messages and in stored data. -/
def name : Kind → String
  | literal => "Literal"
  | ref => "VariableRef"
  | field => "FieldRef"
  | binary => "BinaryOp"
  | unary => "UnaryOp"
  | call => "Call"
  | newObject => "NewObject"
  | stackDuplicate => "StackDuplicate"
  | block => "Block"
  | conditional => "Conditional"
  | throw => "Throw"
  | ret => "Return"
  | unrecognized => "Unrecognized"

end Kind

namespace Op

variable {α β γ : Type}

/-- The kind of an operation. -/
def kind : Op α → Kind
  | literal _ => .literal
  | ref _ => .ref
  | field .. => .field
  | binary .. => .binary
  | unary .. => .unary
  | call .. => .call
  | newObject .. => .newObject
  | stackDuplicate => .stackDuplicate
  | block _ => .block
  | conditional .. => .conditional
  | throw _ => .throw
  | ret _ => .ret
  | unrecognized .. => .unrecognized

/-- The children in positional order; absent ones are skipped. -/
def children : Op α → List α
  | literal _ | ref _ | stackDuplicate => []
  | field target _ _ => target.toList
  | binary _ lhs rhs => [lhs, rhs]
  | unary _ operand => [operand]
  | call _ args => args
  | newObject _ args => args
  | block stmts => stmts
  | conditional test thenBranch elseBranch => test :: thenBranch :: elseBranch.toList
  | throw exception => exception.toList
  | ret value => value.toList
  | unrecognized _ children => children

/-- Puts something else into the places of the children. -/
def map (f : α → β) : Op α → Op β
  | literal v => .literal v
  | ref r => .ref r
  | field target owner name => .field (target.map f) owner name
  | binary op lhs rhs => .binary op (f lhs) (f rhs)
  | unary op operand => .unary op (f operand)
  | call callee args => .call callee (args.map f)
  | newObject callee args => .newObject callee (args.map f)
  | stackDuplicate => .stackDuplicate
  | block stmts => .block (stmts.map f)
  | conditional test thenBranch elseBranch =>
    .conditional (f test) (f thenBranch) (elseBranch.map f)
  | throw exception => .throw (exception.map f)
  | ret value => .ret (value.map f)
  | unrecognized opcode children => .unrecognized opcode (children.map f)

@[simp] theorem kind_map (f : α → β) (op : Op α) : (op.map f).kind = op.kind := by
  cases op <;> rfl

@[simp] theorem children_map (f : α → β) (op : Op α) :
    (op.map f).children = op.children.map f := by
  cases op with
  | field target _ _ => cases target <;> rfl
  | conditional _ _ elseBranch => cases elseBranch <;> rfl
  | throw exception => cases exception <;> rfl
  | ret value => cases value <;> rfl
  | _ => rfl

theorem map_map (g : β → γ) (f : α → β) (op : Op α) : (op.map f).map g = op.map (g ∘ f) := by
  cases op <;> simp [map]

/-- Functions that agree on the children give the same operation. -/
theorem map_congr {f g : α → β} {op : Op α} (h : ∀ c ∈ op.children, f c = g c) :
    op.map f = op.map g := by
  cases op with
  | field target _ _ => cases target <;> simp_all [map, children]
  | conditional _ _ elseBranch => cases elseBranch <;> simp_all [map, children]
  | throw exception => cases exception <;> simp_all [map, children]
  | ret value => cases value <;> simp_all [map, children]
  | _ => simp_all [map, children]

theorem map_id (op : Op α) : op.map id = op := by
  cases op <;> simp [map]

/-- Runs the computations in the places of the children, in positional order. -/
def sequence {m : Type → Type} [Monad m] : Op (m α) → m (Op α)
  | literal v => pure (.literal v)
  | ref r => pure (.ref r)
  | field none owner name => pure (.field none owner name)
  | field (some target) owner name => do return .field (some (← target)) owner name
  | binary op lhs rhs => do
    let lhs ← lhs
    let rhs ← rhs
    return .binary op lhs rhs
  | unary op operand => do return .unary op (← operand)
  | call callee args => do return .call callee (← args.mapM id)
  | newObject callee args => do return .newObject callee (← args.mapM id)
  | stackDuplicate => pure .stackDuplicate
  | block stmts => do return .block (← stmts.mapM id)
  | conditional test thenBranch elseBranch => do
    let test ← test
    let thenBranch ← thenBranch
    match elseBranch with
    | none => return .conditional test thenBranch none
    | some elseBranch => return .conditional test thenBranch (some (← elseBranch))
  | throw none => pure (.throw none)
  | throw (some exception) => do return .throw (some (← exception))
  | ret none => pure (.ret none)
  | ret (some value) => do return .ret (some (← value))
  | unrecognized opcode children => do return .unrecognized opcode (← children.mapM id)

end Op

namespace Node

/-- The kind of a node. -/
abbrev kind (n : Node) : Kind := n.op.kind

/-- The children of a node in positional order. -/
abbrev children (n : Node) : List Node := n.op.children

/-- A node whose place in the code is not known. -/
abbrev unlocated (op : Op Node) : Node := ⟨op, none⟩

/-! ## Recursion -/

variable {β : Type}

mutual

/-- Computes bottom-up: the step sees a node and the results for its children. -/
def fold (step : Node → Op β → β) : Node → β
  | ⟨op, offset⟩ => step ⟨op, offset⟩ (foldOp step op)

/-- The operation with results in the places of its children. -/
def foldOp (step : Node → Op β → β) : Op Node → Op β
  | .literal v => .literal v
  | .ref r => .ref r
  | .field target owner name => .field (foldOption step target) owner name
  | .binary op lhs rhs => .binary op (fold step lhs) (fold step rhs)
  | .unary op operand => .unary op (fold step operand)
  | .call callee args => .call callee (foldList step args)
  | .newObject callee args => .newObject callee (foldList step args)
  | .stackDuplicate => .stackDuplicate
  | .block stmts => .block (foldList step stmts)
  | .conditional test thenBranch elseBranch =>
    .conditional (fold step test) (fold step thenBranch) (foldOption step elseBranch)
  | .throw exception => .throw (foldOption step exception)
  | .ret value => .ret (foldOption step value)
  | .unrecognized opcode children => .unrecognized opcode (foldList step children)

/-- The result for a child that may be absent. -/
def foldOption (step : Node → Op β → β) : Option Node → Option β
  | none => none
  | some n => some (fold step n)

/-- The results for a list of children. -/
def foldList (step : Node → Op β → β) : List Node → List β
  | [] => []
  | n :: rest => fold step n :: foldList step rest

end

theorem foldOption_eq (step : Node → Op β → β) (n : Option Node) :
    foldOption step n = n.map (fold step) := by
  cases n <;> rfl

theorem foldList_eq (step : Node → Op β → β) (ns : List Node) :
    foldList step ns = ns.map (fold step) := by
  induction ns with
  | nil => rfl
  | cons n rest ih => simp [foldList, ih]

/-- The recursion equation: the step is applied to the node and to the operation with the
results for its children. -/
theorem fold_eq (step : Node → Op β → β) (n : Node) :
    n.fold step = step n (n.op.map (fold step)) := by
  obtain ⟨op, offset⟩ := n
  cases op <;> simp [fold, foldOp, Op.map, foldOption_eq, foldList_eq]

/-! ## Induction -/

theorem sizeOf_lt_of_mem_children {c n : Node} (h : c ∈ n.children) : sizeOf c < sizeOf n := by
  obtain ⟨op, offset⟩ := n
  have hop : sizeOf c < sizeOf op := by
    cases op with
    | literal | ref | stackDuplicate => simp [children, Op.children] at h
    | field target _ _ =>
      cases target <;> simp [children, Op.children] at h
      subst h
      simp only [Op.field.sizeOf_spec, Option.some.sizeOf_spec]
      omega
    | binary _ lhs rhs =>
      simp [children, Op.children] at h
      simp only [Op.binary.sizeOf_spec]
      rcases h with rfl | rfl <;> omega
    | unary _ operand =>
      simp [children, Op.children] at h
      subst h
      simp only [Op.unary.sizeOf_spec]
      omega
    | call _ args =>
      have := List.sizeOf_lt_of_mem (show c ∈ args from h)
      simp only [Op.call.sizeOf_spec]
      omega
    | newObject _ args =>
      have := List.sizeOf_lt_of_mem (show c ∈ args from h)
      simp only [Op.newObject.sizeOf_spec]
      omega
    | block stmts =>
      have := List.sizeOf_lt_of_mem (show c ∈ stmts from h)
      simp only [Op.block.sizeOf_spec]
      omega
    | conditional test thenBranch elseBranch =>
      cases elseBranch <;> simp [children, Op.children] at h
      · simp only [Op.conditional.sizeOf_spec]
        rcases h with rfl | rfl <;> omega
      · simp only [Op.conditional.sizeOf_spec, Option.some.sizeOf_spec]
        rcases h with rfl | rfl | rfl <;> omega
    | throw exception =>
      cases exception <;> simp [children, Op.children] at h
      subst h
      simp only [Op.throw.sizeOf_spec, Option.some.sizeOf_spec]
      omega
    | ret value =>
      cases value <;> simp [children, Op.children] at h
      subst h
      simp only [Op.ret.sizeOf_spec, Option.some.sizeOf_spec]
      omega
    | unrecognized _ below =>
      have := List.sizeOf_lt_of_mem (show c ∈ below from h)
      simp only [Op.unrecognized.sizeOf_spec]
      omega
  simp only [mk.sizeOf_spec]
  omega

/-- What holds of a node whenever it holds of its children holds of every node. -/
theorem induct {P : Node → Prop} (step : ∀ n : Node, (∀ c ∈ n.children, P c) → P n)
    (n : Node) : P n :=
  step n fun c hc =>
    have := sizeOf_lt_of_mem_children hc
    induct step c
termination_by sizeOf n

/-- The node and everything below it, each node before its children, the children in
positional order. -/
def preorder (n : Node) : List Node := n.fold fun n below => n :: below.children.flatten

theorem preorder_eq (n : Node) : n.preorder = n :: n.children.flatMap preorder := by
  rw [preorder, fold_eq, Op.children_map, List.flatMap_def]
  rfl

/-! ## Equality -/

/-- The operation of a node, with tests in the places of the children, against another. -/
def agrees (below : Op (Node → Bool)) (other : Op Node) : Bool :=
  match below, other with
  | .literal a, .literal b => a = b
  | .ref a, .ref b => a = b
  | .field test owner name, .field target owner' name' =>
    agreesOption test target && owner = owner' && name = name'
  | .binary op lhs rhs, .binary op' lhs' rhs' => op = op' && lhs lhs' && rhs rhs'
  | .unary op operand, .unary op' operand' => op = op' && operand operand'
  | .call callee args, .call callee' args' => callee = callee' && agreesList args args'
  | .newObject callee args, .newObject callee' args' =>
    callee = callee' && agreesList args args'
  | .stackDuplicate, .stackDuplicate => true
  | .block stmts, .block stmts' => agreesList stmts stmts'
  | .conditional test thenBranch elseBranch, .conditional test' thenBranch' elseBranch' =>
    test test' && thenBranch thenBranch' && agreesOption elseBranch elseBranch'
  | .throw exception, .throw exception' => agreesOption exception exception'
  | .ret value, .ret value' => agreesOption value value'
  | .unrecognized opcode children, .unrecognized opcode' children' =>
    opcode = opcode' && agreesList children children'
  | _, _ => false
where
  /-- An optional child against another. -/
  agreesOption : Option (Node → Bool) → Option Node → Bool
    | none, none => true
    | some test, some n => test n
    | _, _ => false
  /-- A list of children against another. -/
  agreesList : List (Node → Bool) → List Node → Bool
    | [], [] => true
    | test :: tests, n :: rest => test n && agreesList tests rest
    | _, _ => false

/-- Decides whether two trees are equal, offsets included. -/
def same (a b : Node) : Bool :=
  a.fold (fun n below (other : Node) => n.offset = other.offset && agrees below other.op) b

theorem same_eq (a b : Node) :
    same a b = (decide (a.offset = b.offset) && agrees (a.op.map same) b.op) := by
  rw [same, fold_eq]
  rfl

theorem agreesOption_iff {a b : Option Node}
    (h : ∀ c ∈ a.toList, ∀ d, same c d = true ↔ c = d) :
    agrees.agreesOption (a.map same) b = true ↔ a = b := by
  cases a <;> cases b <;> simp_all [agrees.agreesOption]

theorem agreesList_iff {as bs : List Node}
    (h : ∀ c ∈ as, ∀ d, same c d = true ↔ c = d) :
    agrees.agreesList (as.map same) bs = true ↔ as = bs := by
  induction as generalizing bs with
  | nil => cases bs <;> simp [agrees.agreesList]
  | cons a rest ih => cases bs <;> simp_all [agrees.agreesList]

theorem same_iff (a b : Node) : same a b = true ↔ a = b := by
  induction a using induct generalizing b with
  | step a ih =>
    obtain ⟨op, offset⟩ := a
    obtain ⟨op', offset'⟩ := b
    rw [same_eq]
    replace ih : ∀ c ∈ op.children, ∀ d, same c d = true ↔ c = d := ih
    have hop : agrees (op.map same) op' = true ↔ op = op' := by
      cases op <;> cases op' <;>
        simp_all [Op.map, agrees, Op.children, agreesOption_iff, agreesList_iff, and_assoc]
    simp [hop, and_comm]

instance : DecidableEq Node := fun a b => decidable_of_iff _ (same_iff a b)

end Node

end MethodContracts
