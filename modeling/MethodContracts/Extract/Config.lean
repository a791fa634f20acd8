import MethodContracts.Contract.Json
import MethodContracts.Json.Text
import MethodContracts.Text.Blank

/-!
# What declares a contract

A configuration names the calls that declare contracts, the call that ends the leading block
of contracts, and how a guard that throws is classified. Whatever a stored configuration
leaves out has the value of the default one, which describes the standard contract class.
-/

namespace MethodContracts

/-- A call that declares a contract: the callee, the number of arguments and the kind of
clause. The condition is the first argument. -/
structure ContractMethod where
  callee : Callee
  arity : UInt64
  kind : ClauseKind
deriving DecidableEq, Repr

/-- How a guard `if (test) throw …` is classified. -/
inductive LegacyRule where
  /-- A guard outside the leading contracts that only contracts and returns follow is a
  postcondition; every other guard is a precondition. -/
  | leadingRequiresTrailingEnsures
  /-- Every guard is a precondition. -/
  | alwaysRequires
deriving DecidableEq, Repr

/-- Why extraction, or the preparation of it, failed. -/
inductive ExtractError where
  /-- the body of a method holds an instruction that has no place in the model -/
  | malformedTree (method opcode : String)
  /-- any other fault of the model -/
  | model (why : ModelError)
  /-- a configuration that cannot be used -/
  | invalidConfig (reason : String)
  /-- a stored configuration that cannot be read -/
  | unreadableConfig (why : ReadError)
deriving DecidableEq, Repr

/-- The text of a failure. -/
def ExtractError.message : ExtractError → String
  | .malformedTree method opcode =>
    "malformed tree in " ++ method ++ ": no traversal rule for node kind '" ++ opcode ++ "'"
  | .model why => why.message
  | .invalidConfig reason => "invalid extractor configuration: " ++ reason
  | .unreadableConfig why => "configuration parse error: " ++ why.message

/-- A fault of the model that was met in a method. -/
def ExtractError.inMethod (method : Method) : ModelError → ExtractError
  | .malformedTree opcode => .malformedTree method.qualifiedName opcode
  | why => .model why

namespace LegacyRule

/-- Every rule. -/
def all : List LegacyRule := [leadingRequiresTrailingEnsures, alwaysRequires]

/-- The name of a rule, in settings and in stored data. -/
def name : LegacyRule → String
  | leadingRequiresTrailingEnsures => "leading-requires-trailing-ensures"
  | alwaysRequires => "always-requires"

/-- The rule with the given name; blanks around it do not matter. -/
def ofName (text : String) : Except ExtractError LegacyRule :=
  match all.find? fun rule => rule.name = Text.trim text with
  | some rule => .ok rule
  | none => .error (.invalidConfig ("unknown legacy position rule '" ++ Text.trim text ++ "'"))

/-- Rules are names. -/
def codec : Codec LegacyRule := .named all name

end LegacyRule

/-- What declares a contract. -/
structure Config where
  /-- earlier entries win -/
  methods : List ContractMethod
  /-- the call without arguments that ends the leading block of contracts -/
  terminator : Option Callee
  legacyRule : LegacyRule
deriving DecidableEq, Repr

/-- The stored form of contract methods. -/
def ContractMethod.codec : Codec ContractMethod :=
  .record
    (.three (.required "callee" Callee.codec) (.required "arity" .uint64)
      (.required "kind" ClauseKind.codec))
    (fun m => (m.callee, m.arity, m.kind, ()))
    (fun (callee, arity, kind, _) => ⟨callee, arity, kind⟩)

namespace Config

/-- The declaring type of the standard contract calls. -/
def contractType : String := "System.Diagnostics.Contracts.Contract"

/-- A member of the standard contract type. -/
def standardCallee (name : String) : Callee := ⟨contractType, name⟩

/-- A standard contract call comes with a condition alone or with a message too. -/
def standardMethods (kind : ClauseKind) : List ContractMethod :=
  [⟨standardCallee kind.name, 1, kind⟩, ⟨standardCallee kind.name, 2, kind⟩]

/-- The standard contract calls. -/
def standard : Config :=
  ⟨ClauseKind.all.flatMap standardMethods, some (standardCallee "EndContractBlock"),
    .leadingRequiresTrailingEnsures⟩

/-- The stored form of configurations. -/
def codec : Codec Config :=
  .record
    (.three (.defaulted "contract_methods" (.list ContractMethod.codec) standard.methods)
      (.nullableDefaulted "end_contract_block" Callee.codec standard.terminator)
      (.defaulted "legacy_rule" LegacyRule.codec standard.legacyRule))
    (fun c => (c.methods, c.terminator, c.legacyRule, ()))
    (fun (methods, terminator, legacyRule, _) => ⟨methods, terminator, legacyRule⟩)

/-- A contract call without arguments has no condition, so a configuration must not name
one. -/
def validate (c : Config) : Except ExtractError Unit :=
  match c.methods.find? fun m => m.arity = 0 with
  | some m =>
    .error (.invalidConfig ("contract method " ++ m.callee.display ++ " has arity 0"))
  | none => .ok ()

/-- Reads a stored configuration and checks it. -/
def ofText (source : Text.Source) : Except ExtractError Config :=
  match codec.parse source with
  | .ok c => c.validate.map fun _ => c
  | .error why => .error (.unreadableConfig why)

/-- The configuration with another rule for guards. -/
def withLegacyRule (c : Config) (rule : LegacyRule) : Config := { c with legacyRule := rule }

end Config

end MethodContracts
