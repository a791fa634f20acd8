import MethodContracts.Expr.Negation
import MethodContracts.Extract.Statement

/-!
# Extraction

The top-level statements of a method are taken in order. Contract calls and guards become
candidate clauses; a candidate that is balanced gets into the contract set, and one that is
not leaves a diagnostic. Neither stops the scan: extraction fails only when the body holds
an unrecognized instruction, wherever that is.
-/

namespace MethodContracts

/-- A configuration with its table of contract calls. The table is made once, and not for every
method. -/
structure Extractor where
  config : Config
  table : ContractTable
  table_eq : table = .ofMethods config.methods

namespace Extractor

/-- The extractor of a configuration. -/
def ofConfig (config : Config) : Extractor := ⟨config, .ofMethods config.methods, rfl⟩

/-- The shape of a statement. -/
def shape (x : Extractor) (stmt : Node) : Shape := stmt.shape x.table x.config.terminator

/-- The candidate clause of the statement at an index, if there is one. -/
def candidate? (x : Extractor) (regions : Regions) (index : Nat) (stmt : Node) :
    Except ModelError (Option Clause) :=
  let position : Position := ⟨UInt64.ofNat index, stmt.offset⟩
  match x.shape stmt with
  | .contractCall kind condition message => .ok (some ⟨kind, condition, position, message⟩)
  | .legacyGuard test => do
    let condition ← test.negate
    return some ⟨regions.guardKind x.config.legacyRule index, condition, position, none⟩
  | _ => .ok none

/-- Takes a candidate into the contracts, or notes why it is left out. -/
def accept (e : Extraction) (clause : Clause) : Except ModelError Extraction :=
  match e.contracts.push clause with
  | .ok contracts => .ok { e with contracts }
  | .error (.unbalancedClause position markers) =>
    .ok { e with diagnostics := e.diagnostics ++
      [⟨position, clause.kind, UInt64.ofNat markers, clause.condition.display⟩] }
  | .error why => .error why

/-- Goes through the statements from an index on. -/
def scan (x : Extractor) (regions : Regions) (e : Extraction) (index : Nat) :
    List Node → Except ModelError Extraction
  | [] => .ok e
  | stmt :: rest => do
    match ← x.candidate? regions index stmt with
    | some clause => x.scan regions (← accept e clause) (index + 1) rest
    | none => x.scan regions e (index + 1) rest

/-- Extracts the contracts of a body, given by its root and its statements. -/
def run (x : Extractor) (m : Method) : Except ModelError Extraction := do
  let _ ← m.root.checkStructure
  x.scan (.ofShapes (m.statements.map x.shape)) .empty 0 m.statements

/-- Extracts the contracts of a method. -/
def extract (x : Extractor) (m : Method) : Except ExtractError Extraction :=
  (x.run m).mapError (.inMethod m)

end Extractor

end MethodContracts
