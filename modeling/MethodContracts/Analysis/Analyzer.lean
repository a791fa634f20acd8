import MethodContracts.Analysis.Report
import MethodContracts.Extract.Extractor

/-!
# Analysis through the cache

The analysis of a method has two steps. The first looks the fingerprint of the method up, and
on a hit the stored result is the answer. The second extracts, stores what it found and
reports it. Between the two other methods may have their turn.

A malformed body is reported and nothing is stored for it. Failures of the store abort the
analysis.
-/

namespace MethodContracts

/-- Why an analysis, or the preparation of it, failed. -/
inductive AnalysisError where
  | storage (why : StorageError)
  | extract (why : ExtractError)
  /-- a setting that cannot be used -/
  | setting (variableName reason : String)
  /-- a file that cannot be read -/
  | file (path reason : String)
deriving DecidableEq

/-- The text of a failure. -/
def AnalysisError.message : AnalysisError → String
  | .storage why => why.message
  | .extract why => why.message
  | .setting variableName reason => "invalid configuration: " ++ variableName ++ ": " ++ reason
  | .file path reason => "failed to read " ++ path ++ ": " ++ reason

/-- Computations over a store that may fail in any way. -/
abbrev AnalysisM (σ : Type) := ExceptT AnalysisError (StateM σ)

/-- A computation over a store as part of an analysis. -/
def StoreM.lift {σ α : Type} (act : StoreM σ α) : AnalysisM σ α :=
  ExceptT.mk do return (← act.run).mapError .storage

/-- A named collection of methods. -/
structure Assembly where
  name : String
  methods : List Method

namespace MethodReport

/-- The report on a method whose contracts are known. -/
def ofExtraction (m : Method) (source : Origin) (e : Extraction) (before : List Remark) :
    MethodReport :=
  ⟨m.qualifiedName, m.fingerprint, .ofExtraction e, source, e.contracts,
    before ++ e.diagnostics.map .extraction⟩

/-- The report on a method with a malformed body. -/
def ofMalformed (method : String) (m : Method) (opcode : String) (before : List Remark) :
    MethodReport :=
  ⟨method, m.fingerprint, .failed, .extracted, .empty, before ++ [.malformedTree opcode]⟩

end MethodReport

/-- How an analysis stands after its first step: it is done, or extraction is still to come
after some remarks. -/
inductive Progress where
  | done (report : MethodReport)
  | pending (remarks : List Remark)
deriving DecidableEq

namespace Analysis

variable {σ : Type} [Store σ]

/-- What the look-up of a method leads to. -/
def progress (m : Method) : Lookup → Progress
  | .hit e => .done (.ofExtraction m .cache e [])
  | .miss => .pending []
  | .stale why => .pending [.staleRecord why]

/-- The first step: looks the method up. -/
def lookup (m : Method) : AnalysisM σ Progress := do
  return progress m (← (Cache.lookup m.fingerprint).lift)

/-- The second step: extracts, stores and reports. -/
def finish (x : Extractor) (m : Method) (remarks : List Remark) : AnalysisM σ MethodReport :=
  match x.extract m with
  | .ok e => do
    let _ ← (Cache.putExtraction m.fingerprint e).lift
    return .ofExtraction m .extracted e remarks
  | .error (.malformedTree method opcode) => return .ofMalformed method m opcode remarks
  | .error why => throw (.extract why)

/-- Analyzes one method. -/
def method (x : Extractor) (m : Method) : AnalysisM σ MethodReport := do
  match ← lookup m with
  | .done report => return report
  | .pending remarks => finish x m remarks

/-- Analyzes methods one after another, up to the first failure. -/
def methods (x : Extractor) : List Method → AnalysisM σ (List MethodReport)
  | [] => return []
  | m :: rest => do
    let report ← method x m
    let reports ← methods x rest
    return report :: reports

/-- Analyzes an assembly. -/
def assembly (x : Extractor) (a : Assembly) : AnalysisM σ AssemblyReport := do
  return ⟨a.name, ← methods x a.methods⟩

end Analysis

end MethodContracts
