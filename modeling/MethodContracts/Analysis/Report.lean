import MethodContracts.Cache.Basic
import MethodContracts.Extract.Config

/-!
# Reports

What the analysis of a method, and of an assembly of methods, comes to.
-/

namespace MethodContracts

/-- How the analysis of a method went: every candidate accepted, some left out, or no contracts
because the body is malformed. -/
inductive Status where
  | success | partially | failed
deriving DecidableEq, Repr

/-- Where the contracts of a report come from. -/
inductive Origin where
  | cache | extracted
deriving DecidableEq, Repr

/-- A remark on one method. -/
inductive Remark where
  | extraction (d : Diagnostic)
  | malformedTree (opcode : String)
  | staleRecord (why : FormatError)
deriving DecidableEq

/-- What was found out about one method. -/
structure MethodReport where
  method : String
  fingerprint : Fingerprint
  status : Status
  source : Origin
  contracts : ContractSet
  remarks : List Remark
deriving DecidableEq

/-- The reports on the methods of an assembly, in its order. -/
structure AssemblyReport where
  assembly : String
  methods : List MethodReport
deriving DecidableEq

namespace Status

/-- Every status. -/
def all : List Status := [success, partially, failed]

/-- The name of a status. -/
def name : Status → String
  | success => "Success"
  | partially => "Partial"
  | failed => "Failed"

/-- The status that goes with an extraction result. -/
def ofExtraction (e : Extraction) : Status := if e.isPartial then partially else success

end Status

/-- The name of an origin. -/
def Origin.name : Origin → String
  | .cache => "Cache"
  | .extracted => "Extracted"

namespace Remark

/-- The text of a remark. -/
def message : Remark → String
  | extraction d => d.message
  | malformedTree opcode => (ModelError.malformedTree opcode).message
  | staleRecord why => "stale cache record ignored: " ++ why.message

/-- A remark is a variant of its data. -/
def encode : Remark → Json
  | extraction d => .variant "Extraction" (Diagnostic.codec.write d)
  | malformedTree opcode => .variant "MalformedTree" (.record [("kind", .string opcode)])
  | staleRecord why => .variant "StaleCacheRecord" (FormatError.codec.write why)

end Remark

namespace MethodReport

/-- Writes a report. -/
def encode (r : MethodReport) : Json :=
  .record
    [("method", .string r.method),
      ("fingerprint", Fingerprint.codec.write r.fingerprint),
      ("status", .string r.status.name),
      ("source", .string r.source.name),
      ("contracts", ContractSet.codec.write r.contracts),
      ("diagnostics", .arr (r.remarks.map Remark.encode))]

end MethodReport

namespace AssemblyReport

/-- Writes the reports on an assembly. -/
def encode (r : AssemblyReport) : Json :=
  .record [("assembly", .string r.assembly), ("methods", .arr (r.methods.map MethodReport.encode))]

/-- How many methods have a status. -/
def count (r : AssemblyReport) (status : Status) : Nat :=
  (r.methods.filter (·.status = status)).length

/-- How many reports come from the cache. -/
def fromCache (r : AssemblyReport) : Nat := (r.methods.filter (·.source = .cache)).length

/-- How many clauses were accepted in all methods. -/
def clauseCount (r : AssemblyReport) : Nat := r.methods.foldl (fun n m => n + m.contracts.size) 0

/-- The first report on a method of the given name. -/
def find? (r : AssemblyReport) (method : String) : Option MethodReport :=
  r.methods.find? (·.method = method)

end AssemblyReport

end MethodContracts
