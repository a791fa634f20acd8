import MethodContracts.Contract.Extraction
import MethodContracts.Contract.Method
import MethodContracts.Expr.Json

/-!
# Contracts in JSON

The stored form of clauses, contract sets, extraction results, fingerprints and signatures.

A contract set is stored as the list of its clauses. Reading it reads the whole list first
and then pushes the clauses one by one, so no stored text can smuggle a clause into a set
that would not have been accepted there.
-/

namespace MethodContracts

/-- Kinds of clauses are names. -/
def ClauseKind.codec : Codec ClauseKind := .named all name

/-- A position leaves out an offset that is not known. -/
def Position.codec : Codec Position :=
  .record (.two (.required "statement_index" .uint64) (.optional "offset" Offset.codec))
    (fun p => (p.statement, p.offset, ()))
    (fun (statement, offset, _) => ⟨statement, offset⟩)

/-- A clause leaves out a message it does not have. -/
def Clause.codec : Codec Clause :=
  .record
    (.four (.required "kind" ClauseKind.codec) (.required "condition" Node.codec)
      (.required "position" Position.codec) (.optional "message" .string))
    (fun c => (c.kind, c.condition, c.position, c.message, ()))
    (fun (kind, condition, position, message, _) => ⟨kind, condition, position, message⟩)

namespace ContractSet

/-- Reads the clauses and pushes them. -/
def decoder : Decoder ContractSet := fun scope json =>
  match (Codec.list Clause.codec).read scope json with
  | .ok clauses => (ofClauses clauses).mapError .rejected
  | .error e => .error e

/-- The stored form of contract sets. -/
def codec : Codec ContractSet :=
  ⟨fun set => (Codec.list Clause.codec).write set.clauses, decoder⟩

end ContractSet

namespace Diagnostic

/-- The record of a diagnostic. -/
def layout : Layout [Position, ClauseKind, UInt64, String] :=
  .four (.required "position" Position.codec) (.required "kind" ClauseKind.codec)
    (.required "stack_markers" .uint64) (.required "condition" .string)

/-- The only variant of diagnostics. -/
def case? : String → Option (Decoder.Case Diagnostic)
  | "UnextractableClause" =>
    some (.body (layout.read.map fun (position, kind, markers, condition, _) =>
      ⟨position, kind, markers, condition⟩))
  | _ => none

/-- The stored form of diagnostics. -/
def codec : Codec Diagnostic :=
  ⟨fun d => .variant "UnextractableClause"
      (layout.write (d.position, d.kind, d.markers, d.condition, ())),
    .variants case?⟩

end Diagnostic

/-- The stored form of extraction results. Without diagnostics there are none. -/
def Extraction.codec : Codec Extraction :=
  .record
    (.two (.required "contracts" ContractSet.codec)
      (.defaulted "diagnostics" (.list Diagnostic.codec) []))
    (fun e => (e.contracts, e.diagnostics, ()))
    (fun (contracts, diagnostics, _) => ⟨contracts, diagnostics⟩)

/-- A fingerprint is the array of its 32 bytes. -/
def Fingerprint.codec : Codec Fingerprint :=
  ⟨fun fp => (Codec.list .uint8).write fp.bytes,
    (Codec.list .uint8).read.guarded fun bytes => (ofBytes bytes).toOption⟩

/-- The stored form of parameters. -/
def Parameter.codec : Codec Parameter :=
  .record (.two (.required "name" .string) (.required "type_name" .string))
    (fun p => (p.name, p.typeName, ()))
    (fun (name, typeName, _) => ⟨name, typeName⟩)

/-- The stored form of signatures. -/
def Signature.codec : Codec Signature :=
  .record
    (.three (.required "name" .string) (.required "parameters" (.list Parameter.codec))
      (.required "return_type" .string))
    (fun s => (s.name, s.parameters, s.returnType, ()))
    (fun (name, parameters, returnType, _) => ⟨name, parameters, returnType⟩)

end MethodContracts
