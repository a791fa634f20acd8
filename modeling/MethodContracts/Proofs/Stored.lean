import MethodContracts.Proofs.Extract.Json
import MethodContracts.Proofs.Record.Fault
import MethodContracts.Proofs.Record.RoundTrip

/-!
# One spelling for each stored value

Whatever the spelling was in which a text was accepted, the value that it was read as is written in
a spelling of its own. That text is accepted too: it nests no deeper than the reader allows, and it
is read as the same value. From then on writing and reading change nothing.

It comes from two properties of the types: every value round-trips, and what was read from a text
does not nest too deep for one when it is written.
-/

namespace MethodContracts

/-- The types with a stored form. -/
inductive StoredType where
  | node | operation | constant | variableRef | callee | binaryOperator | unaryOperator | kind
  | clauseKind | position | clause | contractSet | diagnostic | extraction
  | fingerprint | offset | parameter | signature | contractMethod | legacyRule | config | fault
deriving DecidableEq, Repr

namespace StoredType

/-- The values of the type. -/
@[reducible] def Value : StoredType → Type
  | node => Node
  | operation => Op Node
  | constant => Constant
  | variableRef => Variable
  | callee => Callee
  | binaryOperator => BinaryOperator
  | unaryOperator => UnaryOperator
  | kind => Kind
  | clauseKind => ClauseKind
  | position => Position
  | clause => Clause
  | contractSet => ContractSet
  | diagnostic => Diagnostic
  | extraction => Extraction
  | fingerprint => Fingerprint
  | offset => Offset
  | parameter => Parameter
  | signature => Signature
  | contractMethod => ContractMethod
  | legacyRule => LegacyRule
  | config => Config
  | fault => FormatError

/-- Their stored form. -/
def codec : (t : StoredType) → Codec t.Value
  | node => Node.codec
  | operation => Op.nodeCodec
  | constant => Constant.codec
  | variableRef => Variable.codec
  | callee => Callee.codec
  | binaryOperator => BinaryOperator.codec
  | unaryOperator => UnaryOperator.codec
  | kind => Kind.codec
  | clauseKind => ClauseKind.codec
  | position => Position.codec
  | clause => Clause.codec
  | contractSet => ContractSet.codec
  | diagnostic => Diagnostic.codec
  | extraction => Extraction.codec
  | fingerprint => Fingerprint.codec
  | offset => Offset.codec
  | parameter => Parameter.codec
  | signature => Signature.codec
  | contractMethod => ContractMethod.codec
  | legacyRule => LegacyRule.codec
  | config => Config.codec
  | fault => FormatError.codec

/-- Every value round-trips. -/
theorem roundTrips (t : StoredType) (a : t.Value) : t.codec.RoundTrips a := by
  cases t with
  | node => exact Node.codec_roundTrips a
  | operation => exact Op.nodeCodec_roundTrips a
  | constant => exact Constant.codec_roundTrips a
  | variableRef => exact Variable.codec_roundTrips a
  | callee => exact Callee.codec_roundTrips a
  | binaryOperator => exact BinaryOperator.codec_roundTrips a
  | unaryOperator => exact UnaryOperator.codec_roundTrips a
  | kind => exact Kind.codec_roundTrips a
  | clauseKind => exact ClauseKind.codec_roundTrips a
  | position => exact Position.codec_roundTrips a
  | clause => exact Clause.codec_roundTrips a
  | contractSet => exact ContractSet.codec_roundTrips a
  | extraction => exact Extraction.codec_roundTrips a
  | diagnostic => exact Diagnostic.codec_roundTrips a
  | fingerprint => exact Fingerprint.codec_roundTrips a
  | offset => exact Offset.codec_roundTrips a
  | parameter => exact Parameter.codec_roundTrips a
  | signature => exact Signature.codec_roundTrips a
  | contractMethod => exact ContractMethod.codec_roundTrips a
  | legacyRule => exact LegacyRule.codec_roundTrips a
  | config => exact Config.codec_roundTrips a
  | fault => exact FormatError.codec_roundTrips a

/-- A value that was read from a whole text is not too deep for one. -/
theorem allows_of_read (t : StoredType) {json : Json} {a : t.Value}
    (h : t.codec.read .wholeText json = .ok a) :
    Scope.wholeText.allows (t.codec.write a).depth := by
  cases t with
  | node => exact Node.codec_shallow h
  | operation => exact Op.codec_shallow Node.codec_shallow h
  | constant => exact Constant.codec_shallow h
  | variableRef => exact Variable.codec_shallow h
  | callee => exact Callee.codec_shallow h
  | binaryOperator => exact Codec.named_shallow _ _ h
  | unaryOperator => exact Codec.named_shallow _ _ h
  | kind => exact Codec.named_shallow _ _ h
  | clauseKind => exact Codec.named_shallow _ _ h
  | position => exact Position.codec_shallow h
  | clause => exact Clause.codec_shallow h
  | contractSet => exact ContractSet.codec_shallow h
  | diagnostic => exact Diagnostic.codec_shallow h
  | extraction => exact Extraction.codec_shallow h
  | fingerprint => exact Fingerprint.codec_shallow h
  | offset => exact Offset.codec_shallow h
  | parameter => exact Parameter.codec_shallow h
  | signature => exact Signature.codec_shallow h
  | contractMethod => exact ContractMethod.codec_shallow h
  | legacyRule => exact Codec.named_shallow _ _ h
  | config => exact Config.allows_of_read h
  | fault => exact FormatError.codec_shallow h

/-- **Reading and writing agree on everything that the reader accepts.** A text is accepted as a
value, in whatever spelling. Then the text that is written for the value nests at most 127 brackets
and is read as the same value, so it is the text that is written from then on. -/
theorem parse_render_of_parse (t : StoredType) {source : Text.Source} {a : t.Value}
    (h : t.codec.parse source = .ok a) :
    Json.nesting (t.codec.render a) ≤ 127 ∧
      t.codec.parse (.ofString (t.codec.render a)) = .ok a ∧
      (t.codec.parse (.ofString (t.codec.render a))).map t.codec.render =
        .ok (t.codec.render a) := by
  have hroundTrips := t.roundTrips a
  have hallows : Scope.wholeText.allows (Json.nesting (t.codec.render a)) := by
    rw [Codec.render, Json.nesting_render hroundTrips.plain]
    exact t.allows_of_read (Codec.read_of_parse h)
  have hparse : t.codec.parse (.ofString (t.codec.render a)) = .ok a := by
    rw [Codec.parse_render hroundTrips, Scope.answer, if_pos hallows]
  refine ⟨by simpa [Scope.wholeText, Scope.allows] using hallows, hparse, ?_⟩
  rw [hparse]
  rfl

/-- A return with an unknown member, with the record of its value as an array, with a variant
without data as an object, and without an offset. -/
theorem parse_render_of_parse_return :
    let source : Text.Source := .ofString
      "\x7b\"more\":[0],\"op\":\x7b\"Return\":[\x7b\"op\":\x7b\"StackDuplicate\":null\x7d\x7d]\x7d\x7d"
    let written := "\x7b\"op\":\x7b\"Return\":\x7b\"value\":\x7b\"op\":\"StackDuplicate\"\x7d\x7d\x7d\x7d"
    let n : Node := .unlocated (.ret (some (.unlocated .stackDuplicate)))
    node.codec.parse source = .ok n ∧ node.codec.render n = written ∧
      node.codec.parse (.ofString written) = .ok n := by
  intro source written n
  have hsource : (node.codec.parse source).toOption = some n := by decide +kernel
  have hparse : node.codec.parse source = .ok n := by
    cases hresult : node.codec.parse source with
    | error why =>
      rw [hresult] at hsource
      cases hsource
    | ok a =>
      rw [hresult] at hsource
      exact congrArg Except.ok (Option.some.inj hsource)
  have hrender : node.codec.render n = written := by decide +kernel
  obtain ⟨-, hagain, -⟩ := parse_render_of_parse node hparse
  rw [hrender] at hagain
  exact ⟨hparse, hrender, hagain⟩

end StoredType

end MethodContracts
