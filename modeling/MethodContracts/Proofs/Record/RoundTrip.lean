import MethodContracts.Proofs.Contract.Json
import MethodContracts.Proofs.Json.Nesting
import MethodContracts.Proofs.Text.Utf8
import MethodContracts.Record.Format

/-!
# Records come back

The header of an encoded record passes every check of the decoder, so what is decoded depends
on the payload alone. The payload is the JSON text of the result, and the reader of texts has
a limit that the writer has not: at most 127 brackets may be open at once. A result whose text
stays within it comes back unchanged; a result whose text does not is written all the same,
and its record cannot be read.
-/

namespace MethodContracts

/-! ## Texts -/

/-- The text of a plain tree is interpreted as the tree is. -/
theorem Codec.parse_render_tree (codec : Codec α) {json : Json} (h : json.Plain) :
    codec.parse (.ofString json.render) = codec.read .wholeText json := by
  rw [parse, Json.read_render h]
  dsimp only
  cases codec.read .wholeText json <;> rfl

/-- The text of a value that round-trips is read back, within the limit on open brackets. -/
theorem Codec.parse_render {codec : Codec α} {a : α} (h : codec.RoundTrips a) :
    codec.parse (.ofString (codec.render a)) =
      Scope.wholeText.answer (Json.nesting (codec.render a)) a := by
  rw [render, parse_render_tree codec h.plain, h.read, Json.nesting_render h.plain]

/-- How many brackets are open at the deepest place of the JSON text of a result. -/
def Extraction.nesting (e : Extraction) : Nat := Json.nesting (codec.render e)

/-- The nesting of the text is the depth of the tree. -/
theorem Extraction.nesting_eq_depth (e : Extraction) : e.nesting = (codec.write e).depth :=
  Json.nesting_render (codec_roundTrips e).plain

namespace Record

/-! ## Headers -/

/-- **Only the payload counts** in a record with the right header. -/
theorem decode_assemble (payload : Bytes) :
    decode (assemble magic.toList version (Blake3.hash payload) payload) =
      decodePayload payload := by
  have hlength := Blake3.length_hash payload
  have hword : Bytes.word 2 0 = version := by decide
  have hrecord : assemble magic.toList version (Blake3.hash payload) payload =
      0x49 :: 0x4c :: 0x43 :: 0x43 :: 2 :: 0 :: (Blake3.hash payload ++ payload) := by
    rw [assemble, List.append_assoc]
    rfl
  have htake : (Blake3.hash payload ++ payload).take 32 = Blake3.hash payload :=
    List.take_left' hlength
  have hdrop : (Blake3.hash payload ++ payload).drop 32 = payload := List.drop_left' hlength
  -- four bytes of magic, two of version and 32 of hash make up the header
  have hlong : ¬ (0x49 :: 0x4c :: 0x43 :: 0x43 :: 2 :: 0 ::
      (Blake3.hash payload ++ payload)).length < headerLength := by
    simp only [List.length_cons, List.length_append, hlength, headerLength]
    omega
  rw [hrecord, decode, dif_neg hlong]
  change decodeParts magic 2 0 (Blake3.hash payload ++ payload) = _
  rw [decodeParts, hdrop, htake, hword, if_neg (not_not_intro rfl), if_neg (not_not_intro rfl),
    if_neg (not_not_intro rfl)]

/-! ## Round trips -/

/-- The record of a result gives the result back, or a fault of the payload when its text nests too
deep. -/
theorem decode_encode (e : Extraction) :
    decode (encode e) =
      if e.nesting ≤ 127 then .ok e else .error (.payload ReadError.shape.message) := by
  have hparse : Extraction.codec.parse (.ofString (Extraction.codec.render e)) =
      if e.nesting ≤ 127 then .ok e else .error .shape := by
    rw [Codec.parse_render (Extraction.codec_roundTrips e), Extraction.nesting]
    simp [Scope.answer, Scope.wholeText, Scope.allows]
  rw [encode, decode_assemble, decodePayload, payload, Text.Source.ofBytes_ofString, hparse]
  split_ifs <;> rfl

/-- **A record gives back the result it was made from exactly when the JSON text of the result
nests at most 127 brackets.** When it nests deeper the answer is a fault of the payload, never
another result and never another fault. -/
theorem decode_encode_eq_ok_iff (e : Extraction) :
    (decode (encode e) = .ok e ↔ e.nesting ≤ 127) ∧
      (127 < e.nesting → decode (encode e) = .error (.payload ReadError.shape.message)) := by
  rw [decode_encode e]
  split_ifs with hnesting
  · exact ⟨iff_of_true rfl hnesting, fun hdeep => absurd hnesting (Nat.not_le.mpr hdeep)⟩
  · exact ⟨iff_of_false nofun hnesting, fun _ => rfl⟩

/-- A NaN with a payload, an absent receiver and an escaped message come back. -/
theorem decode_encode_nan :
    let condition : Node := .unlocated (.binary .eq (.unlocated (.literal (.double 0x7ff8000000000001)))
      ⟨.field none "T" "f", some ⟨28⟩⟩)
    let clauses : List Clause := [⟨.ensures, condition, ⟨2, none⟩, some "a\"\n\u0001"⟩]
    let e : Extraction := ⟨.accepted clauses, [⟨⟨3, some ⟨7⟩⟩, .requires, 1, "<dup>"⟩]⟩
    e.contracts.clauses = clauses ∧ decode (encode e) = .ok e := by
  intro condition clauses e
  have hclauses : e.contracts.clauses = clauses := ContractSet.clauses_accepted (by decide)
  refine ⟨hclauses, (decode_encode_eq_ok_iff e).1.mpr ?_⟩
  rw [Extraction.nesting_eq_depth e]
  decide

end Record

end MethodContracts
