import MethodContracts.Proofs.Record.RoundTrip

/-!
# Damaged records

What the decoder answers to a record depends on the parts of its header, which it checks in a fixed
order: the magic number, the version, the checksum. The payload is looked at last.

So a record whose payload is whole is decoded only when it is the record that was written, byte for
byte. Any other one has a fault in its header, and the first part that is not right is what the
answer names, whatever else is damaged; nothing of the hash is needed for that. A record whose
header is whole is refused unless its payload has the hash of the one that was written.
-/

namespace MethodContracts

/-! ## Bytes -/

namespace Bytes

/-- A piece of what is in front of a place is a piece of the whole. -/
theorem take_drop_take {i j n : Nat} (h : i + j ≤ n) (bytes : Bytes) :
    ((bytes.take n).drop i).take j = (bytes.drop i).take j := by
  rw [List.drop_take, List.take_take, Nat.min_eq_left (Nat.le_sub_of_add_le' h)]

/-- The low byte of a word counts once and the high byte 256 times. -/
theorem toNat_word (low high : UInt8) : (word low high).toNat = low.toNat + 256 * high.toNat := by
  have hlow : low.toNat < 2 ^ 8 := low.toNat_lt
  have hhigh : high.toNat < 2 ^ 8 := high.toNat_lt
  have hshift : (high.toUInt16 <<< 8).toNat = high.toNat <<< 8 := by
    simp only [UInt16.toNat_shiftLeft, UInt8.toNat_toUInt16, UInt16.reduceToNat, Nat.reduceMod,
      Nat.shiftLeft_eq]
    omega
  rw [word, UInt16.toNat_or, hshift, UInt8.toNat_toUInt16, Nat.or_comm,
    ← Nat.shiftLeft_add_eq_or_of_lt hlow, Nat.shiftLeft_eq]
  omega

/-- A word is written as the bytes that it is made up of. -/
theorem ofWord_eq {version : UInt16} {low high : UInt8}
    (h : version.toNat = low.toNat + 256 * high.toNat) : ofWord version = [low, high] := by
  have hlow : low.toNat < 2 ^ 8 := low.toNat_lt
  have hhigh : high.toNat < 2 ^ 8 := high.toNat_lt
  have hfirst : version.toUInt8 = low := by
    refine UInt8.toNat_inj.mp ?_
    rw [UInt16.toNat_toUInt8]
    omega
  have hsecond : (version >>> 8).toUInt8 = high := by
    refine UInt8.toNat_inj.mp ?_
    simp only [UInt16.toNat_toUInt8, UInt16.toNat_shiftRight, UInt16.reduceToNat, Nat.reduceMod,
      Nat.shiftRight_eq_div_pow]
    omega
  rw [ofWord, hfirst, hsecond]

end Bytes

namespace Record

/-! ## Headers -/

/-- The parts of the header of a record: four bytes of magic, the version with its low byte first,
and 32 bytes of checksum. -/
structure Header (record : Bytes) where
  magic : Vector UInt8 4
  version : UInt16
  checksum : Bytes
  magic_eq : magic.toList = record.take 4
  version_eq : ∃ low high, (record.drop 4).take 2 = [low, high] ∧
    version.toNat = low.toNat + 256 * high.toNat
  checksum_eq : checksum = (record.drop 6).take 32

namespace Header

variable {record : Bytes}

/-- The header is the one that is written in front of the payload. -/
structure Fits (header : Header record) (payload : Bytes) : Prop where
  magic : header.magic = Record.magic
  version : header.version = Record.version
  checksum : header.checksum = Blake3.hash payload

/-- The first part of a header that is not right. Where the others are, it is the checksum. -/
def fault (header : Header record) : FormatError :=
  if header.magic ≠ Record.magic then .badMagic header.magic
  else if header.version ≠ Record.version then
    .unsupportedVersion header.version Record.version
  else .checksumMismatch

/-- The header of a record depends on its first 38 bytes and on nothing else. -/
theorem eq_of_take_eq {record' : Bytes} (h : record.take headerLength = record'.take headerLength)
    (header : Header record) (header' : Header record') :
    header.magic = header'.magic ∧ header.version = header'.version ∧
      header.checksum = header'.checksum := by
  have hpart (i j : Nat) (hij : i + j ≤ headerLength) :
      (record.drop i).take j = (record'.drop i).take j := by
    rw [← Bytes.take_drop_take hij record, h, Bytes.take_drop_take hij]
  refine ⟨?_, ?_, ?_⟩
  · have hmagic : record.take 4 = record'.take 4 := hpart 0 4 (by decide)
    exact Vector.toList_inj.mp (header.magic_eq.trans (hmagic.trans header'.magic_eq.symm))
  · obtain ⟨low, high, hbytes, hversion⟩ := header.version_eq
    obtain ⟨low', high', hbytes', hversion'⟩ := header'.version_eq
    rw [hpart 4 2 (by decide), hbytes'] at hbytes
    cases hbytes
    exact UInt16.toNat_inj.mp (hversion.trans hversion'.symm)
  · exact header.checksum_eq.trans ((hpart 6 32 (by decide)).trans header'.checksum_eq.symm)

theorem fault_eq_checksumMismatch (header : Header record) (hmagic : header.magic = Record.magic)
    (hversion : header.version = Record.version) : header.fault = .checksumMismatch := by
  rw [fault, if_neg (not_not_intro hmagic), if_neg (not_not_intro hversion)]

/-- A record is what is written when its header fits the payload behind it. -/
theorem Fits.eq_assemble {header : Header record} (h : header.Fits (record.drop headerLength)) :
    record = assemble Record.magic.toList Record.version (Blake3.hash (record.drop headerLength))
      (record.drop headerLength) := by
  obtain ⟨low, high, hbytes, hversion⟩ := header.version_eq
  have hmagic : Record.magic.toList = record.take 4 := h.magic ▸ header.magic_eq
  have hword : Bytes.ofWord Record.version = (record.drop 4).take 2 :=
    (h.version ▸ Bytes.ofWord_eq hversion).trans hbytes.symm
  have hchecksum : Blake3.hash (record.drop headerLength) = (record.drop 6).take 32 :=
    h.checksum.symm.trans header.checksum_eq
  have hbehind (i j : Nat) : (record.drop i).take j ++ record.drop (i + j) = record.drop i := by
    rw [← List.drop_drop, List.take_append_drop]
  -- the parts are put together from the last to the first
  have hpayload : (record.drop 6).take 32 ++ record.drop headerLength = record.drop 6 :=
    hbehind 6 32
  have hrest : (record.drop 4).take 2 ++ record.drop 6 = record.drop 4 := hbehind 4 2
  rw [assemble, hmagic, hword, hchecksum, List.append_assoc, List.append_assoc, hpayload, hrest,
    List.take_append_drop]

end Header

/-- A record that is shorter than a header is refused for its length. -/
theorem decode_of_length_lt {record : Bytes} (h : record.length < headerLength) :
    decode record = .error (.truncated (UInt64.ofNat record.length) 38) := by
  rw [decode, dif_pos h]
  rfl

/-- **What is decoded depends on the header first.** Every record that is long enough has one; the
payload is read when the header fits it, and the fault of the header is the answer when not. -/
theorem exists_header {record : Bytes} (h : headerLength ≤ record.length) :
    ∃ header : Header record,
      (header.Fits (record.drop headerLength) →
        decode record = decodePayload (record.drop headerLength)) ∧
      (¬ header.Fits (record.drop headerLength) → decode record = .error header.fault) := by
  match record, h with
  | a :: b :: c :: d :: low :: high :: rest, h =>
    let header : Header (a :: b :: c :: d :: low :: high :: rest) :=
      ⟨#v[a, b, c, d], Bytes.word low high, rest.take 32, rfl,
        ⟨low, high, rfl, Bytes.toNat_word low high⟩, rfl⟩
    have hdecode : decode (a :: b :: c :: d :: low :: high :: rest) =
        decodeParts header.magic low high rest := by
      rw [decode, dif_neg (Nat.not_lt.mpr h)]
      rfl
    refine ⟨header, fun hfits => ?_, fun hfits => ?_⟩
    · have hchecksum : rest.take 32 = Blake3.hash (rest.drop 32) := hfits.checksum
      rw [hdecode, decodeParts, if_neg (not_not_intro hfits.magic),
        if_neg (not_not_intro hfits.version), if_neg (not_not_intro hchecksum)]
      rfl
    · rw [hdecode, decodeParts, Header.fault]
      split_ifs with hmagic hversion hchecksum
      · rfl
      · rfl
      · rfl
      · exact absurd ⟨Classical.not_not.mp hmagic, Classical.not_not.mp hversion,
          Classical.not_not.mp hchecksum⟩ hfits

/-! ## Damage -/

/-- The payload of a written record is behind its header. -/
theorem drop_encode (e : Extraction) : (encode e).drop headerLength = payload e := by
  have hlength : (magic.toList ++ Bytes.ofWord version ++ Blake3.hash (payload e)).length =
      headerLength := by
    rw [List.length_append, Blake3.length_hash]
    rfl
  rw [encode, assemble, ← hlength, List.drop_left]

/-- A written record begins with the magic number and the version. -/
theorem take_encode (e : Extraction) : (encode e).take 6 = magic.toList ++ Bytes.ofWord version := by
  rw [encode, assemble, List.append_assoc]
  rfl

theorem headerLength_le_length_encode (e : Extraction) : headerLength ≤ (encode e).length := by
  rw [encode, assemble, List.length_append, List.length_append, Blake3.length_hash]
  exact Nat.le_add_right _ _

/-- The header of a written record. -/
def written (e : Extraction) : Header (encode e) where
  magic := magic
  version := version
  checksum := Blake3.hash (payload e)
  magic_eq := rfl
  version_eq := ⟨2, 0, rfl, rfl⟩
  checksum_eq := (List.take_left' (Blake3.length_hash (payload e))).symm

/-- **A damaged header is a fault.** In front of the payload that was written only the header that
was written fits. -/
theorem decode_of_ne_encode {e : Extraction} {record : Bytes} (hlength : headerLength ≤ record.length)
    (hpayload : record.drop headerLength = payload e) (hne : record ≠ encode e) :
    ∃ header : Header record, decode record = .error header.fault := by
  obtain ⟨header, -, hfault⟩ := exists_header hlength
  refine ⟨header, hfault fun hfits => hne ?_⟩
  rw [hfits.eq_assemble, hpayload, encode]

/-- **A damaged payload is a fault of the checksum**, unless it has the hash of the payload that was
written. -/
theorem decode_take_append (e : Extraction) {rest : Bytes}
    (h : Blake3.hash rest ≠ Blake3.hash (payload e)) :
    decode ((encode e).take headerLength ++ rest) = .error .checksumMismatch := by
  have htake : ((encode e).take headerLength).length = headerLength :=
    List.length_take_of_le (headerLength_le_length_encode e)
  have hlong : headerLength ≤ ((encode e).take headerLength ++ rest).length := by
    rw [List.length_append, htake]
    exact Nat.le_add_right _ _
  obtain ⟨header, -, hfault⟩ := exists_header hlong
  obtain ⟨hmagic, hversion, hchecksum⟩ := header.eq_of_take_eq (List.take_left' htake) (written e)
  rw [List.drop_left' htake] at hfault
  rw [hfault fun hfits => h (hfits.checksum.symm.trans hchecksum),
    header.fault_eq_checksumMismatch hmagic hversion]

/-- **Damaged records are refused for the right reason.** Of a record that is too short, the length;
of one with the payload that was written, the first part of its header that is not right, whatever
else is damaged; of one with the header that was written, the checksum, unless the payloads have one
hash. So no record is decoded that differs from the written one in its header only. -/
theorem decode_damaged (e : Extraction) (record : Bytes) :
    (record.length < 38 →
      ∃ length, length.toNat = record.length ∧ decode record = .error (.truncated length 38)) ∧
    (38 ≤ record.length → record.drop 38 = (encode e).drop 38 → record ≠ encode e →
      ∃ header : Header record, decode record = .error header.fault) ∧
    (∀ rest, record = (encode e).take 38 ++ rest →
      Blake3.hash rest ≠ Blake3.hash ((encode e).drop 38) →
        decode record = .error .checksumMismatch) ∧
    (record.drop 38 = (encode e).drop 38 → record ≠ encode e →
      ∃ fault, decode record = .error fault) := by
  have hpayload : (encode e).drop 38 = payload e := drop_encode e
  rw [hpayload]
  refine ⟨fun hshort => ?_, fun hlong hdrop hne => ?_, fun rest hrecord hhash => ?_,
    fun hdrop hne => ?_⟩
  · have hlength : record.length < 2 ^ 64 := by omega
    exact ⟨_, UInt64.toNat_ofNat_of_lt' hlength, decode_of_length_lt hshort⟩
  · exact decode_of_ne_encode hlong hdrop hne
  · exact hrecord ▸ decode_take_append e hhash
  · rcases Nat.lt_or_ge record.length headerLength with hshort | hlong
    · exact ⟨_, decode_of_length_lt hshort⟩
    · obtain ⟨header, hfault⟩ := decode_of_ne_encode hlong hdrop hne
      exact ⟨_, hfault⟩

/-- A wrong version in front of a wrong checksum: the version is the fault. -/
theorem decode_damaged_version :
    let e : Extraction := .empty
    let header : Bytes := [0x49, 0x4c, 0x43, 0x43, 3, 0] ++ List.replicate 32 0
    let record : Bytes := header ++ (encode e).drop 38
    38 ≤ record.length ∧ record.drop 38 = (encode e).drop 38 ∧ record ≠ encode e ∧
      decode record = .error (.unsupportedVersion 3 2) := by
  intro e header record
  have hheader : header.length = 38 := by decide
  have hlength : 38 ≤ record.length := by
    rw [List.length_append, hheader]
    exact Nat.le_add_right _ _
  have hdrop : record.drop 38 = (encode e).drop 38 := List.drop_left' hheader
  have htake : record.take 38 = header := List.take_left' hheader
  have hfirst (i j : Nat) (h : i + j ≤ 38) : (record.drop i).take j = (header.drop i).take j := by
    rw [← Bytes.take_drop_take h record, htake]
  have hne : record ≠ encode e := by
    intro h
    have hversion := hfirst 0 6 (by decide)
    rw [h, List.drop_zero, take_encode] at hversion
    exact absurd hversion (by decide)
  obtain ⟨found, hfault⟩ := (decode_damaged e record).2.1 hlength hdrop hne
  have hmagic : found.magic = magic :=
    Vector.toList_inj.mp (found.magic_eq.trans (hfirst 0 4 (by decide)))
  obtain ⟨low, high, hbytes, hversion⟩ := found.version_eq
  rw [hfirst 4 2 (by decide)] at hbytes
  cases hbytes
  have hfound : found.version = 3 := UInt16.toNat_inj.mp hversion
  refine ⟨hlength, hdrop, hne, hfault.trans ?_⟩
  rw [Header.fault, if_neg (not_not_intro hmagic), hfound]
  rfl

end Record

end MethodContracts
