import MethodContracts.Text.Utf8

/-!
# Reading back UTF-8

Every Unicode text comes back from its bytes: no character is lost, and no byte leaves a
hole. The reader looks at four bytes at a time, so the argument is about one encoded
character with anything behind it.
-/

namespace MethodContracts.Text.Source

/-- The bytes of a text are those of its characters. -/
theorem bytes_ofString (text : String) :
    Bytes.ofString text = text.toList.flatMap String.utf8EncodeChar := by
  rw [Bytes.ofString, ← String.utf8Encode_toList, List.utf8Encode, List.toList_data_toByteArray]

/-- The bytes of a character are read as that character, whatever follows. -/
theorem firstChar?_encode_append (c : Char) (rest : Bytes) :
    firstChar? (String.utf8EncodeChar c ++ rest) = some c := by
  -- the reader looks at four bytes, and no character has more
  have hsize : (String.utf8EncodeChar c).length ≤ 4 := by
    rw [String.length_utf8EncodeChar]
    exact c.utf8Size_le_four
  have hfront : ByteArray.mk ((String.utf8EncodeChar c ++ rest).take 4).toArray =
      (String.utf8EncodeChar c).toByteArray ++
        (rest.take (4 - (String.utf8EncodeChar c).length)).toByteArray := by
    rw [← List.toByteArray_append, List.take_append, List.take_of_length_le hsize]
    ext1
    rw [List.data_toByteArray]
  rw [firstChar?, hfront]
  exact ByteArray.utf8DecodeChar?_utf8EncodeChar_append

/-- Reading goes on right behind an encoded character. -/
theorem ofBytes_encode_append (c : Char) (rest : Bytes) :
    ofBytes (String.utf8EncodeChar c ++ rest) = some c :: ofBytes rest := by
  have hfirst := firstChar?_encode_append c rest
  have hlength := String.length_utf8EncodeChar c
  cases hc : String.utf8EncodeChar c with
  | nil =>
    have := c.utf8Size_pos
    simp only [hc, List.length_nil] at hlength
    omega
  | cons b more =>
    rw [hc] at hfirst hlength
    have hrest : (more ++ rest).drop (c.utf8Size - 1) = rest := by
      rw [← hlength, List.length_cons, Nat.add_sub_cancel]
      exact List.drop_left
    rw [List.cons_append] at hfirst ⊢
    rw [ofBytes, hfirst]
    simp only [hrest]

/-- **Reading back.** The characters of a text are the characters of its bytes. -/
theorem ofBytes_ofString (text : String) : ofBytes (Bytes.ofString text) = ofString text := by
  rw [bytes_ofString, ofString]
  induction text.toList with
  | nil => simp only [List.flatMap_nil, List.map_nil, ofBytes]
  | cons c rest ih => rw [List.flatMap_cons, ofBytes_encode_append, ih, List.map_cons]

end MethodContracts.Text.Source
