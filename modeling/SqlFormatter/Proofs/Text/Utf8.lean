import SqlFormatter.Text.Utf8

/-!
# SqlFormatter.Proofs.Text.Utf8

The bytes of a text, and the bytes between two offsets. What stands between two offsets at the ends
of characters is the bytes of the characters there (`bytesBetween_of_append`).
-/

namespace SqlFormatter

/-- The bytes of the text from offset `start` to just before offset `stop`. -/
def bytesBetween (text : String) (start stop : Nat) : List UInt8 :=
  ((encodeUtf8 text).take stop).drop start

/-- The list of a byte array is built from its bytes from some index on. -/
theorem toList_loop (bytes : ByteArray) (i : Nat) (read : List UInt8) :
    ByteArray.toList.loop bytes i read = read.reverse ++ bytes.data.toList.drop i := by
  rw [ByteArray.toList.loop]
  by_cases hi : i < bytes.size
  · have hdrop : bytes.data.toList.drop i = bytes.get! i :: bytes.data.toList.drop (i + 1) := by
      rw [List.drop_eq_getElem_cons (by simpa using hi)]
      simp [ByteArray.get!, hi]
    rw [if_pos hi, toList_loop bytes (i + 1), hdrop, List.reverse_cons, List.append_assoc]
    rfl
  · rw [if_neg hi, List.drop_of_length_le (by simpa using hi), List.append_nil]
termination_by bytes.size - i

/-- The bytes of a text are those of its characters, one after the other. -/
theorem encodeUtf8_eq_flatMap (text : String) :
    encodeUtf8 text = text.toList.flatMap String.utf8EncodeChar := by
  rw [encodeUtf8, ByteArray.toList, toList_loop, String.toUTF8, ← String.utf8Encode_toList,
    List.utf8Encode, List.toList_data_toByteArray]
  rfl

theorem encodeUtf8_ofList_append (xs ys : List Char) :
    encodeUtf8 (String.ofList (xs ++ ys)) =
      encodeUtf8 (String.ofList xs) ++ encodeUtf8 (String.ofList ys) := by
  simp only [encodeUtf8_eq_flatMap, String.toList_ofList, List.flatMap_append]

theorem length_encodeUtf8_ofList (cs : List Char) :
    (encodeUtf8 (String.ofList cs)).length = byteLength cs := by
  rw [encodeUtf8_eq_flatMap, String.toList_ofList]
  induction cs with
  | nil => rfl
  | cons c cs ih =>
    rw [List.flatMap_cons, List.length_append, ih, String.length_utf8EncodeChar, byteLength_cons]

theorem bytesBetween_of_append {text : String} {before middle after : List Char}
    (h : text.toList = before ++ (middle ++ after)) :
    bytesBetween text (byteLength before) (byteLength before + byteLength middle) =
      encodeUtf8 (String.ofList middle) := by
  have htext : encodeUtf8 text = encodeUtf8 (String.ofList before) ++
      (encodeUtf8 (String.ofList middle) ++ encodeUtf8 (String.ofList after)) := by
    rw [← encodeUtf8_ofList_append, ← encodeUtf8_ofList_append, ← h, String.ofList_toList]
  rw [bytesBetween, htext, ← length_encodeUtf8_ofList before, ← length_encodeUtf8_ofList middle,
    List.take_length_add_append, List.drop_left, List.take_left]

end SqlFormatter
