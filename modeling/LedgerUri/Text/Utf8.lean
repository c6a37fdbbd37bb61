/-!
# UTF-8

Text as bytes and back. Bytes are lists, which is the form that keys, values and percent escapes
take everywhere else. `ofUtf8?_eq_some_iff` says that reading inverts writing and accepts nothing
else.
-/

namespace LedgerUri.Text

/-- The UTF-8 bytes of a text. -/
def utf8 (text : String) : List UInt8 :=
  text.toList.flatMap String.utf8EncodeChar

/-- The text that the bytes encode, when they are valid UTF-8. -/
def ofUtf8? (bytes : List UInt8) : Option String :=
  String.fromUTF8? bytes.toByteArray

theorem toByteArray_utf8 (text : String) : (utf8 text).toByteArray = text.toByteArray := by
  rw [← String.utf8Encode_toList]
  rfl

/-- Reading inverts writing, and accepts nothing else. -/
theorem ofUtf8?_eq_some_iff {bytes : List UInt8} {text : String} :
    ofUtf8? bytes = some text ↔ bytes = utf8 text := by
  constructor
  · intro h
    have hbytes : text.toByteArray = bytes.toByteArray := by
      unfold ofUtf8? String.fromUTF8? at h
      split at h
      · cases h
        rfl
      · cases h
    rw [← toByteArray_utf8] at hbytes
    have hlists := congrArg (fun a => a.data.toList) hbytes
    simpa [List.toList_data_toByteArray] using hlists.symm
  · rintro rfl
    unfold ofUtf8? String.fromUTF8?
    rw [toByteArray_utf8, dif_pos text.isValidUTF8]
    rfl

/-- What is not read encodes no text. -/
theorem ofUtf8?_eq_none_iff {bytes : List UInt8} :
    ofUtf8? bytes = none ↔ ∀ text, bytes ≠ utf8 text := by
  simp only [Option.eq_none_iff_forall_ne_some, ne_eq, ofUtf8?_eq_some_iff]

end LedgerUri.Text
