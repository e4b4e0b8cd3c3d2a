import Coap.Bytes.BigEndian

/-!
# Text as bytes

A text is the byte string of its UTF-8 form: `bytes` gives it, and `ofBytes?` reads it back, so
that the two are inverse to each other (`ofBytes?_eq_some_iff`).
-/

namespace Coap.Text

/-- The UTF-8 form of a text. -/
def bytes (text : String) : Bytes := text.toByteArray.data.toList

/-- The text that a byte string is the UTF-8 form of, if there is one. -/
def ofBytes? (bytes : Bytes) : Option String := String.fromUTF8? bytes.toByteArray

theorem toByteArray_bytes (text : String) : (bytes text).toByteArray = text.toByteArray := by
  apply ByteArray.ext
  simp [bytes, List.data_toByteArray]

/-- A byte string reads as a text just if it is the UTF-8 form of that text. -/
theorem ofBytes?_eq_some_iff {b : Bytes} {text : String} :
    ofBytes? b = some text ↔ bytes text = b := by
  constructor
  · intro h
    simp only [ofBytes?, String.fromUTF8?] at h
    split at h
    · cases h
      simp [bytes, String.fromUTF8, List.data_toByteArray]
    · cases h
  · rintro rfl
    have h : text.toByteArray.IsValidUTF8 := text.isValidUTF8
    simp [ofBytes?, String.fromUTF8?, toByteArray_bytes, h, String.fromUTF8]

/-- The bytes of a text are read as this text. -/
@[simp]
theorem ofBytes?_bytes (text : String) : ofBytes? (bytes text) = some text :=
  ofBytes?_eq_some_iff.2 rfl

/-- Texts with the same bytes are the same. -/
theorem bytes_inj {s t : String} : bytes s = bytes t ↔ s = t :=
  ⟨fun h => Option.some.inj ((ofBytes?_bytes s).symm.trans (ofBytes?_eq_some_iff.2 h.symm)),
    fun h => h ▸ rfl⟩

end Coap.Text
