/-!
# Bytes as text

Reading bytes as UTF-8, and the place where bytes cease to be UTF-8.
-/

namespace Relink.Utf8

/-- The byte at which the first character begins that is not well formed, counted from `start`,
where a character begins. -/
def validLengthFrom (bytes : ByteArray) (start : Nat) : Nat :=
  match _decoded : bytes.utf8DecodeChar? start with
  | none => start
  | some character => validLengthFrom bytes (start + character.utf8Size)
termination_by bytes.size - start
decreasing_by
  have := ByteArray.le_size_of_utf8DecodeChar?_eq_some _decoded
  have := character.utf8Size_pos
  omega

/-- How many bytes, counted from the first, are well formed. -/
def validLength (bytes : ByteArray) : Nat :=
  validLengthFrom bytes 0

/-- The text that bytes write. -/
def text? (bytes : ByteArray) : Option String :=
  String.fromUTF8? bytes

/-- The bytes of a text are read as that text. -/
@[simp] theorem text?_toByteArray (text : String) : text? text.toByteArray = some text := by
  simp [text?, String.fromUTF8?, text.isValidUTF8, String.fromUTF8]

/-- Only the bytes of a text are read as that text. -/
theorem toByteArray_of_text? {bytes : ByteArray} {text : String} (read : text? bytes = some text) :
    text.toByteArray = bytes := by
  rw [text?, String.fromUTF8?] at read
  split at read
  · obtain rfl := Option.some.inj read
    rfl
  · cases read

end Relink.Utf8
