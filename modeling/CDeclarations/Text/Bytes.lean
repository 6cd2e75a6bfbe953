namespace CDeclarations.Text

/-- The bytes of a text when it is written out. -/
def utf8 (text : String) : List UInt8 := text.toByteArray.data.toList

/-- The text whose characters have the values of the bytes. On bytes below 128 this undoes
`utf8`. -/
def ofBytes (bytes : List UInt8) : String := String.ofList (bytes.map Char.ofUInt8)

/-- None if the bytes are not well-formed. -/
def decode? (bytes : List UInt8) : Option String := String.fromUTF8? ⟨bytes.toArray⟩

@[simp] theorem utf8_empty : utf8 "" = [] := rfl

@[simp] theorem utf8_append (a b : String) : utf8 (a ++ b) = utf8 a ++ utf8 b := by
  simp [utf8, String.toByteArray_append, ByteArray.data_append]

theorem utf8_injective {a b : String} (h : utf8 a = utf8 b) : a = b := by
  have hdata : a.toByteArray.data = b.toByteArray.data := Array.ext' h
  exact String.toByteArray_inj.mp (ByteArray.ext hdata)

theorem length_utf8 (text : String) : (utf8 text).length = text.utf8ByteSize := rfl

end CDeclarations.Text
