import MarkdownLinks.Text.Basic

/-! Text as bytes in UTF-8. Every text has one encoding, and decoding accepts exactly the encodings: a
byte sequence is decoded to a text if and only if it is that text encoded. -/

namespace MarkdownLinks.Utf8

/-- The bytes of a text. -/
def encode (s : Text) : List UInt8 := s.flatMap String.utf8EncodeChar

/-- The text that some bytes encode. -/
def decode? (bytes : ByteArray) : Option Text := (String.fromUTF8? bytes).map String.toList

theorem decode?_encode (s : Text) : decode? (encode s).toByteArray = some s := by
  have h : (encode s).toByteArray.IsValidUTF8 := ⟨s, rfl⟩
  have he : String.fromUTF8 (encode s).toByteArray h = String.ofList s := rfl
  simp [decode?, String.fromUTF8?, h, he]

theorem decode?_eq_some_iff {bytes : ByteArray} {s : Text} :
    decode? bytes = some s ↔ bytes = (encode s).toByteArray := by
  constructor
  · intro h
    simp only [decode?, String.fromUTF8?] at h
    split at h
    · rename_i hv
      obtain ⟨t, rfl⟩ := hv
      have ht : some (String.ofList t).toList = some s := h
      rw [String.toList_ofList, Option.some.injEq] at ht
      rw [ht]
      rfl
    · simp at h
  · rintro rfl
    exact decode?_encode s

end MarkdownLinks.Utf8
