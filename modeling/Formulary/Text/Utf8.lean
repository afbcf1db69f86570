/-
# Texts as bytes

Key definitions: `Text.utf8`, `Text.byteLength`.
Key theorem: `Text.utf8_append`.
-/
import Formulary.Text.Basic

namespace Formulary
namespace Text

/-- The bytes of a text in UTF-8. -/
def utf8 (s : Text) : List UInt8 := s.flatMap String.utf8EncodeChar

/-- The number of bytes of a text in UTF-8. -/
def byteLength (s : Text) : Nat := (utf8 s).length

theorem utf8_append (s t : Text) : utf8 (s ++ t) = utf8 s ++ utf8 t := by
  simp [utf8]

theorem byteLength_append (s t : Text) : byteLength (s ++ t) = byteLength s + byteLength t := by
  simp [byteLength, utf8_append]

end Text
end Formulary
