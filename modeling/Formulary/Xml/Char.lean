/-
# The characters of XML

Key definitions: `Xml.isChar`, `Xml.isSpace`, `Xml.isNameStart`, `Xml.isNameChar`,
`Xml.isLegal`, `Xml.isName`, `Xml.isSimpleName`, `Xml.normalizeLines`.
-/
import Formulary.Text.Basic

namespace Formulary
namespace Xml

/-- The characters that a document may hold. -/
def isChar (c : Char) : Bool :=
  let n := c.toNat
  n == 0x9 || n == 0xA || n == 0xD || (0x20 ≤ n && n ≤ 0xD7FF) || (0xE000 ≤ n && n ≤ 0xFFFD) ||
    0x10000 ≤ n

/-- A text that a document may hold. -/
def isLegal (s : Text) : Bool := s.all isChar

/-- The white space of markup. -/
def isSpace (c : Char) : Bool := c == ' ' || c == '\t' || c == '\n' || c == '\r'

/-- The characters that a name may start with, the colon apart. -/
def isNameStart (c : Char) : Bool :=
  let n := c.toNat
  c.isAlpha || c == '_' || (0xC0 ≤ n && n ≤ 0xD6) || (0xD8 ≤ n && n ≤ 0xF6) ||
    (0xF8 ≤ n && n ≤ 0x2FF) || (0x370 ≤ n && n ≤ 0x37D) || (0x37F ≤ n && n ≤ 0x1FFF) ||
    (0x200C ≤ n && n ≤ 0x200D) || (0x2070 ≤ n && n ≤ 0x218F) || (0x2C00 ≤ n && n ≤ 0x2FEF) ||
    (0x3001 ≤ n && n ≤ 0xD7FF) || (0xF900 ≤ n && n ≤ 0xFDCF) || (0xFDF0 ≤ n && n ≤ 0xFFFD) ||
    (0x10000 ≤ n && n ≤ 0xEFFFF)

/-- The characters of a name, the colon apart. -/
def isNameChar (c : Char) : Bool :=
  let n := c.toNat
  isNameStart c || c.isDigit || c == '-' || c == '.' || n == 0xB7 || (0x300 ≤ n && n ≤ 0x36F) ||
    (0x203F ≤ n && n ≤ 0x2040)

/-- The characters of a written name. -/
def isWordChar (c : Char) : Bool := c == ':' || isNameChar c

/-- The greatest length of a name. -/
def maxName : Nat := 50000

/-- A written name, in which colons may stand anywhere. -/
def isName : Text → Bool
  | [] => false
  | c :: s => (c == ':' || isNameStart c) && s.all isWordChar && s.length < maxName

/-- A name without a colon. -/
def isSimpleName : Text → Bool
  | [] => false
  | c :: s => isNameStart c && s.all isNameChar

/-- The characters of a public identifier. -/
def isPublicIdChar (c : Char) : Bool :=
  c == ' ' || c == '\n' || c == '\r' || c.isAlphanum || "-'()+,./:=?;!*#@$_%".toList.contains c

/-- The text with every line end written as a line feed. -/
def normalizeLines : Text → Text
  | [] => []
  | '\r' :: '\n' :: s => '\n' :: normalizeLines s
  | '\r' :: s => '\n' :: normalizeLines s
  | c :: s => c :: normalizeLines s

end Xml
end Formulary
