/-
# Texts as they are shown in messages

A text is shown between quotation marks, with an escape for each character
that cannot be seen.

Key definitions: `Text.isVisible`, `Text.quoted`.
-/
import Formulary.Text.Basic

namespace Formulary
namespace Text

/-- The ranges of characters that are not shown: controls, separators, format
characters, and codes that are no characters or are for private use. -/
def hiddenRanges : List (Nat × Nat) :=
  [(0x0, 0x1F), (0x7F, 0xA0), (0xAD, 0xAD), (0x600, 0x605), (0x61C, 0x61C), (0x6DD, 0x6DD),
   (0x70F, 0x70F), (0x890, 0x891), (0x8E2, 0x8E2), (0x1680, 0x1680), (0x180E, 0x180E),
   (0x2000, 0x200F), (0x2028, 0x202F), (0x205F, 0x206F), (0x3000, 0x3000), (0xD800, 0xF8FF),
   (0xFDD0, 0xFDEF), (0xFEFF, 0xFEFF), (0xFFF0, 0xFFFB), (0xFFFE, 0xFFFF), (0x110BD, 0x110BD),
   (0x110CD, 0x110CD), (0x13430, 0x1343F), (0x1BCA0, 0x1BCA3), (0x1D173, 0x1D17A),
   (0x1FFFE, 0x1FFFF), (0x2FFFE, 0x2FFFF), (0x323B0, 0xE00FF), (0xE01F0, 0x10FFFF)]

/-- Whether a character is shown as it is. -/
def isVisible (c : Char) : Bool := hiddenRanges.all fun r => c.toNat < r.1 || r.2 < c.toNat

/-- The last `width` hexadecimal digits of a number. -/
def hex (width n : Nat) : Text :=
  (List.range width).reverse.map fun i => Nat.digitChar (n / Nat.pow 16 i % 16)

/-- A character between quotation marks. -/
def quotedChar (mark c : Char) : Text :=
  if c = mark ∨ c = '\\' then ['\\', c]
  else if c = '\n' then ['\\', 'n']
  else if c = '\r' then ['\\', 'r']
  else if c = '\t' then ['\\', 't']
  else if isVisible c then [c]
  else if c.toNat < 0x100 then '\\' :: 'x' :: hex 2 c.toNat
  else if c.toNat < 0x10000 then '\\' :: 'u' :: hex 4 c.toNat
  else '\\' :: 'U' :: hex 8 c.toNat

/-- A text between quotation marks. Single ones are used, unless the text has
single ones and no double ones. -/
def quoted (s : Text) : Text :=
  let mark := if '\'' ∈ s ∧ '"' ∉ s then '"' else '\''
  mark :: s.flatMap (quotedChar mark) ++ [mark]

end Text
end Formulary
