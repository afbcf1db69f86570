/-
# Escaping for HTML

Key definitions: `Html.Quotes`, `Html.escape`.
-/
import Formulary.Text.Basic

namespace Formulary
namespace Html

/-- How the two quotation marks are written. -/
structure Quotes where
  double : Text
  single : Text

/-- Quotation marks as they are, for element content. -/
def Quotes.plain : Quotes := ⟨['"'], ['\'']⟩

/-- Quotation marks as references, for attribute values as well. -/
def Quotes.named : Quotes := ⟨"&quot;".toList, "&#x27;".toList⟩

/-- Quotation marks as decimal references, the form of the document envelope. -/
def Quotes.decimal : Quotes := ⟨"&#34;".toList, "&#39;".toList⟩

/-- The written form of one character. -/
def escapeChar (q : Quotes) (c : Char) : Text :=
  if c = '&' then "&amp;".toList
  else if c = '<' then "&lt;".toList
  else if c = '>' then "&gt;".toList
  else if c = '"' then q.double
  else if c = '\'' then q.single
  else [c]

/-- The written form of a text. -/
def escape (q : Quotes) (s : Text) : Text := s.flatMap (escapeChar q)

end Html
end Formulary
