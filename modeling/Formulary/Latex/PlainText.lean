/-
# Readable text for LaTeX

A best effort at showing LaTeX source to a reader: symbol commands become
their symbols, and what is left of the markup is dropped.

Key definitions: `expandSymbols`, `latexText`.
-/
import Formulary.Text.Blank
import Formulary.Latex.Symbol

namespace Formulary

/-- The text with each symbol command replaced by its symbol. A command's
name is the longest run of letters after the backslash. -/
def expandSymbols : Text → Text
  | [] => []
  | c :: s =>
    if c = '\\' then
      match symbol? (s.takeWhile Char.isAlpha) with
      | some x => x :: expandSymbols (s.dropWhile Char.isAlpha)
      | none => c :: s.takeWhile Char.isAlpha ++ expandSymbols (s.dropWhile Char.isAlpha)
    else c :: expandSymbols s
termination_by s => s.length
decreasing_by
  · have := Text.length_dropWhile_le Char.isAlpha s
    simp only [List.length_cons]
    omega
  · have := Text.length_dropWhile_le Char.isAlpha s
    simp only [List.length_cons]
    omega
  · simp

/-- The characters that are markup wherever they stand. -/
def isMarkup (c : Char) : Bool := c == '\\' || c == '{' || c == '}' || c == '^' || c == '_'

/-- The readable text of LaTeX source. -/
def latexText (s : Text) : Text := Text.strip ((expandSymbols s).filter fun c => !isMarkup c)

/-- The readable text, or the source itself where nothing readable is left. -/
def latexLabel (s : Text) : Text := if latexText s = [] then s else latexText s

end Formulary
