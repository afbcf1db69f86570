/-
# The converters that a document relies on

LaTeX, MathML and Markdown are read by converters that are not part of this
library; all it asks of them is an answer or a failure. Nor is what the XML
reader says of a text that is not well formed.

Key definitions: `FormulaConverters`, `Converters`, `Converters.lexInline`,
`Converters.formulas`.
-/
import Formulary.Markdown.Block
import Formulary.Text.Loose

namespace Formulary

/-- The converters of formulas. Sources, answers and what they say when they
give up may hold halves of pairs. -/
structure FormulaConverters where
  /-- LaTeX to MathML, as a block or inline. -/
  mathml : LooseText → Bool → Except LooseText LooseText
  /-- MathML to OMML. -/
  omml : LooseText → Except LooseText LooseText
  /-- What is said of a text that is not well formed. -/
  report : Text → Text

/-- The converters at hand. -/
structure Converters where
  /-- LaTeX to MathML, as a block or inline. -/
  mathml : Text → Bool → Except Failure Text
  /-- MathML to OMML. -/
  omml : Text → Except Failure Text
  /-- What is said of a text that is not well formed. -/
  report : Text → Text
  /-- Markdown to HTML. -/
  html : Text → Except Failure Text
  /-- Markdown to blocks. -/
  blocks : Text → Except Failure (List Block)
  /-- Inline Markdown to its nodes, if there is a lexer for it. -/
  inline : Option (Text → Except Failure (List Inline))

/-- The inline nodes of a text. -/
def Converters.lexInline (cv : Converters) (s : Text) : List Inline :=
  lexOrPlain Inline.view cv.inline s

/-- The converters of formulas among them, which are asked without halves. -/
def Converters.formulas (cv : Converters) : FormulaConverters where
  mathml s display :=
    ((cv.mathml s.mask display).mapError fun e => .ofText (e.message (cv.report s.mask))).map
      .ofText
  omml s :=
    ((cv.omml s.mask).mapError fun e => .ofText (e.message (cv.report s.mask))).map .ofText
  report := cv.report

end Formulary
