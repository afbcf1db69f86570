/-
# Converting a text

The whole way from a text to its pages and to its document.

Key definitions: `Conversion`, `convertText`, `convertReport`, `documentOf`.
-/
import Formulary.Document.Build
import Formulary.Page.Envelope
import Formulary.Service.Settings

namespace Formulary

/-- A converted text. -/
structure Conversion where
  tokens : List Token
  preview : Text
  word : Text
deriving DecidableEq, Repr, Inhabited

/-- Whether a text has formulas. -/
def Conversion.hasEquations (c : Conversion) : Bool := c.tokens.any Token.isMath

/-- Converts a text into its preview and its page for Word. -/
def convertText (cv : Converters) (st : Settings) (key s : Text) : Except Failure Conversion := do
  let ts := tokenize cv key s
  let preview ← previewPage cv ts
  let word ← wordPage cv (st.title none) ts
  pure ⟨ts, preview.page, word.page⟩

/-- What is noted about a converted text. -/
def convertReport (s : Text) (c : Conversion) : Text :=
  "Converted ".toList ++ Text.ofNat s.length ++ " chars into ".toList ++
    Text.ofNat c.tokens.length ++ " tokens (equations: ".toList ++
    (if c.hasEquations then "True".toList else "False".toList) ++ [')']

/-- The Word document of a token list. -/
def documentOf (cv : Converters) (st : Settings) (ts : List Token) : Except Failure Word.Draft := do
  let ps ← buildParagraphs cv ts
  Word.document (st.fonts none none) ps

end Formulary
