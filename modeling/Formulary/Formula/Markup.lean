/-
# The markup of a formula

Each formula is converted once into the three forms that the outputs need.
Every step falls back to readable text, so a formula that cannot be converted
does not keep a document from being made, unless it has to be written in
bytes and cannot.

Key definitions: `FormulaForms`, `tryFormula`, `renderFormula`, `mathmlOf`, `ommlOf`,
`convertFormula`, `Markup`, `markupOf`.
-/
import Formulary.Converters
import Formulary.Formula.MathMl
import Formulary.Formula.Omml

namespace Formulary

/-- The forms of one formula. -/
structure FormulaForms where
  preview : LooseText
  mathml : LooseText
  omml : LooseText
deriving DecidableEq, Repr, Inhabited

section Forms

variable (fc : FormulaConverters)

/-- The MathML of a formula and its preview, if both can be made; if not, why. -/
def tryFormula (latex : LooseText) (display : Bool) : Except LooseText (LooseText × LooseText) := do
  let mathml ← fc.mathml latex display
  let preview ← (MathMl.preview mathml latex display).mapError fun e =>
    .ofText (e.message (fc.report mathml.mask))
  pure (mathml, .ofText preview)

/-- The preview of a formula, or its readable text with the reason. -/
def renderFormula (latex : LooseText) (display : Bool) : LooseText :=
  match tryFormula fc latex display with
  | .ok p => p.2
  | .error why => errorSpan latex why

/-- The MathML of a formula, or its readable text as MathML. -/
def mathmlOf (latex : LooseText) (display : Bool) : LooseText :=
  match fc.mathml latex display with
  | .ok m => m
  | .error _ => MathMl.errorDocument latex display

/-- The fragment that stands for MathML without an OMML form: one run with
its text. -/
def plainFragment (text : Text) : Text :=
  "<m:oMath xmlns:m=\"".toList ++ Omml.uri ++ "\"><m:r><m:t>".toList ++
    Html.escape .plain text ++ "</m:t></m:r></m:oMath>".toList

/-- The converter's answer without an XML declaration and blanks around it;
empty if there is none. -/
def ommlAnswer (mathml : LooseText) : LooseText :=
  match fc.omml mathml with
  | .ok s => s.lift fun t => Text.strip (Omml.dropDeclaration t)
  | .error _ => []

/-- A fragment with its boxes opened; one that is not well formed stays as it
is. To be read it is needed as bytes. -/
def openedFragment (s : LooseText) : Except Failure LooseText := do
  let fragment ← (s.lift Omml.complete).toText
  match Xml.parse? .faithful fragment with
  | some e => pure (.ofText (Omml.openBoxes e).print)
  | none => pure s

/-- The OMML fragment for a MathML document. -/
def ommlOf (mathml : LooseText) : Except Failure LooseText :=
  if ommlAnswer fc mathml = [] then do
    let document ← mathml.toText
    let text ← MathMl.text document
    pure (.ofText (plainFragment text))
  else openedFragment (ommlAnswer fc mathml)

/-- The MathML of a formula and its preview, or what stands for them. -/
def startingForms (latex : LooseText) (display : Bool) : LooseText × LooseText :=
  match tryFormula fc latex display with
  | .ok p => p
  | .error why => (MathMl.errorDocument latex display, errorSpan latex why)

/-- All forms of one formula. Preview and OMML start from the same MathML. -/
def convertFormula (latex : LooseText) (display : Bool) : Except Failure FormulaForms := do
  let (mathml, preview) := startingForms fc latex display
  let omml ← ommlOf fc mathml
  pure ⟨preview, mathml, omml⟩

end Forms

/-- The forms of a formula whose source holds characters only. -/
structure Markup where
  preview : Text
  mathml : Text
  omml : Text
deriving DecidableEq, Repr, Inhabited

/-- The forms as texts. -/
def FormulaForms.mask (f : FormulaForms) : Markup := ⟨f.preview.mask, f.mathml.mask, f.omml.mask⟩

/-- All forms of a formula whose source holds characters only. They can always
be made, since all the halves that the converters see are in the source. -/
def markupOf (cv : Converters) (latex : Text) (display : Bool) : Markup :=
  match convertFormula cv.formulas (.ofText latex) display with
  | .ok f => f.mask
  | .error _ => default

end Formulary
