/-
# Writing a document

Paragraphs are written one after another. A text with a character that XML
cannot hold stops the writing where it stands: what was written before it
stays, and so does the run it was to fill, with the parts before the one
that failed. A formula whose fragment cannot be read is written as text.

Key definitions: `Word.FontChoice`, `Word.Draft`, `Word.Attempt`, `Word.textRun`,
`Word.fallbackRun`, `Word.writeRun`, `Word.Draft.writeParagraph`, `Word.Draft.write`,
`Word.document`.
-/
import Formulary.Failure
import Formulary.Latex.PlainText
import Formulary.Word.Numbering

namespace Formulary
namespace Word

/-- The fonts that a document asks for. -/
structure FontChoice where
  monospace : Text
  mathFallback : Text
deriving DecidableEq, Repr, Inhabited

/-- A document while it is written: its paragraphs, and its numbering once a
list has needed it. -/
structure Draft where
  paragraphs : List Paragraph
  numbering : Option Numbering
deriving Repr, Inhabited

/-- A document without paragraphs. -/
def Draft.empty : Draft := ⟨[], none⟩

/-- The numbering of a document, set up now if it has not been. -/
def Draft.getNumbering (d : Draft) : Numbering :=
  d.numbering.getD (Numbering.setUp defaultNumbering)

/-! ### Runs -/

/-- A run that was written, and what stopped it if something did. -/
abbrev Attempt := Run × Option Failure

/-- Goes on with a run that nothing has stopped. -/
def Attempt.andThen (f : Run → Attempt) : Attempt → Attempt
  | (r, none) => f r
  | (r, some e) => (r, some e)

/-- Writes a text up to the first part of it that cannot be written. -/
def writeText (s : Text) : Attempt :=
  if (pieces s).all Piece.isLegal then (⟨.none, pieces s⟩, none)
  else (⟨.none, (pieces s).takeWhile Piece.isLegal⟩, some .illegalText)

/-- Sets the weight and slant of a run. -/
def setStyle (bold italic : Bool) (r : Run) : Attempt :=
  (⟨{ r.props with bold := bold, italic := italic }, r.pieces⟩, none)

/-- Sets the font of a run, whose name has to be legal XML. -/
def setFont (font : Text) (eastAsian : Bool) (r : Run) : Attempt :=
  if Xml.isLegal font then
    (⟨{ r.props with fonts := some (.named font eastAsian) }, r.pieces⟩, none)
  else (⟨{ r.props with fonts := some .unnamed }, r.pieces⟩, some .illegalText)

/-- Writes a text in a style; code is in the monospace font. -/
def textRun (fonts : FontChoice) (monospace : Bool) (s : Text) (style : Style) : Attempt :=
  let styled := (writeText s).andThen (setStyle style.bold style.italic)
  if monospace then styled.andThen (setFont fonts.monospace true) else styled

/-- Writes the readable text of a formula, slanted and in a font of its own. -/
def fallbackRun (fonts : FontChoice) (latex : Text) : Attempt :=
  ((writeText (latexLabel latex)).andThen (setFont fonts.mathFallback false)).andThen
    (setStyle false true)

/-- An attempt at a run, as part of a paragraph. -/
def Attempt.items (a : Attempt) : List Item × Option Failure := ([.run a.1], a.2)

/-- Writes a run. A formula whose fragment is not well formed is written as
readable text; any other fault of it leaves nothing. -/
def writeRun (fonts : FontChoice) (monospace : Bool) :
    Formulary.Run → List Item × Option Failure
  | .lineBreak => ([.run ⟨.none, [.lineBreak]⟩], none)
  | .text s style => (textRun fonts monospace s style).items
  | .math omml latex _ =>
    match Omml.element omml with
    | .ok e => ([.formula e], none)
    | .error .malformedXml => (fallbackRun fonts latex).items
    | .error e => ([], some e)

/-- Writes runs up to the first that fails. -/
def writeRuns (fonts : FontChoice) (monospace : Bool) :
    List Formulary.Run → List Item × Option Failure
  | [] => ([], none)
  | r :: rs =>
    match writeRun fonts monospace r with
    | (is, some e) => (is, some e)
    | (is, none) =>
      let (more, e) := writeRuns fonts monospace rs
      (is ++ more, e)

/-! ### Paragraphs -/

/-- The style of a paragraph. Headings go from one to six. -/
def paragraphStyle (p : Formulary.Paragraph) : Option Text :=
  match p.kind with
  | .heading => some ("Heading".toList ++ Text.ofInt (max 1 (min p.headingLevel 6)))
  | .listItem => some "ListParagraph".toList
  | _ => none

/-- The marker that counts for a paragraph. -/
def activeMarker (p : Formulary.Paragraph) : Option Marker :=
  if p.kind = .listItem then p.marker else none

/-- The place of a paragraph in its list, what is wrong with it if it cannot
be written, and the document with the numbering this needs. -/
def Draft.place (d : Draft) (p : Formulary.Paragraph) :
    (Option ListPlace × Option Failure) × Draft :=
  match activeMarker p with
  | none => ((none, none), d)
  | some m =>
    let ((place, e), n) := d.getNumbering.place m
    ((some place, e), { d with numbering := some n })

/-- Writes a paragraph. One whose place cannot be written stays without runs. -/
def Draft.writeParagraph (fonts : FontChoice) (d : Draft) (p : Formulary.Paragraph) :
    Draft × Option Failure :=
  let add := fun (d : Draft) (q : Paragraph) => { d with paragraphs := d.paragraphs ++ [q] }
  match d.place p with
  | ((place, some e), d) => (add d ⟨⟨paragraphStyle p, place, false, false⟩, []⟩, some e)
  | ((place, none), d) =>
    let (items, e) := writeRuns fonts (p.kind = .preformatted) p.runs
    (add d ⟨⟨paragraphStyle p, place, p.kind = .rule, p.isDisplayMath⟩, items⟩, e)

/-- Writes paragraphs up to the first that fails. -/
def Draft.write (fonts : FontChoice) (d : Draft) :
    List Formulary.Paragraph → Draft × Option Failure
  | [] => (d, none)
  | p :: ps =>
    match d.writeParagraph fonts p with
    | (d, some e) => (d, some e)
    | (d, none) => d.write fonts ps

/-- A finished document. -/
def document (fonts : FontChoice) (ps : List Formulary.Paragraph) : Except Failure Draft :=
  match Draft.empty.write fonts ps with
  | (d, none) => .ok d
  | (_, some e) => .error e

/-- The entries of a document's numbering part. -/
def Draft.numberingEntries (d : Draft) : List NumberingEntry :=
  match d.numbering with
  | some n => n.entries
  | none => defaultNumbering

end Word
end Formulary
