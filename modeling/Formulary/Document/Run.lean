/-
# Runs and paragraphs

A document is a list of paragraphs, and a paragraph a list of runs: text with
a style, a formula, or a line break.

Key definitions: `Style`, `Run`, `Marker`, `Kind`, `Paragraph`, `Paragraph.text`,
`Paragraph.isDisplayMath`.
-/
import Formulary.Text.Basic

namespace Formulary

/-- The style of text. -/
structure Style where
  bold : Bool
  italic : Bool
deriving DecidableEq, Repr, Inhabited

namespace Style

/-- Upright text of normal weight. -/
def plain : Style := ⟨false, false⟩

/-- The style with bold switched over. -/
def toggleBold (s : Style) : Style := { s with bold := !s.bold }

/-- The style with italics switched over. -/
def toggleItalic (s : Style) : Style := { s with italic := !s.italic }

end Style

/-- A piece of a paragraph. -/
inductive Run
  | text (s : Text) (style : Style)
  | math (omml latex : Text) (display : Bool)
  | lineBreak
deriving DecidableEq, Repr, Inhabited

/-- The text of a run that is text. -/
def Run.text? : Run → Option Text
  | .text s _ => some s
  | _ => none

/-- The list that a paragraph is an item of: whether it counts, how deep it
lies (from zero), its number among the lists of the document, and the number
it starts from. -/
structure Marker where
  ordered : Bool
  level : Int
  list : Int
  start : Int
deriving DecidableEq, Repr, Inhabited

/-- The kinds of paragraphs. -/
inductive Kind
  | heading | body | listItem | rule | preformatted
deriving DecidableEq, Repr, Inhabited

/-- A paragraph. Its heading level counts for headings only, its marker for
list items only. -/
structure Paragraph where
  kind : Kind
  runs : List Run
  headingLevel : Int
  marker : Option Marker
deriving DecidableEq, Repr, Inhabited

/-- A paragraph of a kind that needs neither level nor marker. -/
def Paragraph.of (kind : Kind) (runs : List Run) : Paragraph := ⟨kind, runs, 0, none⟩

/-- The text of a paragraph without its formulas. -/
def Paragraph.text (p : Paragraph) : Text := p.runs.flatMap fun r => r.text?.getD []

/-- Whether a paragraph is one display formula. -/
def Paragraph.isDisplayMath (p : Paragraph) : Bool :=
  match p.runs with
  | [.math _ _ display] => display
  | _ => false

end Formulary
