/-
# Building the paragraphs of a document

Key definitions: `codeLines`, `joinPhrases`, `Entry.paragraphs`, `buildParagraphs`.
-/
import Formulary.Document.Expand
import Formulary.Document.Outline

namespace Formulary

/-- How often a text may be lexed again. -/
def lexingDepth : Nat := 1000

/-- The lines of a text: the stretches between line feeds. -/
def linesOf (s : Text) : List Text := Text.pieces ['\n'] s

/-- The lines of a code block, without the line feed that may end it. -/
def codeLines (s : Text) : List Text :=
  linesOf (if Text.endsWith '\n' s then s.dropLast else s)

/-- The runs of an item, from those of its phrases: a line break stands in
front of a phrase once there is something before it. -/
def joinPhrases (rss : List (List Run)) : List Run :=
  rss.foldl (fun acc rs => if acc.isEmpty then rs else acc ++ .lineBreak :: rs) []

section
variable (byId : Text → Option Formula) (lex : Text → List Inline)

/-- The runs of a phrase. -/
def phraseRuns (p : Phrase) : Except Failure (List Run) :=
  match inlineRuns byId lex lexingDepth .plain
      (if p.children.isEmpty then lex p.source else p.children) with
  | some rs => .ok rs
  | none => .error .endlessLexing

/-- The paragraphs of an entry. -/
def Entry.paragraphs : Entry → Except Failure (List Paragraph)
  | .heading level p => (phraseRuns byId lex p).map fun rs => [⟨.heading, rs, level, none⟩]
  | .body p => (phraseRuns byId lex p).map fun rs => [.of .body rs]
  | .item marker ps =>
    (ps.mapM (phraseRuns byId lex)).map fun rss => [⟨.listItem, joinPhrases rss, 0, some marker⟩]
  | .rule => .ok [.of .rule []]
  | .code raw =>
    .ok ((codeLines (restoreSource byId raw)).map fun s => .of .preformatted [.text s .plain])
  | .fault e => .error e

/-- The paragraphs of a list of entries. -/
def entryParagraphs (es : List Entry) : Except Failure (List Paragraph) :=
  (es.mapM (Entry.paragraphs byId lex)).map List.flatten

end

/-- The paragraphs of a token list. -/
def buildParagraphs (cv : Converters) (ts : List Token) : Except Failure (List Paragraph) := do
  let bs ← cv.blocks (combine ts)
  entryParagraphs (formulaById ts) cv.lexInline (outline bs)

end Formulary
