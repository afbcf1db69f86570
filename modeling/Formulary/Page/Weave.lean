/-
# Weaving formulas into HTML

Markdown renders the text with placeholders; each placeholder is then
replaced by the markup of its formula, one formula after another.

Key definitions: `Woven`, `weaveInto`, `weave`, `previewPage`.
-/
import Formulary.Token.Placeholder

namespace Formulary

/-- A page, and what was noted while it was made. -/
structure Woven where
  page : Text
  notes : List Text
deriving DecidableEq, Repr, Inhabited

/-- The note on a formula that does not stand in the page exactly once. -/
def occurrenceNote (id : Text) (n : Nat) : Text :=
  "Placeholder for ".toList ++ id ++ " occurs ".toList ++ Text.ofNat n ++
    " times in rendered HTML".toList

/-- Replaces the placeholder of one formula. -/
def weaveOne (replacer : Formula → Text) (w : Woven) (f : Formula) : Woven :=
  let n := Text.count (placeholder f.id) w.page
  ⟨Text.replaceAll (placeholder f.id) (replacer f) w.page,
    if n = 1 then w.notes else w.notes ++ [occurrenceNote f.id n]⟩

/-- Replaces the placeholders in a page, formula by formula. -/
def weaveInto (replacer : Formula → Text) (fs : List Formula) (page : Text) : Woven :=
  fs.foldl (weaveOne replacer) ⟨page, []⟩

/-- Renders a token list as HTML, with the formulas put in by `replacer`. -/
def weave (cv : Converters) (replacer : Formula → Text) (ts : List Token) :
    Except Failure Woven :=
  (cv.html (combine ts)).map (weaveInto replacer (formulas ts))

/-- Puts text between the tags of an element without attributes. -/
def enclose (tag : String) (s : Text) : Text :=
  '<' :: tag.toList ++ ['>'] ++ s ++ "</".toList ++ tag.toList ++ ['>']

/-- The markup of a formula on screen. -/
def screenMarkup (f : Formula) : Text :=
  if f.display then enclose "div" f.markup.preview else enclose "span" f.markup.preview

/-- The preview of a document, as an HTML fragment. -/
def previewPage (cv : Converters) (ts : List Token) : Except Failure Woven :=
  weave cv screenMarkup ts

end Formulary
