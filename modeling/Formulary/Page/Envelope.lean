/-
# HTML for Word

Word takes a whole HTML document with OMML formulas in it.

Key definitions: `envelope`, `wordPage`.
-/
import Formulary.Page.Weave

namespace Formulary

/-- The HTML document around a body. The title is text, the body markup. -/
def envelope (title body : Text) : Text :=
  "<!DOCTYPE html><html xmlns:m=\"".toList ++ Html.escape .decimal Omml.uri ++
    "\"><head><meta charset=\"UTF-8\"><title>".toList ++ Html.escape .decimal title ++
    "</title></head><body>".toList ++ body ++ "</body></html>".toList

/-- The markup of a formula for Word. -/
def wordMarkup (f : Formula) : Text :=
  if f.display then enclose "div" f.markup.omml else f.markup.omml

/-- The HTML document for Word. -/
def wordPage (cv : Converters) (title : Text) (ts : List Token) : Except Failure Woven :=
  (weave cv wordMarkup ts).map fun w => { w with page := envelope title w.page }

end Formulary
