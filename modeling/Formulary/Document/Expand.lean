/-
# Expanding inline nodes into runs

Placeholders keep Markdown from seeing markers that stand on both sides of a
formula, so each text is lexed again once its neighbours are joined. Lexing
that only ever gives back shorter texts comes to an end; how often a text may
be lexed again is the depth, and a run of that many steps without an end is
told apart from every answer.

Key definitions: `expand`, `formulaRuns`, `leafRuns`, `textRuns`, `inlineRuns`.
-/
import Formulary.Document.Styled
import Formulary.Token.Placeholder

namespace Formulary

variable (byId : Text → Option Formula)

/-- The runs of a formula. A bare variable reads better as text. -/
def formulaRuns (style : Style) (f : Formula) : List Run :=
  if Omml.isPlain f.markup.omml then
    if Omml.text f.markup.omml = [] then [] else [.text (Omml.text f.markup.omml) style]
  else [.math f.markup.omml f.latex f.display]

/-- The runs of one part of a text. Each part starts in the style given. -/
def partRuns (style : Style) : Part → List Run
  | .literal s => styledRuns style s
  | .math f => formulaRuns style f

/-- The runs of a text that holds no more inline markup. -/
def leafRuns (style : Style) (s : Text) : List Run :=
  (splitPlaceholders byId s).flatMap (partRuns style)

/-- What a link without children shows. -/
def linkLabel (label url : Text) : Text := if label = [] then url else label

mutual
/-- The runs of a node, given those of its texts. -/
def expand (texts : Style → Text → Option (List Run)) (style : Style) :
    Inline → Option (List Run)
  | .text raw => texts style raw
  | .strong ns => expandAll texts { style with bold := true } ns
  | .emphasis ns => expandAll texts { style with italic := true } ns
  | .code raw => some [.text (restoreSource byId raw) style]
  | .lineBreak => some [.lineBreak]
  | .softBreak => some [.text [' '] style]
  | .link label url [] => texts style (linkLabel label url)
  | .link _ _ (n :: ns) => do
    let rs ← expand texts style n
    let more ← expandAll texts style ns
    pure (rs ++ more)
  | .group ns => expandAll texts style ns
/-- The runs of a list of nodes, given those of their texts. -/
def expandAll (texts : Style → Text → Option (List Run)) (style : Style) :
    List Inline → Option (List Run)
  | [] => some []
  | n :: ns => do
    let rs ← expand texts style n
    let more ← expandAll texts style ns
    pure (rs ++ more)
end

/-- The one text that nodes come to, if they are a single text node. -/
def soleText? : List Inline → Option Text
  | [.text s] => some s
  | _ => none

/-- The runs of a text that is lexed again, at most `depth` times over; none
if that is not enough. A text of asterisks alone is literal. -/
def textRuns (lex : Text → List Inline) : Nat → Style → Text → Option (List Run)
  | 0, _, _ => none
  | depth + 1, style, s =>
    if s ≠ [] ∧ s.all (· == '*') then some [.text s style]
    else
      match soleText? (mergeTexts Inline.view (lex s)) with
      | some t => some (leafRuns byId style t)
      | none =>
        expandAll byId (textRuns lex depth) style (mergeTexts Inline.view (lex s))

/-- The runs of a list of inline nodes. -/
def inlineRuns (lex : Text → List Inline) (depth : Nat) (style : Style) (ns : List Inline) :
    Option (List Run) :=
  expandAll byId (textRuns byId lex depth) style ns

end Formulary
