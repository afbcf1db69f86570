/-
# Text with asterisks

Asterisks that Markdown has left in a text still switch styles: two of them
bold, one italics.

Key definition: `styledRuns`.
-/
import Formulary.Document.Run

namespace Formulary

/-- Characters that are not a style marker. -/
def isUnmarked (c : Char) : Bool := c != '*'

/-- The runs of a text with literal markers, starting in a style. Markers give
no text, and each stretch between them is a run in the style that holds
there. -/
def styledRuns (style : Style) : Text → List Run
  | [] => []
  | '*' :: '*' :: s => styledRuns style.toggleBold s
  | '*' :: s => styledRuns style.toggleItalic s
  | c :: s => .text (c :: s.takeWhile isUnmarked) style :: styledRuns style (s.dropWhile isUnmarked)
termination_by s => s.length
decreasing_by
  · simp only [List.length_cons]
    omega
  · simp
  · have := Text.length_dropWhile_le isUnmarked s
    simp only [List.length_cons]
    omega

end Formulary
