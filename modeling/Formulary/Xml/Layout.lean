/-
# White space that only lays out markup

In the compact manner white space between tags is dropped where an element
has no text. A stretch of text is taken in pieces, since what follows a piece
decides: a piece is dropped only in front of a tag or of a line end. Plain
characters and line feeds make one piece; a line end of two characters ends
it, and so does a character beyond ASCII, after which the text is taken in
pieces of a fixed number of bytes. A document is at hand in portions, of which
the next is fetched a little before the end of the one before; where a piece
comes to the end of its portion nobody knows what follows.

An element keeps its white space from the first text on that is not dropped,
unless it says what is to be done.

Key definitions: `Xml.SpaceRule`, `Xml.Ahead`, `Xml.LayoutPiece`, `Xml.layoutPieces`,
`Xml.isLayout`.
-/
import Formulary.Text.Utf8
import Formulary.Xml.Char
import Formulary.Xml.Tree

namespace Formulary
namespace Xml

/-- What is done with white space in an element: nothing has been said, there
has been text, or an attribute asks for dropping or for keeping it. -/
inductive SpaceRule
  | unset | mixed | default | preserve
deriving DecidableEq, Repr, Inhabited

/-- The rule that holds in a new element, given the rule around it. -/
def SpaceRule.inner (r : SpaceRule) (t : Tag) : SpaceRule :=
  let outer := if r = .mixed then .unset else r
  match t.attrs.find? fun a => a.name.is xmlUri "space" with
  | some a =>
    if a.value = "preserve".toList then .preserve
    else if a.value = "default".toList then .default
    else outer
  | none => outer

/-- What follows a piece of text. -/
inductive Ahead
  | tag (isClosing : Bool)
  | lineEnd
  | other
deriving DecidableEq, Repr, Inhabited

/-- A piece of text, with its line ends written as line feeds. -/
structure LayoutPiece where
  text : Text
  ahead : Ahead
deriving DecidableEq, Repr, Inhabited

/-- Characters that are taken in at once. -/
def isPlain (c : Char) : Bool := c == '\t' || c == '\n' || (0x20 ≤ c.toNat && c.toNat < 0x80)

/-- The number of bytes that makes a piece of a text that is not plain. -/
def pieceBytes : Nat := 300

/-- A piece whose characters come last first, if there is any. -/
def pieceOf (back : Text) (ahead : Ahead) : List LayoutPiece :=
  if back = [] then [] else [⟨back.reverse, ahead⟩]

/-- What follows a piece in the middle of a text. -/
def aheadOf : Text → Ahead → Ahead
  | [], ahead => ahead
  | '\r' :: _, _ => .lineEnd
  | _, _ => .other

/-- The pieces of a text that is not plain. The characters of the piece so far
come last first. -/
def roughPieces (back : Text) (bytes : Nat) : Text → Ahead → List LayoutPiece
  | [], ahead => pieceOf back ahead
  | '\r' :: '\n' :: s, ahead => add back bytes '\n' s ahead
  | '\r' :: s, ahead => add back bytes '\n' s ahead
  | c :: s, ahead => add back bytes c s ahead
termination_by s => 2 * s.length
decreasing_by
  all_goals
    simp only [List.length_cons]
    omega
where
  /-- Takes in a character, and ends the piece if it is long enough. -/
  add (back : Text) (bytes : Nat) (c : Char) (s : Text) (ahead : Ahead) : List LayoutPiece :=
    let n := bytes + (String.utf8EncodeChar c).length
    if pieceBytes ≤ n then ⟨(c :: back).reverse, aheadOf s ahead⟩ :: roughPieces [] 0 s ahead
    else roughPieces (c :: back) n s ahead
  termination_by 2 * s.length + 1
  decreasing_by
    all_goals omega

/-- The pieces of a text. The characters of the piece so far come last first. -/
def plainPieces (back : Text) : Text → Ahead → List LayoutPiece
  | [], ahead => pieceOf back ahead
  | '\r' :: '\n' :: s, ahead =>
    pieceOf back .lineEnd ++
      (if s.head?.all isPlain then plainPieces ['\n'] s ahead
      else roughPieces [] 0 ('\n' :: s) ahead)
  | c :: s, ahead =>
    if isPlain c then plainPieces (c :: back) s ahead
    else pieceOf back (aheadOf (c :: s) ahead) ++ roughPieces [] 0 (c :: s) ahead

/-- The number of bytes of a portion. -/
def portionBytes : Nat := 4000

/-- The least number of bytes that are at hand where a stretch of text starts. -/
def reach : Nat := 250

/-- Where the portion ends that is at hand at a position. -/
def portionEnd (pos : Nat) : Nat :=
  (pos + reach + portionBytes - 1) / portionBytes * portionBytes

/-- The pieces of a stretch of text at a position. White space that goes on to
the end of a portion makes a piece there. -/
def layoutPieces (pos : Nat) (raw : Text) (ahead : Ahead) : List LayoutPiece :=
  let n := portionEnd pos - pos
  if n ≤ raw.length ∧ (raw.take n).all isSpace then
    plainPieces [] (raw.take n) .other ++ plainPieces [] (raw.drop n) ahead
  else plainPieces [] raw ahead

/-- Whether a piece of text only lays out the markup around it, given the
rule, whether the element is declared to hold elements only, and its nodes so
far, the last first. -/
def isLayout (rule : SpaceRule) (elementsOnly : Option Bool) (nodes : List Node)
    (p : LayoutPiece) : Bool :=
  rule != .preserve && rule != .mixed && p.text.all isSpace &&
    match elementsOnly with
    | some b => b
    | none =>
      (match p.ahead with
        | .tag isClosing => !(nodes.isEmpty && isClosing)
        | .lineEnd => true
        | .other => false) &&
      nodes.head?.all (fun n => !n.isText) && nodes.getLast?.all fun n => !n.isText

end Xml
end Formulary
