/-
# HTML on the clipboard

The clipboard format for HTML is a document with a header in front. The
header gives, as byte positions in UTF-8, where the document and the fragment
in it start and end; two comments mark the fragment, which is the body of the
document.

The body is looked for in the lower-cased document, and the positions found
there are used in the document itself.

Key definitions: `Clipboard.lower`, `Clipboard.bodyRange?`, `Clipboard.wrap`,
`Clipboard.header`, `Clipboard.payload`.
-/
import Formulary.Text.Decimal
import Formulary.Text.Utf8

namespace Formulary
namespace Clipboard

/-- The mark at the start of the fragment. -/
def startMark : Text := "<!--StartFragment-->".toList

/-- The mark at the end of the fragment. -/
def endMark : Text := "<!--EndFragment-->".toList

/-- A text in lower case, as far as the letters of a body tag and the number
of characters go: of all other letters only the capital I with a dot becomes
two characters, and none becomes a letter of the tag. -/
def lower (s : Text) : Text :=
  s.flatMap fun c => if c = 'İ' then ['i', '\u0307'] else [c.toLower]

/-- Where the content of the body starts: after the first tag whose name
starts like the body's. -/
def bodyStart? (s : Text) : Option Nat :=
  match Text.cut? "<body".toList s with
  | none => none
  | some (before, r) =>
    (Text.cut? ['>'] r).map fun p => before.length + "<body".length + p.1.length + 1

/-- Where the content of the body ends: before the last closing tag. -/
def bodyEnd? (s : Text) : Option Nat := (Text.cutLast? "</body>".toList s).map (·.1.length)

/-- The positions between which the body of a document stands. -/
def bodyRange? (s : Text) : Option (Nat × Nat) :=
  match bodyStart? (lower s), bodyEnd? (lower s) with
  | some a, some b => if a ≤ b then some (a, b) else none
  | _, _ => none

/-- The document with its fragment marked. Without a body, the whole text is
the fragment of a new document. -/
def wrap (s : Text) : Text :=
  match bodyRange? s with
  | some (a, b) => s.take a ++ startMark ++ (s.take b).drop a ++ endMark ++ s.drop b
  | none =>
    "<html><body>".toList ++ startMark ++ s ++ endMark ++ "</body></html>".toList

/-- The byte position of the first occurrence of a mark. -/
def byteIndex (mark s : Text) : Nat :=
  match Text.cut? mark s with
  | some (before, _) => Text.byteLength before
  | none => 0

/-- A line of the header. -/
def headerLine (name : String) (n : Nat) : Text :=
  name.toList ++ ':' :: Text.padded 9 n ++ "\r\n".toList

/-- The header for the given positions. -/
def header (startHtml endHtml startFragment endFragment : Nat) : Text :=
  "Version:0.9\r\n".toList ++ headerLine "StartHTML" startHtml ++ headerLine "EndHTML" endHtml ++
    headerLine "StartFragment" startFragment ++ headerLine "EndFragment" endFragment

/-- The length of every header whose positions have at most nine digits. -/
def headerLength : Nat := Text.byteLength (header 0 0 0 0)

/-- What goes on the clipboard for an HTML text. -/
def payload (html : Text) : Text :=
  let doc := wrap html
  header headerLength (headerLength + Text.byteLength doc)
      (headerLength + byteIndex startMark doc + Text.byteLength startMark)
      (headerLength + byteIndex endMark doc) ++ doc

end Clipboard
end Formulary
