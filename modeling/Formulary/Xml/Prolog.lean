/-
# The start of a document

A document starts with what says how it is written: the first bytes tell some
encodings apart, and an XML declaration may name one. After that, comments and
instructions may come before and after a document type declaration.

A text that is decoded already is taken as it is. Otherwise it stands for its
bytes in UTF-8, and a declared encoding gives these another meaning.

Key definitions: `Xml.Heading`, `Xml.Scan.heading`, `Xml.sniff?`, `Xml.decodeAs?`,
`Xml.Prolog`, `Xml.prolog?`.
-/
import Formulary.Text.Alphabet
import Formulary.Text.Wide
import Formulary.Xml.Definitions

namespace Formulary
namespace Xml

/-- What an XML declaration says: an encoding, and whether the document
stands alone. -/
structure Heading where
  encoding : Option Text
  standalone : Bool
deriving DecidableEq, Repr, Inhabited

/-! ### The declaration -/

/-- Whether a text is a version: a digit, a stop and digits. The first digit
has to be a one. -/
def isVersion : Text → Bool
  | c :: '.' :: s => c == '1' && s.all Char.isDigit
  | _ => false

/-- Whether a text is the name of an encoding. -/
def isEncodingName : Text → Bool
  | c :: s => c.isAlpha && s.all fun d => d.isAlphanum || "._-".toList.contains d
  | [] => false

namespace Scan

/-- The value of a word of the declaration, after the word. -/
def setting : Scan Text := do
  let _ ← blanks
  literal "="
  let _ ← blanks
  quoted

/-- An XML declaration, after its first word. White space parts the settings. -/
def heading : Scan Heading := do
  blank
  literal "version"
  guard (isVersion (← setting))
  let spaced ← blanks
  let (encoding, spaced) ← if ← accept "encoding" then do
      guard spaced
      let e ← setting
      guard (isEncodingName e)
      let again ← blanks
      pure (some e, again)
    else pure (none, spaced)
  let standalone ← if ← accept "standalone" then do
      guard spaced
      let v ← setting
      guard (v = "yes".toList ∨ v = "no".toList)
      let _ ← blanks
      pure (v == "yes".toList)
    else pure false
  literal "?>"
  pure ⟨encoding, standalone⟩

/-- What the declaration at the start of a document says, if there is one. -/
def optionalHeading : Scan Heading := do
  let s ← rest
  match Text.after? "<?xml".toList s with
  | some (c :: _) =>
    if isSpace c then do
      literal "<?xml"
      heading
    else pure ⟨none, false⟩
  | _ => pure ⟨none, false⟩

end Scan

/-! ### Encodings -/

/-- The encoding of sixteen or thirty-two bits that a document starts in. -/
def wideStart? : List UInt8 → Option Wide
  | 0x00 :: 0x00 :: 0x00 :: 0x3C :: _ => some ⟨true, true⟩
  | 0x3C :: 0x00 :: 0x00 :: 0x00 :: _ => some ⟨true, false⟩
  | 0x00 :: 0x3C :: 0x00 :: 0x3F :: _ => some ⟨false, true⟩
  | 0x3C :: 0x00 :: 0x3F :: 0x00 :: _ => some ⟨false, false⟩
  | _ => none

/-- The text that the first bytes of a document say, and whether they settle
its encoding: so does a byte order mark. -/
def sniff? (s : Text) : Option (Text × Bool) :=
  match s with
  | '\uFEFF' :: r => some (r, true)
  | _ =>
    match wideStart? (Text.utf8 (s.take 4)) with
    | some w => (w.decode? none (Text.utf8 s)).map fun t => (t, true)
    | none => some (s, false)

/-- The text in a named encoding of what is taken for UTF-8. -/
def decodeAs? (name s : Text) : Option Text :=
  let n := name.map Char.toLower
  if n = "utf-8".toList ∨ n = "utf8".toList then some s
  else (CodePage.ofName? name).bind fun page => page.decode? (Text.utf8 s)

/-! ### Up to the root -/

/-- The start of a document: whether it stands alone, the comments and
instructions in front of the document type declaration, and this declaration. -/
structure Prolog where
  standalone : Bool
  asides : List Token
  doctype : Option Doctype
deriving DecidableEq, Repr, Inhabited

namespace Scan

/-- Whether no white space, comment or instruction comes next. -/
def atMatter (s : Text) : Bool :=
  !(s.head?.any isSpace || "<!--".toList.isPrefixOf s || "<?".toList.isPrefixOf s)

/-- A comment, an instruction, or nothing for white space. -/
def asideToken : Scan (Option Token) := do
  if ← blanks then pure none
  else if ← accept "<!--" then some <$> (comment? : Scan Token)
  else do
    literal "<?"
    some <$> (instruction? : Scan Token)

/-- The start of a document after an XML declaration. -/
def prologAfter (standalone : Bool) : Scan Prolog := do
  let asides ← untilDone atMatter asideToken
  let t ← if ← accept "<!DOCTYPE" then some <$> doctype else pure none
  pure ⟨standalone, asides.filterMap id, t⟩

end Scan

/-- The start of a document, and what follows it. -/
def prolog? (manner : Manner) (s : Text) : Option (Prolog × Text) := do
  let (t, isSettled) ← match manner with
    | .faithful => sniff? s
    | .compact => some (Text.dropMark s, true)
  let (h, r) ← Scan.optionalHeading t
  let body ← match h.encoding with
    | some e => if isSettled then some r else decodeAs? e r
    | none => some r
  Scan.prologAfter h.standalone body

end Xml
end Formulary
