/-
# Copying to the clipboard

A page is offered as HTML; if the clipboard refuses it, as plain text.

`Desktop` is a clipboard that has to be opened, emptied, filled and closed by
calls that can each fail. Once it has been opened it is always closed, and a
failure to close it hides what failed before.

Key definitions: `Clipboard.Outcome`, `Clipboard.copy`, `Clipboard.Call`,
`Clipboard.Desktop.set`, `Clipboard.Desktop.copy`.
-/
import Formulary.Clipboard.Fragment

namespace Formulary
namespace Clipboard

/-- How a write is noted when it fails. -/
inductive Severity
  | warning | error
deriving DecidableEq, Repr, Inhabited

/-- The forms in which a page can be offered. -/
inductive Form
  | html | text
deriving DecidableEq, Repr, Inhabited

/-- What copying did: whether it worked, the forms that were tried, and the
notes that were left. -/
structure Outcome where
  ok : Bool
  tried : List Form
  notes : List (Severity × Text)
deriving DecidableEq, Repr, Inhabited

/-- Copies a page, given how the clipboard refuses each form. -/
def copy (refuses : Form → Option Text) : Outcome :=
  match refuses .html with
  | none => ⟨true, [.html], []⟩
  | some e =>
    let note := (.warning, "Rich clipboard write failed, falling back to text: ".toList ++ e)
    match refuses .text with
    | none => ⟨true, [.html, .text], [note]⟩
    | some e' =>
      ⟨false, [.html, .text], [note, (.error, "Clipboard write failed: ".toList ++ e')]⟩

/-! ### The clipboard of the desktop -/

/-- The calls of the desktop clipboard that can fail. -/
inductive Call
  | opening | emptying | filling | closing
deriving DecidableEq, Repr, Inhabited

/-- A call that was made, with its arguments. -/
inductive Event
  | registered (format : Text)
  | opened
  | emptied
  | filled (format : Nat) (data : Text)
  | closed
deriving DecidableEq, Repr, Inhabited

/-- What a series of calls did: the calls made, and the failure it ended with. -/
structure Trace where
  events : List Event
  failure : Option Text
deriving DecidableEq, Repr, Inhabited

/-- The number of the format for Unicode text. -/
def unicodeFormat : Nat := 13

/-- The name of the format for HTML. -/
def htmlFormatName : Text := "HTML Format".toList

namespace Desktop

/-- The calls that make a clipboard ready: the HTML format is registered. -/
def prepare : List Event := [.registered htmlFormatName]

/-- Puts data on the clipboard, given how each call fails. -/
def set (fails : Call → Option Text) (format : Nat) (data : Text) : Trace :=
  match fails .opening with
  | some e => ⟨[.opened], some e⟩
  | none =>
    match fails .emptying with
    | some e => ⟨[.opened, .emptied, .closed], (fails .closing).or (some e)⟩
    | none =>
      ⟨[.opened, .emptied, .filled format data, .closed], (fails .closing).or (fails .filling)⟩

/-- Puts a page on the clipboard in one form. -/
def write (fails : Call → Option Text) (htmlFormat : Nat) (page : Text) : Form → Trace
  | .html => set fails htmlFormat (payload page)
  | .text => set fails unicodeFormat page

/-- Copies a page: what came of it, and the calls made. -/
def copy (fails : Call → Option Text) (htmlFormat : Nat) (page : Text) : Outcome × List Event :=
  let out := Clipboard.copy fun form => (write fails htmlFormat page form).failure
  (out, out.tried.flatMap fun form => (write fails htmlFormat page form).events)

end Desktop
end Clipboard
end Formulary
