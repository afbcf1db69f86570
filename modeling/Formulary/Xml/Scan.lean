/-
# Scanning markup declarations

A scanner takes a part of a text and gives what the part means; it fails
where the text is not well formed. Scanners are put together in sequence, and
alternatives are told apart by what the rest of the text starts with.

Key definitions: `Xml.Scan`, `Xml.Scan.literal`, `Xml.Scan.name`, `Xml.Scan.quoted`,
`Xml.Scan.untilDone`.
-/
import Formulary.Xml.Char

namespace Formulary
namespace Xml

/-- A step that takes a part of a text. -/
abbrev Scan := StateT Text Option

namespace Scan

/-- What is left of the text. -/
def rest : Scan Text := fun s => some (s, s)

/-- Whether the rest starts with a word. -/
def sees (w : String) : Scan Bool := fun s => some ((Text.after? w.toList s).isSome, s)

/-- Takes a word. -/
def literal (w : String) : Scan Unit := fun s => (Text.after? w.toList s).map fun r => ((), r)

/-- Takes a word if the rest starts with it, and says whether it did. -/
def accept (w : String) : Scan Bool := fun s =>
  match Text.after? w.toList s with
  | some r => some (true, r)
  | none => some (false, s)

/-- Takes the characters of a kind. -/
def takeWhile (ok : Char → Bool) : Scan Text := fun s => some (s.takeWhile ok, s.dropWhile ok)

/-- Takes white space, if there is any, and says whether there was. -/
def blanks : Scan Bool := fun s => some (s.head?.any isSpace, s.dropWhile isSpace)

/-- Takes white space, of which there has to be some. -/
def blank : Scan Unit := do
  guard (← blanks)

/-- Takes what stands in front of a word, and the word. -/
def upTo (w : String) : Scan Text := Text.cut? w.toList

/-- Takes a text in quotation marks. -/
def quoted : Scan Text := do
  if ← accept "\"" then upTo "\""
  else do
    literal "'"
    upTo "'"

/-- Takes a written name. -/
def name : Scan Text := do
  let s ← takeWhile isWordChar
  guard (isName s)
  pure s

/-- Takes a word of the characters of names. -/
def nameToken : Scan Text := do
  let s ← takeWhile isWordChar
  guard (s ≠ [])
  pure s

/-- Repeats a step until the rest satisfies a condition. Each step has to
take something. -/
def untilDone {α : Type} (done : Text → Bool) (step : Scan α) (s : Text) : Option (List α × Text) :=
  if done s then some ([], s)
  else
    match step s with
    | none => none
    | some (a, r) =>
      if r.length < s.length then (untilDone done step r).map fun p => (a :: p.1, p.2) else none
termination_by s.length

end Scan
end Xml
end Formulary
