/-
# What is noted while a document is read

A document that is not well formed is refused at once. Less serious faults
are reported, and reading goes on. In the end a document counts as read if
the last report was no more than a warning.

The same record keeps what must be remembered on the way: how many namespace
declarations there were, which names for elements have been given, which
entities have been read, and how much text entities have brought.

Key definitions: `Xml.Severity`, `Xml.Progress`, `Xml.Progress.report`, `Xml.Progress.spend?`,
`Xml.Progress.accepts`, `Xml.Reading`.
-/
import Formulary.Text.Utf8
import Formulary.Xml.Tree

namespace Formulary
namespace Xml

/-- How serious a fault is that does not stop the reading. -/
inductive Severity
  | warning | error
deriving DecidableEq, Repr, Inhabited

/-- What has been noted so far. The latest report comes first. -/
structure Progress where
  reports : List Severity
  bindings : Nat
  ids : List Text
  opened : List Text
  spent : Nat
deriving DecidableEq, Repr, Inhabited

namespace Progress

/-- Nothing has been read yet. -/
def start : Progress := ⟨[], 0, [], [], 0⟩

/-- The most reports of one kind that are kept. -/
def maxReports : Nat := 100

/-- Adds a report. Beyond a number of reports of its kind it is dropped. -/
def report (s : Severity) (p : Progress) : Progress :=
  if p.reports.count s < maxReports then { p with reports := s :: p.reports } else p

/-- The most text that entities may bring into a document, in bytes. -/
def maxSpent : Nat := 1000000

/-- What each use of an entity costs besides its text. -/
def useCost : Nat := 20

/-- Counts the text of an entity, which fails once there is too much. -/
def spend? (s : Text) (p : Progress) : Option Progress :=
  if p.spent + Text.byteLength s + useCost ≤ maxSpent then
    some { p with spent := p.spent + Text.byteLength s + useCost }
  else none

/-- Whether a document with these reports counts as read. -/
def accepts (p : Progress) : Bool := p.reports.head? != some .error

end Progress

/-- A step of reading. It fails where the document is not well formed. -/
abbrev Reading := StateT Progress Option

namespace Reading

/-- Adds a report. -/
def report (s : Severity) : Reading Unit := modify (Progress.report s)

/-- Adds a report if a fault is there. -/
def reportIf (fault : Bool) (s : Severity) : Reading Unit := if fault then report s else pure ()

/-- Counts the text of an entity. -/
def spend (s : Text) : Reading Unit := fun p => (p.spend? s).map fun q => ((), q)

/-- A new declaration. -/
def declare (pre uri : Text) : Reading Binding := fun p =>
  some (⟨p.bindings + 1, pre, uri⟩, { p with bindings := p.bindings + 1 })

end Reading
end Xml
end Formulary
