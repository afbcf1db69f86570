/-
# Markdown blocks

Key definitions: `Attribute`, `Phrase`, `Block`.
-/
import Formulary.Failure
import Formulary.Markdown.Inline

namespace Formulary

/-- The value of a block's attribute, if it has one. -/
inductive Attribute
  | absent
  | flag (b : Bool)
  | number (n : Int)
  | word (s : Text)
  /-- A value of another kind, which may be empty. -/
  | other (kind : ValueKind) (empty : Bool)
deriving DecidableEq, Repr, Inhabited

namespace Attribute

/-- Whether an attribute says anything: it is there and not false, zero or
empty. -/
def isSet : Attribute → Bool
  | absent => false
  | flag b => b
  | number n => n != 0
  | word s => s != []
  | other _ empty => !empty

/-- The number that an attribute gives; one that is not there gives one. -/
def toNumber : Attribute → Except Failure Int
  | absent => .ok 1
  | flag b => .ok (if b then 1 else 0)
  | number n => .ok n
  | word s => (Numeral.read s).mapError (.notNumber s)
  | other kind _ => .error (.notNumeric kind)

end Attribute

/-- The inline content of a block: its nodes, or the text it has as its own
or as its source if it has not been lexed. -/
structure Phrase where
  children : List Inline
  text : Text
  raw : Text
deriving Repr, Inhabited

/-- The text of a phrase that has not been lexed. -/
def Phrase.source (p : Phrase) : Text := if p.text = [] then p.raw else p.text

/-- A block of Markdown. -/
inductive Block
  | heading (level : Attribute) (phrase : Phrase)
  | paragraph (phrase : Phrase)
  /-- The text of an item in a list without blank lines. -/
  | blockText (phrase : Phrase)
  | list (ordered start : Attribute) (children : List Block)
  | item (children : List Block)
  | rule
  | code (raw : Text)
  /-- Any other block, which gives nothing. -/
  | other
deriving Repr, Inhabited

end Formulary
