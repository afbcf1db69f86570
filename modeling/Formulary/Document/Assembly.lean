/-
# Assembling a document step by step

A converter keeps the paragraphs that it has made so far and counts the lists that it
has come to. Each block is added to both, and an item comes before the lists and the code
that stand in it. Converting starts both anew.

Key definitions: `Assembly`, `addList`, `addBlocks`, `Assembly.convert`.
-/
import Formulary.Document.Build

namespace Formulary

/-- A converter between two steps: the paragraphs so far, and the number of lists so far. -/
structure Assembly where
  paragraphs : List Paragraph
  lists : Nat
deriving DecidableEq, Repr, Inhabited

/-- Adds paragraphs at the end. -/
def Assembly.add (a : Assembly) (ps : List Paragraph) : Assembly :=
  { a with paragraphs := a.paragraphs ++ ps }

/-- Counts one more list. -/
def Assembly.openList (a : Assembly) : Assembly := { a with lists := a.lists + 1 }

section
variable (byId : Text → Option Formula) (lex : Text → List Inline)

/-- Adds the paragraphs of an entry. -/
def addEntry (e : Entry) (a : Assembly) : Except Failure Assembly :=
  (e.paragraphs byId lex).map a.add

mutual
/-- Adds a list at some level. Blocks that are no list add nothing. -/
def addList (level : Int) : Block → Assembly → Except Failure Assembly
  | .list ordered start bs, a => do
    let n ← listStart start
    addItems ⟨ordered.isSet, level, a.openList.lists, n⟩ bs a.openList
  | _, a => pure a
/-- Adds the items of a list. -/
def addItems (marker : Marker) : List Block → Assembly → Except Failure Assembly
  | [], a => pure a
  | .item bs :: rest, a => do
    let a ← addEntry byId lex (.item marker (itemPhrases bs)) a
    let a ← addNested (marker.level + 1) bs a
    addItems marker rest a
  | _ :: rest, a => addItems marker rest a
/-- Adds the lists and the code in an item. -/
def addNested (level : Int) : List Block → Assembly → Except Failure Assembly
  | [], a => pure a
  | .code raw :: bs, a => do
    let a ← addEntry byId lex (.code raw) a
    addNested level bs a
  | b :: bs, a => do
    let a ← addList level b a
    addNested level bs a
end

/-- Adds a block that is in no list. -/
def addBlock (b : Block) (a : Assembly) : Except Failure Assembly :=
  match b with
  | .heading level p => do
    let n ← headingLevel level
    addEntry byId lex (.heading n p) a
  | .paragraph p => addEntry byId lex (.body p) a
  | .rule => addEntry byId lex .rule a
  | .code raw => addEntry byId lex (.code raw) a
  | b => addList byId lex 0 b a

/-- Adds blocks one after another. -/
def addBlocks : List Block → Assembly → Except Failure Assembly
  | [], a => pure a
  | b :: bs, a => do
    let a ← addBlock byId lex b a
    addBlocks bs a

end

/-- Converts a token list. What the converter holds from earlier is dropped first. -/
def Assembly.convert (cv : Converters) (ts : List Token) (a : Assembly) :
    Except Failure Assembly := do
  let a := { a with paragraphs := [], lists := 0 }
  let bs ← cv.blocks (combine ts)
  addBlocks (formulaById ts) cv.lexInline bs a

end Formulary
