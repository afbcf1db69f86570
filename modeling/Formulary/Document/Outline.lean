/-
# The outline of a document

Walking the blocks fixes which paragraphs a document has, in which order, and
which list each item belongs to; lists are numbered from one in the order in
which they open. What the paragraphs say is filled in afterwards.

Key definitions: `Entry`, `Block.lists`, `Block.entries`, `outline`.
-/
import Formulary.Document.Run
import Formulary.Markdown.Block

namespace Formulary

/-- A paragraph to be made, a code block, which makes one paragraph a line, or
a fault. -/
inductive Entry
  | heading (level : Int) (phrase : Phrase)
  | body (phrase : Phrase)
  | item (marker : Marker) (phrases : List Phrase)
  | rule
  | code (raw : Text)
  /-- A place where the document cannot be made. -/
  | fault (why : Failure)
deriving Repr, Inhabited

/-- The level of a heading: the one given, at most six. -/
def headingLevel (level : Attribute) : Except Failure Int := level.toNumber.map fun n => min n 6

/-- The number that a list starts from. -/
def listStart (start : Attribute) : Except Failure Int :=
  if start.isSet then start.toNumber else .ok 1

/-- The entries of a list, given its start; a single fault if there is none. -/
def startingFrom (entries : Int → List Entry) : Except Failure Int → List Entry
  | .ok start => entries start
  | .error e => [.fault e]

/-- The inline contents of a list item. -/
def itemPhrases : List Block → List Phrase
  | [] => []
  | .paragraph p :: bs => p :: itemPhrases bs
  | .blockText p :: bs => p :: itemPhrases bs
  | _ :: bs => itemPhrases bs

mutual
/-- The number of lists that a block opens, those nested in it included. -/
def Block.lists : Block → Nat
  | .list _ _ bs => 1 + itemLists bs
  | _ => 0
/-- The number of lists nested in the items of a list. -/
def itemLists : List Block → Nat
  | [] => 0
  | .item bs :: rest => nestedLists bs + itemLists rest
  | _ :: rest => itemLists rest
/-- The number of lists nested in one item. -/
def nestedLists : List Block → Nat
  | [] => 0
  | b :: bs => b.lists + nestedLists bs
end

mutual
/-- The entries of a list at some depth, when `used` lists have opened before
it. Blocks that are no list have none. -/
def Block.listEntries (level : Int) (used : Nat) : Block → List Entry
  | .list ordered start bs =>
    startingFrom
      (fun start => itemEntries ⟨ordered.isSet, level, (used : Int) + 1, start⟩ (used + 1) bs)
      (listStart start)
  | _ => []
/-- The entries of a list's items, when `used` lists have opened before them. -/
def itemEntries (marker : Marker) (used : Nat) : List Block → List Entry
  | [] => []
  | .item bs :: rest =>
    .item marker (itemPhrases bs) :: nestedEntries (marker.level + 1) used bs ++
      itemEntries marker (used + nestedLists bs) rest
  | _ :: rest => itemEntries marker used rest
/-- The entries of the lists and code blocks in an item, after its own. -/
def nestedEntries (level : Int) (used : Nat) : List Block → List Entry
  | [] => []
  | .code raw :: bs => .code raw :: nestedEntries level used bs
  | b :: bs => b.listEntries level used ++ nestedEntries level (used + b.lists) bs
end

/-- The entries of a block that is in no list. -/
def Block.entries (used : Nat) : Block → List Entry
  | .heading level p =>
    match headingLevel level with
    | .ok n => [.heading n p]
    | .error e => [.fault e]
  | .paragraph p => [.body p]
  | .rule => [.rule]
  | .code raw => [.code raw]
  | b => b.listEntries 0 used

/-- The entries of a list of blocks, when `used` lists have opened before
them. -/
def entriesFrom (used : Nat) : List Block → List Entry
  | [] => []
  | b :: bs => b.entries used ++ entriesFrom (used + b.lists) bs

/-- The entries of a document. -/
def outline (bs : List Block) : List Entry := entriesFrom 0 bs

end Formulary
