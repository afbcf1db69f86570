/-
# List numbering

A document keeps its numbering in one part: definitions of list formats, and
after them the numberings, each of which uses a format. This library adds
two formats, bullets and decimal numbers. All bullet lists share one
numbering; each counted list gets its own, which starts the count afresh.

Key definitions: `Word.NumberingEntry`, `Word.NumberingEntry.node`, `Word.addFormat`,
`Word.Numbering`, `Word.Numbering.setUp`, `Word.Numbering.numFor`, `Word.Numbering.place`.
-/
import Formulary.Document.Run
import Formulary.Failure
import Formulary.Word.Content

namespace Formulary
namespace Word

/-- The formats that this library adds. -/
inductive ListFormat
  | bullets | decimal
deriving DecidableEq, Repr, Inhabited

/-- Where a numbering takes up its count. -/
structure StartOverride where
  level : Int
  start : Int
deriving DecidableEq, Repr, Inhabited

/-! ### The XML of the numbering part -/

/-- The symbols of bullet lists, which take turns by level. -/
def bulletSymbol (level : Nat) : Text :=
  match level % 3 with
  | 0 => ['•']
  | 1 => ['◦']
  | _ => ['▪']

/-- What stands in front of an item: a symbol, or a number and a full stop. -/
def levelText (f : ListFormat) (level : Nat) : Text :=
  match f with
  | .bullets => bulletSymbol level
  | .decimal => '%' :: Text.ofNat (level + 1) ++ ['.']

/-- The name of a format. -/
def ListFormat.name : ListFormat → Text
  | .bullets => "bullet".toList
  | .decimal => "decimal".toList

/-- The XML of one level of a format. Each level is indented by half an inch
more, and its text hangs by a quarter. -/
def levelNode (f : ListFormat) (level : Nat) : Xml.Node :=
  element "lvl" [attr "ilvl" (Text.ofNat level)]
    [valued "start" ['1'], valued "numFmt" f.name, valued "lvlText" (levelText f level),
      valued "lvlJc" "left".toList,
      element "pPr" []
        [element "ind" [attr "left" (Text.ofNat (720 * (level + 1))),
          attr "hanging" "360".toList] []]]

/-- The levels that a format describes. -/
def maxLevels : Nat := 9

/-- The XML of a start override. -/
def StartOverride.node (o : StartOverride) : Xml.Node :=
  element "lvlOverride" [attr "ilvl" (Text.ofInt o.level)]
    [valued "startOverride" (Text.ofInt o.start)]

/-- An entry of the numbering part: a format or a numbering, with the number
it goes by and the XML of it, of which the number is the first attribute. -/
structure NumberingEntry where
  isNum : Bool
  id : Int
  /-- The number as it is written. -/
  written : Text
  attrs : List Xml.Attr
  content : List Xml.Node
deriving Repr, Inhabited

namespace NumberingEntry

/-- A format, with the levels of one of ours or without any. -/
def format (id : Int) (levels : Option ListFormat) : NumberingEntry where
  isNum := false
  id := id
  written := Text.ofInt id
  attrs := []
  content :=
    match levels with
    | none => []
    | some f =>
      valued "multiLevelType" "hybridMultilevel".toList ::
        (List.range maxLevels).map (levelNode f)

/-- A numbering, with the format it uses and where it takes up its count. -/
def num (id : Int) (uses : Option Int) (override : Option StartOverride) : NumberingEntry where
  isNum := true
  id := id
  written := Text.ofInt id
  attrs := []
  content :=
    (uses.map fun a => valued "abstractNumId" (Text.ofInt a)).toList ++
      (override.map StartOverride.node).toList

/-- The number of a format. -/
def formatId? (e : NumberingEntry) : Option Int := if e.isNum then none else some e.id

/-- The number of a numbering. -/
def numId? (e : NumberingEntry) : Option Int := if e.isNum then some e.id else none

/-- The XML of an entry. -/
def node (e : NumberingEntry) : Xml.Node :=
  element (if e.isNum then "num" else "abstractNum")
    (attr (if e.isNum then "numId" else "abstractNumId") e.written :: e.attrs) e.content

end NumberingEntry

/-! ### The numbering part -/

/-- The first number above all in a list, which is `first` if there are none. -/
def nextId (first : Int) : List Int → Int
  | [] => first
  | n :: ns => ns.foldl max n + 1

/-- Adds a format, in front of the first numbering. -/
def addFormat (es : List NumberingEntry) (e : NumberingEntry) : List NumberingEntry :=
  es.takeWhile (fun x => !x.isNum) ++ e :: es.dropWhile fun x => !x.isNum

/-- The id of the next format. -/
def nextFormat (es : List NumberingEntry) : Int := nextId 0 (es.filterMap (·.formatId?))

/-- The id of the next numbering. -/
def nextNum (es : List NumberingEntry) : Int := nextId 1 (es.filterMap (·.numId?))

/-- The numbering part of a new document. -/
def defaultNumbering : List NumberingEntry :=
  (List.range 9).map (fun i => .format (i : Int) none) ++
    [.num 1 (some 8) none, .num 2 (some 6) none, .num 3 (some 5) none, .num 4 (some 4) none,
      .num 5 (some 7) none, .num 6 (some 3) none, .num 7 (some 2) none, .num 8 (some 1) none,
      .num 9 (some 0) none]

/-! ### The lists of a document -/

/-- The level that a list of some depth is written at. -/
def writtenLevel (level : Int) : Int := min level (maxLevels - 1)

/-- Whether a number has room in the properties of a paragraph. -/
def fits (n : Int) : Bool := -2147483648 ≤ n && n ≤ 2147483647

/-- The numbering part of a document, with the ids of our formats and of the
bullets' numbering, and the numbering of each counted list that has one. -/
structure Numbering where
  entries : List NumberingEntry
  bulletFormat : Int
  decimalFormat : Int
  bulletNum : Int
  ordered : List (Int × Int)
deriving Repr, Inhabited

namespace Numbering

/-- Adds our formats and the bullets' numbering to a numbering part. -/
def setUp (es : List NumberingEntry) : Numbering :=
  let bullet := nextFormat es
  let es := addFormat (addFormat es (.format bullet (some .bullets)))
    (.format (bullet + 1) (some .decimal))
  ⟨es ++ [.num (nextNum es) (some bullet) none], bullet, bullet + 1, nextNum es, []⟩

/-- The numbering of an item's list, which is added if there is none yet. -/
def numFor (n : Numbering) (m : Marker) : Int × Numbering :=
  if m.ordered then
    match n.ordered.lookup m.list with
    | some id => (id, n)
    | none =>
      let id := nextNum n.entries
      (id, { n with
        entries := n.entries ++
          [.num id (some n.decimalFormat) (some ⟨writtenLevel m.level, m.start⟩)]
        ordered := (m.list, id) :: n.ordered })
  else (n.bulletNum, n)

/-- The place of an item in its list, and what is wrong with it if one of its
numbers does not fit. A numbering is only looked for once the level fits. -/
def place (n : Numbering) (m : Marker) : (ListPlace × Option Failure) × Numbering :=
  if fits (writtenLevel m.level) then
    let (id, n) := n.numFor m
    if fits id then ((.whole (writtenLevel m.level) id, none), n)
    else ((.noNum (writtenLevel m.level), some (.outOfRange id)), n)
  else ((.noLevel, some (.outOfRange (writtenLevel m.level))), n)

end Numbering

end Word
end Formulary
