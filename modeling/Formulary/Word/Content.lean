/-
# The content of a Word document

A paragraph of WordprocessingML has properties and a list of runs and
formulas. The types here hold what this library writes, and `Word.Item.node`
and `Word.Paragraph.node` give the XML of it.

Key definitions: `Word.Piece`, `Word.pieces`, `Word.RunProps`, `Word.Run`,
`Word.ParagraphProps`, `Word.Paragraph`, `Word.Paragraph.node`.
-/
import Formulary.Formula.Omml
import Formulary.Text.Decimal

namespace Formulary
namespace Word

/-! ### Elements -/

/-- The declaration of WordprocessingML, which a document makes at its root. -/
def binding : Xml.Binding := ⟨1, "w".toList, Omml.wordUri⟩

/-- A name in the namespace of WordprocessingML. -/
def name (loc : String) : Xml.Name := ⟨some binding, loc.toList⟩

/-- An attribute in the namespace of WordprocessingML. -/
def attr (loc : String) (value : Text) : Xml.Attr := ⟨name loc, value⟩

/-- An element in the namespace of WordprocessingML. -/
def element (loc : String) (attrs : List Xml.Attr) (children : List Xml.Node) : Xml.Node :=
  .element ⟨name loc, [], attrs⟩ children

/-- An element that only holds a value. -/
def valued (loc : String) (value : Text) : Xml.Node := element loc [attr "val" value] []

/-! ### Runs -/

/-- A part of a run: text, a tab or a line break. -/
inductive Piece
  | text (s : Text)
  | tab
  | lineBreak
deriving DecidableEq, Repr, Inhabited

/-- Characters that a run writes as text. -/
def isTextual (c : Char) : Bool := c != '\t' && c != '\n' && c != '\r'

/-- The parts of a text: tabs and line ends are parts of their own, and a
stretch between them is text. -/
def pieces : Text → List Piece
  | [] => []
  | '\t' :: s => .tab :: pieces s
  | '\n' :: s => .lineBreak :: pieces s
  | '\r' :: s => .lineBreak :: pieces s
  | c :: s => .text (c :: s.takeWhile isTextual) :: pieces (s.dropWhile isTextual)
termination_by s => s.length
decreasing_by
  · simp
  · simp
  · simp
  · have := Text.length_dropWhile_le isTextual s
    simp only [List.length_cons]
    omega

/-- Whether a part can be written: text has to be legal XML. -/
def Piece.isLegal : Piece → Bool
  | .text s => Xml.isLegal s
  | _ => true

/-- The XML of a part. Text with blanks at its ends asks for them to be kept. -/
def Piece.node : Piece → Xml.Node
  | .text s =>
    element "t"
      (if Text.strip s = s then [] else
        [⟨⟨some .xml, "space".toList⟩, "preserve".toList⟩])
      [.text s]
  | .tab => element "tab" [] []
  | .lineBreak => element "br" [] []

/-- The fonts of a run: a named font, which may be set for East Asian text as
well, or an entry that was made for a name it could not take. -/
inductive Fonts
  | named (font : Text) (eastAsian : Bool)
  | unnamed
deriving DecidableEq, Repr, Inhabited

/-- The properties of a run. -/
structure RunProps where
  fonts : Option Fonts
  bold : Bool
  italic : Bool
deriving DecidableEq, Repr, Inhabited

/-- The properties of a run that has none. -/
def RunProps.none : RunProps := ⟨.none, false, false⟩

/-- The XML of the fonts of a run. -/
def Fonts.node : Fonts → Xml.Node
  | .named font eastAsian =>
    element "rFonts"
      ([attr "ascii" font, attr "hAnsi" font] ++ if eastAsian then [attr "eastAsia" font] else [])
      []
  | .unnamed => element "rFonts" [] []

/-- The XML of run properties: fonts, bold, italics, in this order. -/
def RunProps.nodes (p : RunProps) : List Xml.Node :=
  (p.fonts.map Fonts.node).toList ++ (if p.bold then [element "b" [] []] else []) ++
    if p.italic then [element "i" [] []] else []

/-- A run of text. -/
structure Run where
  props : RunProps
  pieces : List Piece
deriving DecidableEq, Repr, Inhabited

/-- The XML of properties, or nothing where there are none. -/
def propsNode (loc : String) (ns : List Xml.Node) : List Xml.Node :=
  if ns.isEmpty then [] else [element loc [] ns]

/-- The XML of a run. -/
def Run.node (r : Run) : Xml.Node :=
  element "r" [] (propsNode "rPr" r.props.nodes ++ r.pieces.map Piece.node)

/-! ### Paragraphs -/

/-- A part of a paragraph: a run, or a formula as it was read. -/
inductive Item
  | run (r : Run)
  | formula (e : Xml.Element)
deriving Repr, Inhabited

/-- The XML of a part of a paragraph. -/
def Item.node : Item → Xml.Node
  | .run r => r.node
  | .formula e => e.node

/-- The place of a paragraph in a list: its level and its numbering. Where one
of them could not be written, an empty entry is the last there is. -/
inductive ListPlace
  | whole (level num : Int)
  | noLevel
  | noNum (level : Int)
deriving DecidableEq, Repr, Inhabited

/-- The properties of a paragraph. -/
structure ParagraphProps where
  style : Option Text
  place : Option ListPlace
  ruled : Bool
  centered : Bool
deriving DecidableEq, Repr, Inhabited

/-- The properties of a paragraph that has none. -/
def ParagraphProps.none : ParagraphProps := ⟨.none, .none, false, false⟩

/-- The XML of a place in a list. -/
def ListPlace.node : ListPlace → Xml.Node
  | .whole level num =>
    element "numPr" [] [valued "ilvl" (Text.ofInt level), valued "numId" (Text.ofInt num)]
  | .noLevel => element "numPr" [] [element "ilvl" [] []]
  | .noNum level =>
    element "numPr" [] [valued "ilvl" (Text.ofInt level), element "numId" [] []]

/-- The XML of a line under a paragraph. -/
def borderNode : Xml.Node :=
  element "pBdr" []
    [element "bottom"
      [attr "val" "single".toList, attr "sz" "6".toList, attr "space" "1".toList,
        attr "color" "000000".toList] []]

/-- The XML of paragraph properties, in the order in which they are written. -/
def ParagraphProps.nodes (p : ParagraphProps) : List Xml.Node :=
  (p.style.map (valued "pStyle")).toList ++ (p.place.map ListPlace.node).toList ++
    (if p.ruled then [borderNode] else []) ++
    if p.centered then [valued "jc" "center".toList] else []

/-- A paragraph. -/
structure Paragraph where
  props : ParagraphProps
  items : List Item
deriving Repr, Inhabited

/-- The XML of a paragraph. -/
def Paragraph.node (p : Paragraph) : Xml.Node :=
  element "p" [] (propsNode "pPr" p.props.nodes ++ p.items.map Item.node)

end Word
end Formulary
