/-
# Word's mathematics markup

A formula in a Word document is an OMML fragment. Fragments come without
their declarations, so these are completed before a fragment is read.

A box that holds nothing but an expression is replaced by what the
expression holds. The boxes are visited in document order; the text right
after an opened box and the text right inside it and its expression are
dropped. What was in the box is moved in two steps: out of the document with
the box, and from there to its place.

Key definitions: `Omml.complete`, `Omml.parse?`, `Omml.element`, `Omml.opens`,
`Omml.release`, `Omml.openNodes`, `Omml.unwrap`, `Omml.isPlain`, `Omml.text`.
-/
import Formulary.Failure
import Formulary.Text.Blank
import Formulary.Xml.Move
import Formulary.Xml.Printer

namespace Formulary
namespace Omml

/-- The namespace of OMML. -/
def uri : Text := "http://schemas.openxmlformats.org/officeDocument/2006/math".toList

/-- The namespace of WordprocessingML. -/
def wordUri : Text := "http://schemas.openxmlformats.org/wordprocessingml/2006/main".toList

/-! ### Completing a fragment -/

/-- The text without an XML declaration in front, and without the blanks
around the declaration. -/
def dropDeclaration (s : Text) : Text :=
  match Text.after? "<?xml".toList (Text.stripLeft s) with
  | none => s
  | some r =>
    match Text.cut? ['>'] r with
    | some (a, rest) => if Text.endsWith '?' a then Text.stripLeft rest else s
    | none => s

/-- A namespace declaration, with the space in front of it. -/
def declaration (pre : String) (uri : Text) : Text :=
  " xmlns:".toList ++ pre.toList ++ "=\"".toList ++ uri ++ ['"']

/-- The declarations that are missing from the text in front of the first
closing bracket. -/
def missing (head : Text) : Text :=
  (if Text.contains "xmlns:m=".toList head then [] else declaration "m" uri) ++
    (if Text.contains "xmlns:w=".toList head then [] else declaration "w" wordUri)

/-- The fragment with the declarations it misses, which come last in its
first tag. -/
def complete (s : Text) : Text :=
  let t := Text.strip (dropDeclaration s)
  match Text.cut? ['>'] t with
  | none => t
  | some (head, rest) =>
    if Text.endsWith '/' head then head.dropLast ++ missing head ++ '/' :: '>' :: rest
    else head ++ missing head ++ '>' :: rest

/-- The root of a fragment, if the completed fragment is well formed. -/
def parse? (s : Text) : Option Xml.Element := Xml.parse? .faithful (complete s)

/-- Whether a text starts with blanks, the name of the setting for the
encoding, and a quoted value. -/
def isEncodingSetting (s : Text) : Bool :=
  s.head?.any Text.isBlank &&
    ((Text.after? "encoding".toList (Text.stripLeft s)).bind fun r =>
      Text.after? ['='] (Text.stripLeft r)).any fun r =>
        match Text.stripLeft r with
        | q :: v => (q == '"' || q == '\'') && v.any fun c => c == '"' || c == '\''
        | [] => false

/-- Whether an encoding is set after a first character, in front of the next
closing bracket. -/
def setsEncoding : Text → Bool
  | [] => false
  | c :: s => c != '>' && (isEncodingSetting s || setsEncoding s)

/-- Whether a text starts with an XML declaration that names an encoding. -/
def namesEncoding (s : Text) : Bool := (Text.after? "<?xml".toList s).any setsEncoding

/-- The root of a fragment as it goes into a document, without the white
space that only lays it out. -/
def element (s : Text) : Except Failure Xml.Element :=
  if namesEncoding (complete s) then .error .encodedText
  else
    match Xml.parse? .compact (complete s) with
    | some e => .ok e
    | none => .error .malformedXml

/-! ### Boxes -/

/-- Whether a node is a box that holds nothing but an expression. -/
def opens : Xml.Node → Bool
  | .element t ns =>
    t.name.is uri "box" &&
      (match ns.filter (fun n => !n.isText) with
        | [n] => n.isElement uri "e"
        | _ => false)
  | _ => false

/-- The nodes of an expression from the first that is not text. -/
def expressionNodes : Xml.Node → List Xml.Node
  | .element _ ns => Xml.dropLeadingText ns
  | _ => []

/-- What a box holds: the nodes of its expression. -/
def held : Xml.Node → List Xml.Node
  | .element _ ns => ns.flatMap expressionNodes
  | _ => []

/-- What comes to stand below the given elements in the place of a box. -/
def release (outer : List Xml.Tag) (s : Xml.Supply) (box : Xml.Node) :
    List Xml.Node × Xml.Supply :=
  let (box, s) := box.adapt [] s
  Xml.adaptEach outer s (held box)

theorem sizeAll_expressionNodes_le (n : Xml.Node) :
    Xml.sizeAll (expressionNodes n) ≤ n.size := by
  cases n with
  | element t ns =>
    have := Xml.sizeAll_dropWhile_le Xml.Node.isText ns
    simp only [expressionNodes, Xml.dropLeadingText, Xml.Node.size]
    omega
  | _ => simp [expressionNodes, Xml.sizeAll]

theorem sizeAll_flatMap_expressionNodes_le (ns : List Xml.Node) :
    Xml.sizeAll (ns.flatMap expressionNodes) ≤ Xml.sizeAll ns := by
  induction ns with
  | nil => simp
  | cons n ns ih =>
    have h := sizeAll_expressionNodes_le n
    simp only [List.flatMap_cons, Xml.sizeAll_append, Xml.sizeAll]
    omega

theorem sizeAll_held_lt (n : Xml.Node) : Xml.sizeAll (held n) < n.size := by
  cases n with
  | element t ns =>
    have := sizeAll_flatMap_expressionNodes_le ns
    simp only [held, Xml.Node.size]
    omega
  | _ => simp [held, Xml.sizeAll, Xml.Node.size]

theorem sizeAll_release_lt (outer : List Xml.Tag) (s : Xml.Supply) (box : Xml.Node) :
    Xml.sizeAll (release outer s box).1 < box.size := by
  simp only [release, Xml.size_adaptEach]
  have := sizeAll_held_lt (box.adapt [] s).1
  rwa [Xml.size_adapt] at this

/-- The nodes below the given elements with their boxes opened. The text right
after an opened box is dropped. -/
def openNodes (outer : List Xml.Tag) (s : Xml.Supply) :
    List Xml.Node → List Xml.Node × Xml.Supply
  | [] => ([], s)
  | n :: ns =>
    if opens n then
      openNodes outer (release outer s n).2 ((release outer s n).1 ++ Xml.dropLeadingText ns)
    else
      match n with
      | .element t ms =>
        let (ms, s) := openNodes (t :: outer) s ms
        let (ns, s) := openNodes outer s ns
        (.element t ms :: ns, s)
      | n =>
        let (ns, s) := openNodes outer s ns
        (n :: ns, s)
termination_by ns => Xml.sizeAll ns
decreasing_by
  · have h1 := sizeAll_release_lt outer s n
    have h2 := Xml.sizeAll_dropWhile_le Xml.Node.isText ns
    simp only [Xml.sizeAll_append, Xml.dropLeadingText, Xml.sizeAll]
    omega
  · simp only [Xml.sizeAll, Xml.Node.size]
    omega
  · simp only [Xml.sizeAll, Xml.Node.size]
    omega
  · have := Xml.Node.size_pos n
    simp only [Xml.sizeAll]
    omega

/-- The element with the boxes in it opened; it stays itself. -/
def openBoxes (e : Xml.Element) : Xml.Element :=
  { e with children := (openNodes [e.tag] e.supply e.children).1 }

/-- The fragment with its boxes opened; one that is not well formed stays as
it is. -/
def unwrap (s : Text) : Text :=
  match parse? s with
  | some e => (openBoxes e).print
  | none => s

/-! ### Plain fragments -/

/-- The elements that carry nothing but text. -/
def plainNames : List String := ["oMath", "r", "t", "rPr", "sty"]

/-- Whether a name may occur in a plain fragment: names outside OMML may. -/
def isPlainName (n : Xml.Name) : Bool :=
  n.uri != uri || plainNames.any fun w => n.loc == w.toList

mutual
/-- Whether a node holds text runs only. -/
def plainNode : Xml.Node → Bool
  | .element t ns => isPlainName t.name && plainNodes ns
  | _ => true
/-- Whether all nodes hold text runs only. -/
def plainNodes : List Xml.Node → Bool
  | [] => true
  | n :: ns => plainNode n && plainNodes ns
end

/-- Whether a fragment holds text runs only, without operators or structure. -/
def isPlain (s : Text) : Bool :=
  match parse? s with
  | some e => plainNode e.node
  | none => false

mutual
/-- The text of the text elements in a node, in document order. -/
def nodeText : Xml.Node → Text
  | .element t ns =>
    (if t.name.is uri "t" then Xml.leadingText ns else []) ++ nodesText ns
  | _ => []
/-- The text of the text elements in a list of nodes. -/
def nodesText : List Xml.Node → Text
  | [] => []
  | n :: ns => nodeText n ++ nodesText ns
end

/-- The text of a fragment; one that is not well formed has none. -/
def text (s : Text) : Text :=
  match parse? s with
  | some e => nodeText e.node
  | none => []

end Omml
end Formulary
