/-
# XML trees

An element has a tag and a list of nodes. Text is a node of its own, so the
text after an element is simply the next node; the reader never makes two
text nodes stand side by side. A name carries the declaration of the
namespace it belongs to, and with it the prefix it is written with.

Key definitions: `Xml.Binding`, `Xml.Name`, `Xml.Tag`, `Xml.Node`, `Xml.Element`,
`Xml.Node.content`, `Xml.Node.size`.
-/
import Formulary.Text.Basic

namespace Formulary
namespace Xml

/-- A namespace declaration. The empty prefix declares the default namespace.
The number tells declarations apart that say the same. -/
structure Binding where
  id : Nat
  pre : Text
  uri : Text
deriving DecidableEq, Repr, Inhabited

/-- The namespace of the prefix `xml`. -/
def xmlUri : Text := "http://www.w3.org/XML/1998/namespace".toList

/-- The declaration of the prefix `xml`, which needs not be written. -/
def Binding.xml : Binding := ⟨0, "xml".toList, xmlUri⟩

/-- A name: the declaration of its namespace, if it has one, and its local part. -/
structure Name where
  ns : Option Binding
  loc : Text
deriving DecidableEq, Repr, Inhabited

/-- The namespace of a name; empty if it has none. -/
def Name.uri (n : Name) : Text :=
  match n.ns with
  | some b => b.uri
  | none => []

/-- The prefix of a name; empty if it has none. -/
def Name.pre (n : Name) : Text :=
  match n.ns with
  | some b => b.pre
  | none => []

/-- Whether a name is the one with this local part in this namespace. -/
def Name.is (n : Name) (uri : Text) (loc : String) : Bool := n.uri == uri && n.loc == loc.toList

/-- An attribute. -/
structure Attr where
  name : Name
  value : Text
deriving DecidableEq, Repr, Inhabited

/-- What stands in a start tag. -/
structure Tag where
  name : Name
  bindings : List Binding
  attrs : List Attr
deriving DecidableEq, Repr, Inhabited

/-- A node of a document. -/
inductive Node
  | text (s : Text)
  | comment (s : Text)
  /-- An instruction; what follows its target may be missing or empty. -/
  | instruction (target : Text) (data : Option Text)
  /-- A reference to an entity that is left as it is. -/
  | reference (name : Text)
  | element (tag : Tag) (children : List Node)
deriving Repr, Inhabited

/-- An element on its own, as the root of a document. -/
structure Element where
  tag : Tag
  children : List Node
deriving Repr, Inhabited

/-- Whether a node is text. -/
def Node.isText : Node → Bool
  | .text _ => true
  | _ => false

/-- Whether a node is the element with this name. -/
def Node.isElement (uri : Text) (loc : String) : Node → Bool
  | .element t _ => t.name.is uri loc
  | _ => false

mutual
/-- The characters inside a node; only text and elements have some. -/
def Node.content : Node → Text
  | .text s => s
  | .comment _ => []
  | .instruction _ _ => []
  | .reference _ => []
  | .element _ ns => contentAll ns
/-- The characters inside a list of nodes. -/
def contentAll : List Node → Text
  | [] => []
  | n :: ns => n.content ++ contentAll ns
end

mutual
/-- The number of nodes in a node, itself among them. -/
def Node.size : Node → Nat
  | .element _ ns => sizeAll ns + 1
  | _ => 1
/-- The number of nodes in a list of nodes. -/
def sizeAll : List Node → Nat
  | [] => 0
  | n :: ns => n.size + sizeAll ns
end

/-- The characters in front of the first node that is not text. -/
def leadingText : List Node → Text
  | .text s :: ns => s ++ leadingText ns
  | _ => []

/-- The nodes without the text in front of the first other node. -/
def dropLeadingText (ns : List Node) : List Node := ns.dropWhile Node.isText

/-- The node of an element. -/
def Element.node (e : Element) : Node := .element e.tag e.children

theorem Node.size_pos (n : Node) : 0 < n.size := by
  cases n <;> simp [Node.size]

theorem sizeAll_append : ∀ ns ms : List Node, sizeAll (ns ++ ms) = sizeAll ns + sizeAll ms
  | [], ms => by simp [sizeAll]
  | n :: ns, ms => by
    simp only [List.cons_append, sizeAll, sizeAll_append ns ms]
    omega

theorem sizeAll_dropWhile_le (p : Node → Bool) : ∀ ns : List Node,
    sizeAll (ns.dropWhile p) ≤ sizeAll ns
  | [] => by simp
  | n :: ns => by
    rw [List.dropWhile_cons]
    split
    · have := sizeAll_dropWhile_le p ns
      simp only [sizeAll]
      omega
    · exact Nat.le_refl _

end Xml
end Formulary
