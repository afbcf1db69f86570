/-
# Moving nodes

A node that comes to stand below other elements is adapted to the
declarations there. A declaration in it is taken out if its namespace is known
outside, and the names that used it take the one outside. A name whose
declaration stays behind takes another declaration of its namespace that is
in scope; if there is none, the moved node itself declares it. An attribute
cannot use the default namespace.

Key definitions: `Xml.Supply`, `Xml.declarationOf?`, `Xml.inScope?`, `Xml.Move`,
`Xml.Move.fix`, `Xml.Node.adapt`, `Xml.adaptEach`.
Key theorem: `Xml.size_adapt`.
-/
import Formulary.Text.Decimal
import Formulary.Xml.Tree

namespace Formulary
namespace Xml

/-! ### Looking up declarations -/

/-- The declaration that a prefix has on an element. -/
def Tag.binding? (pre : Text) (t : Tag) : Option Binding := t.bindings.find? fun b => b.pre == pre

/-- The declarations that an element is sure to see: its own, and that of its
name. -/
def Tag.seen (t : Tag) : List Binding := t.bindings ++ t.name.ns.toList

/-- The declaration of a prefix for elements inside the given ones, the
innermost first; of that one only its own declarations count. -/
def declarationOf? (pre : Text) : List Tag → Option Binding
  | [] => none
  | t :: up =>
    if pre = Binding.xml.pre then some .xml
    else
      (t.binding? pre).or (up.findSome? fun u => u.seen.find? fun b => b.pre == pre)

/-- A declaration of a namespace for elements inside the given ones, the
innermost first: the nearest whose prefix is not declared again on the way.
Of the innermost element only its own declarations count. -/
def inScope? (uri : Text) : List Tag → Option Binding
  | [] => none
  | t :: up =>
    (t.bindings.find? fun b => b.uri == uri).or (above (t.bindings.map (·.pre)) up)
where
  /-- A declaration on elements further out, with the prefixes that are
  declared again. -/
  above (hidden : List Text) : List Tag → Option Binding
    | [] => none
    | t :: up =>
      (t.seen.find? fun b => b.uri == uri && !hidden.contains b.pre).or
        (above (t.bindings.map (·.pre) ++ hidden) up)

/-! ### Moving -/

/-- Numbers that are still free: for declarations, and for new prefixes. -/
structure Supply where
  id : Nat
  pre : Nat
deriving DecidableEq, Repr, Inhabited

/-- What is known while a node is moved: the declarations that stand for
others, the tag of the moved node, and the numbers that are free. -/
structure Move where
  known : List (Nat × Binding)
  start : Tag
  supply : Supply
deriving Repr, Inhabited

/-- The usual prefixes of well-known namespaces. -/
def usualPrefixes : List (String × String) :=
  [("http://www.w3.org/1999/xhtml", "html"), ("http://www.w3.org/1999/XSL/Transform", "xsl"),
   ("http://www.w3.org/1999/02/22-rdf-syntax-ns#", "rdf"),
   ("http://schemas.xmlsoap.org/wsdl/", "wsdl"), ("http://www.w3.org/2001/XMLSchema", "xs"),
   ("http://www.w3.org/2001/XMLSchema-instance", "xsi"),
   ("http://purl.org/dc/elements/1.1/", "dc")]

/-- A new prefix by its number. -/
def newPrefix (n : Nat) : Text := 'n' :: 's' :: Text.ofNat n

/-- The first number from `n` on whose prefix is not declared. -/
def freePrefix (path : List Tag) (n : Nat) : Nat :=
  let count := (path.flatMap Tag.seen).length
  (((List.range (count + 1)).map (n + ·)).find? fun i =>
    (declarationOf? (newPrefix i) path).isNone).getD n

namespace Move

/-- Takes out the declarations whose namespace is known in the given elements. -/
def strip (path : List Tag) : List Binding → Move → List Binding × Move
  | [], m => ([], m)
  | b :: bs, m =>
    match inScope? b.uri path with
    | some c => strip path bs { m with known := m.known ++ [(b.id, c)] }
    | none =>
      let (kept, m) := strip path bs { m with known := m.known ++ [(b.id, b)] }
      (b :: kept, m)

/-- The declaration that is known to stand for another. A prefix of an
attribute is not dropped. -/
def known? (isAttr : Bool) (b : Binding) (m : Move) : Option Binding :=
  (m.known.find? fun p => p.1 == b.id && !(isAttr && !b.pre.isEmpty && p.2.pre.isEmpty)).map (·.2)

/-- The first declaration of a namespace that the moved node can use. -/
def find? (outer : List Tag) (isAttr : Bool) (uri : Text) (m : Move) : Option Binding :=
  (m.start.bindings ++ outer.flatMap Tag.seen).find? fun b =>
    b.uri == uri && !(isAttr && b.pre.isEmpty) && declarationOf? b.pre (m.start :: outer) == some b

/-- Declares a namespace on the moved node. The prefix stays if it is free
there. -/
def declare (outer : List Tag) (b : Binding) (m : Move) : Binding × Move :=
  let path := m.start :: outer
  let usual := (usualPrefixes.find? fun p => p.1.toList == b.uri).map fun p => p.2.toList
  let wish := if b.pre.isEmpty then usual else some b.pre
  let (pre, next) := match wish.filter fun p => (declarationOf? p path).isNone with
    | some p => (p, m.supply.pre)
    | none =>
      let n := freePrefix path m.supply.pre
      (newPrefix n, n + 1)
  let c : Binding := ⟨m.supply.id, pre, b.uri⟩
  (c, { m with
    start := { m.start with bindings := m.start.bindings ++ [c] }
    supply := ⟨m.supply.id + 1, next⟩ })

/-- The declaration that a name uses after the move. -/
def fix (outer : List Tag) (isAttr : Bool) (b : Binding) (m : Move) : Binding × Move :=
  if b.uri = xmlUri then (b, m)
  else
    match m.known? isAttr b with
    | some c => (c, m)
    | none =>
      let (c, m) := match m.find? outer isAttr b.uri with
        | some c => (c, m)
        | none => m.declare outer b
      (c, { m with known := m.known ++ [(c.id, c)] })

/-- A name after the move. -/
def fixName (outer : List Tag) (isAttr : Bool) (n : Name) (m : Move) : Name × Move :=
  match n.ns with
  | none => (n, m)
  | some b =>
    let (c, m) := m.fix outer isAttr b
    (⟨some c, n.loc⟩, m)

/-- Attributes after the move. -/
def fixAttrs (outer : List Tag) : List Attr → Move → List Attr × Move
  | [], m => ([], m)
  | a :: as, m =>
    let (n, m) := m.fixName outer true a.name
    let (as, m) := fixAttrs outer as m
    (⟨n, a.value⟩ :: as, m)

end Move

mutual
/-- A node inside the moved one, below the given elements of it. -/
def Node.adaptInner (outer inner : List Tag) : Node → Move → Node × Move
  | .element t ns, m =>
    let (kept, m) := m.strip (inner ++ m.start :: outer) t.bindings
    let (n, m) := m.fixName outer false t.name
    let (as, m) := m.fixAttrs outer t.attrs
    let (ns, m) := adaptAllInner outer (⟨n, kept, as⟩ :: inner) ns m
    (.element ⟨n, kept, as⟩ ns, m)
  | n, m => (n, m)
/-- Nodes inside the moved one, below the given elements of it. -/
def adaptAllInner (outer inner : List Tag) : List Node → Move → List Node × Move
  | [], m => ([], m)
  | n :: ns, m =>
    let (n, m) := n.adaptInner outer inner m
    let (ns, m) := adaptAllInner outer inner ns m
    (n :: ns, m)
end

/-- A node as it stands once it has been moved below the given elements, the
innermost first. -/
def Node.adapt (outer : List Tag) (s : Supply) : Node → Node × Supply
  | .element t ns =>
    let (kept, m) := Move.strip outer t.bindings ⟨[], t, s⟩
    let m := { m with start := { t with bindings := kept } }
    let (n, m) := m.fixName outer false t.name
    let (as, m) := m.fixAttrs outer t.attrs
    let m := { m with start := ⟨n, m.start.bindings, as⟩ }
    let (ns, m) := adaptAllInner outer [] ns m
    (.element m.start ns, m.supply)
  | n => (n, s)

/-- Nodes that are moved below the given elements one after another. -/
def adaptEach (outer : List Tag) (s : Supply) : List Node → List Node × Supply
  | [] => ([], s)
  | n :: ns =>
    let (n, s) := n.adapt outer s
    let (ns, s) := adaptEach outer s ns
    (n :: ns, s)

mutual
theorem size_adaptInner (outer : List Tag) : ∀ (inner : List Tag) (n : Node) (m : Move),
    (n.adaptInner outer inner m).1.size = n.size
  | inner, .element t ns, m => by
    simp only [Node.adaptInner, Node.size, size_adaptAllInner outer]
  | _, .text _, _ => rfl
  | _, .comment _, _ => rfl
  | _, .instruction _ _, _ => rfl
  | _, .reference _, _ => rfl
theorem size_adaptAllInner (outer : List Tag) : ∀ (inner : List Tag) (ns : List Node) (m : Move),
    sizeAll (adaptAllInner outer inner ns m).1 = sizeAll ns
  | _, [], _ => rfl
  | inner, n :: ns, m => by
    simp only [adaptAllInner, sizeAll, size_adaptInner outer, size_adaptAllInner outer]
end

/-- Moving keeps the number of nodes. -/
theorem size_adapt (outer : List Tag) (s : Supply) (n : Node) :
    (n.adapt outer s).1.size = n.size := by
  cases n <;> simp only [Node.adapt, Node.size, size_adaptAllInner]

theorem size_adaptEach (outer : List Tag) : ∀ (ns : List Node) (s : Supply),
    sizeAll (adaptEach outer s ns).1 = sizeAll ns
  | [], _ => rfl
  | n :: ns, s => by
    simp only [adaptEach, sizeAll, size_adapt, size_adaptEach outer ns]

/-! ### Numbers -/

/-- A number above those of the declarations of a tag. -/
def Tag.freeId (t : Tag) : Nat :=
  (t.seen ++ t.attrs.flatMap fun a => a.name.ns.toList).foldl (fun n b => max n (b.id + 1)) 0

mutual
/-- A number above those of the declarations in a node. -/
def Node.freeId : Node → Nat
  | .element t ns => max t.freeId (freeIdAll ns)
  | _ => 0
/-- A number above those of the declarations in a list of nodes. -/
def freeIdAll : List Node → Nat
  | [] => 0
  | n :: ns => max n.freeId (freeIdAll ns)
end

/-- What is free in a document that has just been read. -/
def Element.supply (e : Element) : Supply := ⟨max 1 e.node.freeId, 0⟩

end Xml
end Formulary
