/-
# Reading XML

A document is read into its root element. The tokens are taken one by one
with the open elements on a stack. The text of an entity is read in the same
way wherever the entity is referred to; it sees no declarations of prefixes
from outside, and its elements have to be complete.

Key definitions: `Xml.Frame`, `Xml.Stack`, `Xml.readTokens`, `Xml.readEntity`,
`Xml.readDocument`, `Xml.parse?`.
-/
import Formulary.Xml.Layout
import Formulary.Xml.Prolog
import Formulary.Xml.Scope

namespace Formulary
namespace Xml

/-! ### Open elements -/

/-- An element whose end tag has not come yet: its tag, its written name, the
declarations in scope, what is done with white space, and its nodes so far,
the last one first. -/
structure Frame where
  tag : Tag
  written : Text
  scope : Scope
  rule : SpaceRule
  nodes : List Node
deriving Repr, Inhabited

/-- What is being read: a document, which has one root, or the text of an
entity, with its nodes so far, the last one first. -/
inductive Base
  | document (root : Option Element)
  | entity (nodes : List Node)
deriving Repr, Inhabited

/-- What is being read, and the open elements, the innermost first. -/
structure Stack where
  base : Base
  frames : List Frame
deriving Repr, Inhabited

/-- The nodes with more text, which joins the text right before it. The last
node comes first. -/
def joinText (s : Text) : List Node → List Node
  | .text t :: ns => .text (t ++ s) :: ns
  | ns => .text s :: ns

namespace Stack

/-- Changes the nodes of the innermost element. Outside the root element there
are none. -/
def change (f : List Node → List Node) (k : Stack) : Option Stack :=
  match k.frames, k.base with
  | g :: up, b => some ⟨b, { g with nodes := f g.nodes } :: up⟩
  | [], .entity ns => some ⟨.entity (f ns), []⟩
  | [], .document _ => none

/-- Adds text. -/
def addText (s : Text) (k : Stack) : Option Stack := k.change (joinText s)

/-- Adds a node. -/
def addNode (n : Node) (k : Stack) : Option Stack := k.change (n :: ·)

/-- Adds a comment or an instruction. Those outside the root element are left
out. -/
def addAside (n : Node) (k : Stack) : Stack := (k.addNode n).getD k

/-- Adds nodes, of which the first may be text that joins the text before it. -/
def addNodes : List Node → Stack → Option Stack
  | [], k => some k
  | .text s :: ns, k => (k.addText s).bind (addNodes ns)
  | n :: ns, k => (k.addNode n).bind (addNodes ns)

/-- Adds a finished element. A document has one root. -/
def addElement (e : Element) (k : Stack) : Option Stack :=
  match k.frames, k.base with
  | [], .document none => some ⟨.document (some e), []⟩
  | _, _ => k.addNode e.node

/-- The declarations in scope. -/
def scope (k : Stack) : Scope :=
  match k.frames with
  | f :: _ => f.tag.bindings ++ f.scope
  | [] => []

/-- What is done with white space. -/
def rule (k : Stack) : SpaceRule :=
  match k.frames with
  | f :: _ => f.rule
  | [] => .unset

/-- The most elements that may be open. -/
def maxOpen : Nat := 256

/-- Opens an element. -/
def enter (t : Tag) (written : Text) (closed : Bool) (k : Stack) : Option Stack :=
  if closed then k.addElement ⟨t, []⟩
  else some ⟨k.base, ⟨t, written, k.scope, k.rule.inner t, []⟩ :: k.frames⟩

/-- Closes the innermost element, whose written name has to be the same. -/
def leave (written : Text) (k : Stack) : Option Stack :=
  match k.frames with
  | f :: up =>
    if written = f.written then addElement ⟨f.tag, f.nodes.reverse⟩ ⟨k.base, up⟩ else none
  | [] => none

end Stack

/-! ### Text -/

/-- Where tokens stand: the bytes of the text they are taken from, how deep
entities may be nested in it, and how many elements are open around it. -/
structure Setting where
  bytes : Nat
  depth : Nat
  around : Nat
deriving DecidableEq, Repr, Inhabited

/-- What is seen of the text after a stretch of text. -/
def Ahead.ofText : Text → Ahead
  | '<' :: '/' :: _ => .tag true
  | '<' :: _ => .tag false
  | _ => .other

/-- Adds a piece of text to an element, unless it only lays out markup. -/
def Frame.addPiece (elements : List (Text × Bool)) (f : Frame) (p : LayoutPiece) : Frame :=
  if isLayout f.rule (elements.lookup f.tag.name.loc) f.nodes p then f
  else
    { f with
      nodes := joinText p.text f.nodes
      rule := if f.rule = .unset then .mixed else f.rule }

/-- The pieces of a stretch of text. Where a short one starts does not matter,
for it does not come to the end of a portion. -/
def Setting.pieces (st : Setting) (raw rest : Text) : List LayoutPiece :=
  let pos :=
    if raw.length < reach then 0 else st.bytes - Text.byteLength raw - Text.byteLength rest
  layoutPieces pos raw (.ofText rest)

/-- Adds a stretch of text as it is written. Outside the root element it is
white space. -/
def Stack.addRaw (d : Definitions) (st : Setting) (raw rest : Text) (k : Stack) : Option Stack :=
  match k.frames, k.base with
  | [], .document _ => if raw.all isSpace then some k else none
  | f :: up, b =>
    match d.manner with
    | .faithful => k.addText (normalizeLines raw)
    | .compact => some ⟨b, (st.pieces raw rest).foldl (Frame.addPiece d.elements) f :: up⟩
  | [], .entity _ => k.addText (normalizeLines raw)

/-! ### Tokens -/

/-- Reads a reference to an entity, given how the text of an entity is read. -/
def readReference (d : Definitions) (readText : Nat → Text → Text → Reading (List Node))
    (st : Setting) (name : Text) (k : Stack) : Reading Stack := do
  let keep : Reading Stack := StateT.lift (k.addNode (.reference name))
  let inside ← match d.entities.lookup name with
    | none => do
      d.undeclared
      pure []
    | some (.internal t) => readText (st.around + k.frames.length + 1) name t
    | some (.external _) => if d.manner = .faithful then failure else pure []
    | some .unparsed => failure
  match d.manner with
  | .faithful => StateT.lift (k.change id >>= Stack.addNodes inside)
  | .compact => keep

/-- Reads tokens onto a stack, given how the text of an entity is read. -/
def readTokens (d : Definitions) (readText : Nat → Text → Text → Reading (List Node))
    (st : Setting) : List Token → Stack → Reading Stack
  | [], k => pure k
  | .text raw rest :: ts, k => do
    readTokens d readText st ts (← k.addRaw d st raw rest)
  | .char c :: ts, k => do
    readTokens d readText st ts (← k.addText [c])
  | .cdata s :: ts, k => do
    readTokens d readText st ts (← k.addText s)
  | .comment s :: ts, k => readTokens d readText st ts (k.addAside (.comment s))
  | .instruction target data :: ts, k => do
    Definitions.checkTarget target
    readTokens d readText st ts (k.addAside (.instruction target data))
  | .reference name :: ts, k => do
    readTokens d readText st ts (← readReference d readText st name k)
  | .opening name as closed :: ts, k => do
    guard (st.around + k.frames.length < Stack.maxOpen)
    let t ← d.tag (st.depth - 1) (st.depth = Definitions.maxDepth) k.scope name as
    readTokens d readText st ts (← k.enter t name closed)
  | .closing name :: ts, k => do
    readTokens d readText st ts (← k.leave name)

/-- Keeps the reports of a step only if it is the first for an entity. -/
def onlyOnce {α : Type} (name : Text) (step : Reading α) : Reading α := do
  let p ← get
  if p.opened.contains name then do
    let a ← step
    modify fun q => { q with reports := p.reports }
    pure a
  else do
    set { p with opened := name :: p.opened }
    step

/-- Reads the text of an entity, with entities inside each other up to a depth. -/
def readEntity (d : Definitions) :
    Nat → (around : Nat) → (name t : Text) → Reading (List Node)
  | 0, _, _, _ => failure
  | depth + 1, around, name, t => do
    Reading.spend t
    let ts ← lex t
    let k ← onlyOnce name
      (readTokens d (readEntity d depth) ⟨Text.byteLength t, depth, around⟩ ts ⟨.entity [], []⟩)
    match k with
    | ⟨.entity ns, []⟩ => pure ns.reverse
    | _ => failure

/-! ### Documents -/

/-- Reads a document, given its number of bytes, its start and the tokens
after it. -/
def readDocument (manner : Manner) (bytes : Nat) (p : Prolog) (ts : List Token) :
    Reading Element := do
  p.asides.forM fun
    | .instruction target _ => Definitions.checkTarget target
    | _ => pure ()
  let empty := Definitions.empty manner p.standalone
  let d ← match p.doctype with
    | some t => empty.ofDoctype t
    | none => pure empty
  let k ← readTokens d (readEntity d Definitions.maxDepth) ⟨bytes, Definitions.maxDepth, 0⟩ ts
    ⟨.document none, []⟩
  match k with
  | ⟨.document (some e), []⟩ => pure e
  | _ => failure

/-- The root element of a document that counts as read. -/
def parse? (manner : Manner) (s : Text) : Option Element := do
  let (p, body) ← prolog? manner s
  let ts ← lex body
  let (e, progress) ← (readDocument manner (Text.byteLength s) p ts).run .start
  if progress.accepts then pure e else none

end Xml
end Formulary
