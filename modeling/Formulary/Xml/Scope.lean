/-
# Names in scope

A start tag declares prefixes and uses them in its own name and in those of
its attributes. Names that break the rules of namespaces are reported, and
reading goes on; only a name or a declaration that stands twice in a tag
stops it.

Key definitions: `Xml.Qualified`, `Xml.Scope`, `Xml.Scope.find?`, `Xml.Definitions.tag`.
-/
import Formulary.Xml.Definitions
import Formulary.Xml.Uri

namespace Formulary
namespace Xml

/-! ### Names -/

/-- A written name as its prefix and its local part. -/
structure Qualified where
  pre : Text
  loc : Text
deriving DecidableEq, Repr, Inhabited

/-- Splits a written name at its colon; nothing if it has no such form. -/
def qualified? (s : Text) : Option Qualified :=
  match s.dropWhile (· != ':') with
  | [] => if isSimpleName s then some ⟨[], s⟩ else none
  | _ :: loc =>
    if isSimpleName (s.takeWhile (· != ':')) && isSimpleName loc then
      some ⟨s.takeWhile (· != ':'), loc⟩
    else none

/-- A written name as its parts. A name of another form is all local part. -/
def qualify (s : Text) : Reading Qualified :=
  match qualified? s with
  | some q => pure q
  | none => do
    Reading.report .error
    pure ⟨[], s⟩

/-- The declarations in scope, the nearest element's first. -/
abbrev Scope := List Binding

/-- The declaration that a prefix stands for. -/
def Scope.find? (scope : Scope) (pre : Text) : Option Binding :=
  if pre = "xml".toList then some .xml else List.find? (fun b => b.pre == pre) scope

/-- The name that a written name stands for. A prefix that is not declared
stays part of the name. -/
def Scope.name (scope : Scope) (q : Qualified) : Reading Name :=
  match scope.find? q.pre with
  | some b => pure ⟨some b, q.loc⟩
  | none => do
    Reading.report .error
    pure ⟨none, q.pre ++ ':' :: q.loc⟩

/-- The name of an element: without a prefix it is in the default namespace,
if there is one. -/
def Scope.elementName (scope : Scope) (q : Qualified) : Reading Name :=
  if q.pre = [] then
    pure ⟨(scope.find? []).filter fun b => b.uri != [], q.loc⟩
  else scope.name q

/-- The name of an attribute: without a prefix it is in no namespace. -/
def Scope.attributeName (scope : Scope) (q : Qualified) : Reading Name :=
  if q.pre = [] then pure ⟨none, q.loc⟩ else scope.name q

/-! ### Declarations -/

/-- The namespace that declarations themselves belong to. -/
def declarationUri : Text := "http://www.w3.org/2000/xmlns/".toList

/-- The prefix that an attribute declares, if it is a declaration. -/
def Qualified.declares? (q : Qualified) : Option Text :=
  if q.pre = "xmlns".toList then some q.loc
  else if q.pre = [] ∧ q.loc = "xmlns".toList then some []
  else none

/-- Whether a declaration is left out although it is correct, since the
prefix is known anyway. -/
def isKnown (pre uri : Text) : Bool := pre == "xml".toList && uri == xmlUri

/-- Whether a declaration may be made: a prefix needs a namespace, and the
reserved prefixes and namespaces stay what they are. -/
def mayDeclare (pre uri : Text) : Bool :=
  pre != "xml".toList && pre != "xmlns".toList && uri != xmlUri && uri != declarationUri &&
    (pre.isEmpty || !uri.isEmpty)

/-- Reports what is wrong with the address of a namespace. -/
def checkUri (pre uri : Text) : Reading Unit := do
  if uri = [] then pure ()
  else if Uri.isReference uri then Reading.reportIf (pre.isEmpty && !Uri.isAbsolute uri) .warning
  else Reading.report .error

/-- Takes in a declaration. No prefix is declared twice in a tag. -/
def declarePrefix (bs : List Binding) (pre uri : Text) : Reading (List Binding) := do
  if mayDeclare pre uri then do
    checkUri pre uri
    guard (bs.all fun b => b.pre != pre)
    let b ← Reading.declare pre uri
    pure (bs ++ [b])
  else do
    Reading.reportIf (!isKnown pre uri) .error
    pure bs

/-- What has been read of the attributes of a tag: the declarations, and the
names and values of the other attributes. -/
structure Attributes where
  bindings : List Binding
  others : List (RawAttr × Qualified)
deriving Repr, Inhabited

namespace Definitions

/-- The type of an attribute. -/
def typeOf (d : Definitions) (element name : Text) : AttributeType :=
  match d.rule? element name with
  | some r => r.type
  | none => .text

/-- Whether a value says what is to be done with white space. -/
def isSpaceRule (s : Text) : Bool := s == "default".toList || s == "preserve".toList

/-- Takes in an attribute, with its value in the form that it stands for. -/
def readAttribute (d : Definitions) (depth : Nat) (element : Text) (as : Attributes)
    (a : RawAttr) : Reading Attributes := do
  let q ← qualify a.name
  let v ← d.value depth (d.typeOf element a.name) a.value
  match q.declares? with
  | some pre => do
    let bs ← declarePrefix as.bindings pre v
    pure { as with bindings := bs }
  | none => do
    Reading.reportIf (a.name = "xml:space".toList ∧ !isSpaceRule v) .warning
    pure { as with others := as.others ++ [(⟨a.name, v⟩, q)] }

/-- The prefix and the namespace that the definition of an attribute declares. -/
def AttributeRule.declares? (element : Text) (r : AttributeRule) : Option (Text × Text) :=
  if r.element = element then do
    let uri ← r.fallback
    let q ← qualified? r.name
    let pre ← q.declares?
    pure (pre, uri)
  else none

/-- Adds the declarations that the definition of an element's attributes makes. -/
def addFallbacks (d : Definitions) (element : Text) (bs : List Binding) :
    Reading (List Binding) :=
  (d.attributes.filterMap (AttributeRule.declares? element)).foldlM (fun bs (pre, uri) =>
    if bs.any fun b => b.pre == pre then pure bs
    else do
      let b ← Reading.declare pre uri
      pure (bs ++ [b])) bs

/-- Gives the attributes their names, one after another. No written name
stands twice in a tag, and no two names mean the same. -/
def nameAttributes (scope : Scope) (as : List (RawAttr × Qualified)) : Reading (List Attr) := do
  guard (as.map fun a => a.1.name).Nodup
  as.foldlM (fun done (a, q) => do
    let n ← scope.attributeName q
    Reading.reportIf
      (n.ns.isSome && done.any fun b => b.name.uri == n.uri && b.name.loc == n.loc) .error
    pure (done ++ [⟨n, a.value⟩])) []

/-- Takes in the name that an attribute gives to its element, if it does. -/
def nameElement (d : Definitions) (element : Text) (a : RawAttr) : Reading Unit := do
  let isXmlId := a.name = "xml:id".toList
  Reading.reportIf (isXmlId ∧ !isSimpleName (a.value.dropWhile isSpace |>.reverse.dropWhile
    isSpace |>.reverse)) .error
  if (isXmlId ∨ d.typeOf element a.name = .id) ∧ a.value ≠ [] then do
    let p ← get
    if a.value ∈ p.ids then Reading.report .error
    else set { p with ids := a.value :: p.ids }
  else pure ()

/-- The tag that a start tag stands for. The names that attributes give to
elements count only in the document itself, not in the text of an entity. -/
def tag (d : Definitions) (depth : Nat) (isOutside : Bool) (scope : Scope) (name : Text)
    (raw : List RawAttr) : Reading Tag := do
  let q ← qualify name
  let as ← raw.foldlM (d.readAttribute depth name) ⟨[], []⟩
  let bs ← d.addFallbacks name as.bindings
  let attrs ← nameAttributes (bs ++ scope) as.others
  let n ← Scope.elementName (bs ++ scope) q
  if isOutside then as.others.forM fun a => d.nameElement name a.1 else pure ()
  pure ⟨n, bs, attrs⟩

end Definitions
end Xml
end Formulary
