/-
# What a document defines

The declarations at the start of a document define entities, the types of
attributes, and what elements hold. Of two definitions of one thing the first
counts. The predefined characters cannot be given another meaning.

A document is read in one of two manners: faithful, in which entities are
read where they are referred to, or compact, in which references to them stay
and text that only lays out the markup is dropped.

Key definitions: `Xml.Manner`, `Xml.Definitions`, `Xml.Definitions.undeclared`,
`Xml.Definitions.declare`, `Xml.Definitions.expand`, `Xml.Definitions.value`.
-/
import Formulary.Text.Decimal
import Formulary.Text.Quoted
import Formulary.Xml.Doctype
import Formulary.Xml.Report

namespace Formulary
namespace Xml

/-- How a document is read. -/
inductive Manner
  | faithful | compact
deriving DecidableEq, Repr, Inhabited

/-- What is known of an attribute of an element. -/
structure AttributeRule where
  element : Text
  name : Text
  type : AttributeType
  fallback : Option Text
deriving DecidableEq, Repr, Inhabited

/-- What a document defines: whether it stands alone, whether there are more
declarations elsewhere, whether parameter entities are referred to, and the
definitions of each kind, the earliest first. -/
structure Definitions where
  manner : Manner
  standalone : Bool
  hasExternal : Bool
  usesParameters : Bool
  entities : List (Text × EntityValue)
  parameters : List (Text × EntityValue)
  attributes : List AttributeRule
  elements : List (Text × Bool)
deriving DecidableEq, Repr, Inhabited

namespace Definitions

/-- Nothing is defined. -/
def empty (manner : Manner) (standalone : Bool) : Definitions :=
  ⟨manner, standalone, false, false, [], [], [], []⟩

/-- What an undeclared entity means. It cannot be declared elsewhere if the
document stands alone or has all declarations that there are. -/
def undeclared (d : Definitions) : Reading Unit :=
  if d.standalone || (!d.hasExternal && !d.usesParameters) then failure
  else
    match d.manner with
    | .faithful => Reading.report .error
    | .compact => Reading.report .warning

/-! ### Values of attributes -/

/-- The most references to entities inside each other. -/
def maxDepth : Nat := 20

/-- The text of the parts of an attribute's value, given how the text of an
entity is read. White space is a space each, and no tag may start in the text
of an entity. -/
def expandWith (d : Definitions) (inner : Text → Reading Text) (ps : List Part) :
    Reading Text := do
  let ts ← ps.mapM fun
    | .code c => pure [c]
    | .literal c => if c = '<' then failure else pure [if isSpace c then ' ' else c]
    | .entity name =>
      match d.entities.lookup name with
      | none => do
        d.undeclared
        pure []
      | some (.internal t) => inner t
      | some _ => failure
  pure ts.flatten

/-- The text of the parts of an attribute's value, with entities inside each
other up to a depth. -/
def expand (d : Definitions) : Nat → List Part → Reading Text
  | 0, ps => d.expandWith (fun _ => failure) ps
  | depth + 1, ps => d.expandWith (fun t => do
      Reading.spend t
      d.expand depth (← parts? t)) ps

/-- The text without spaces at its ends, and with one space for several. -/
def collapse (s : Text) : Text :=
  [' '].intercalate ((Text.pieces [' '] s).filter fun w => !w.isEmpty)

/-- What is known of an attribute. -/
def rule? (d : Definitions) (element name : Text) : Option AttributeRule :=
  d.attributes.find? fun r => r.element == element && r.name == name

/-- A value in the form that its type asks for. -/
def normalize (type : AttributeType) (s : Text) : Text := if type = .text then s else collapse s

/-- The value of an attribute, as its written form and its type say. -/
def value (d : Definitions) (depth : Nat) (type : AttributeType) (raw : Text) : Reading Text := do
  let s ← d.expand depth (← parts? (normalizeLines raw))
  pure (normalize type s)

/-! ### Attributes -/

/-- Whether a value is one of a type. -/
def AttributeType.fits (type : AttributeType) (s : Text) : Bool :=
  let isToken := fun (w : Text) => !w.isEmpty && w.all isWordChar
  let words := Text.pieces [' '] s
  match type with
  | .text => true
  | .id => isName s
  | .name => isName s
  | .names => words.all isName
  | .nameToken => isToken s
  | .nameTokens => words.all isToken

/-- Takes in the definition of an attribute. -/
def declareAttribute (element : Text) (d : Definitions) (a : AttributeDef) :
    Reading Definitions := do
  Reading.reportIf (a.repeated ≠ 0) .error
  let fallback ← match a.fallback with
    | none => pure none
    | some raw => some <$> d.value maxDepth a.type raw
  Reading.reportIf (a.name = "xml:id".toList ∧ a.type ≠ .id) .error
  Reading.reportIf (fallback.any fun s => !AttributeType.fits a.type s) .error
  if (d.rule? element a.name).isSome then do
    Reading.report .warning
    pure d
  else do
    Reading.reportIf
      (a.type = .id ∧ d.attributes.any fun r => r.element == element && r.type == .id) .error
    pure { d with attributes := d.attributes ++ [⟨element, a.name, a.type, fallback⟩] }

/-! ### Entities -/

/-- The text of an entity, as its written form says: references to codes are
resolved, and those to other entities stay. The text ends at a reference to a
parameter entity, which must not be declared; the answer says if there is one. -/
def entityText? (isDeclared : Text → Bool) : Text → Option (Text × Bool)
  | [] => some ([], false)
  | '%' :: s =>
    match s.dropWhile isWordChar with
    | ';' :: _ =>
      let name := s.takeWhile isWordChar
      if isName name && !isDeclared name then some ([], true) else none
    | _ => none
  | '&' :: s =>
    match _ : reference? s with
    | some (.code c, r) =>
      let t := if s.head? = some '#' then [c] else '&' :: s.take (s.length - r.length)
      (entityText? isDeclared r).map fun p => (t ++ p.1, p.2)
    | some (_, r) =>
      (entityText? isDeclared r).map fun p =>
        ('&' :: s.take (s.length - r.length) ++ p.1, p.2)
    | none => none
  | c :: s =>
    if isChar c then (entityText? isDeclared s).map fun p => (c :: p.1, p.2) else none
termination_by s => s.length
decreasing_by
  · have := length_lt_of_reference? (by assumption)
    simp only [List.length_cons]
    omega
  · have := length_lt_of_reference? (by assumption)
    simp only [List.length_cons]
    omega
  · simp

/-- What an entity stands for, once its text is known. -/
def resolve (d : Definitions) : EntityValue → Reading (Definitions × EntityValue)
  | .internal raw => do
    let (t, isCut) ← entityText? (fun n => (d.parameters.lookup n).isSome) raw
    if isCut then do
      let d := { d with usesParameters := true }
      d.undeclared
      pure (d, .internal t)
    else pure (d, .internal t)
  | v => pure (d, v)

/-- Whether a text is one of the forms that the definition of a predefined
character may take: the character, or a reference to its code. -/
def isPredefinedForm (c : Char) (s : Text) : Bool :=
  (s == [c] && c != '<' && c != '&') || s == "&#".toList ++ Text.ofNat c.toNat ++ [';'] ||
    (Text.after? "&#x".toList s).any fun r => r.map Char.toLower == Text.hex 2 c.toNat ++ [';']

/-- Takes in the definition of an entity. -/
def declareEntity (isParameter : Bool) (name : Text) (v : EntityValue) (d : Definitions) :
    Reading Definitions := do
  Reading.reportIf (':' ∈ name) .error
  let (d, v) ← d.resolve v
  if isParameter then pure { d with parameters := d.parameters ++ [(name, v)] }
  else
    match predefined? name with
    | none => pure { d with entities := d.entities ++ [(name, v)] }
    | some c =>
      let isKept := match v with
        | .internal t => isPredefinedForm c t
        | _ => false
      Reading.reportIf (!isKept) .warning
      pure d

/-! ### Declarations -/

/-- The targets of instructions that may start like the name of this format. -/
def knownTargets : List String := ["xml-stylesheet", "xml-model"]

/-- Reports what is wrong with the target of an instruction. -/
def checkTarget (target : Text) : Reading Unit :=
  if knownTargets.any fun w => target == w.toList then pure ()
  else do
    Reading.reportIf ((target.take 3).map Char.toLower = "xml".toList) .warning
    Reading.reportIf (':' ∈ target) .error

/-- Whether an address names a server, which is not asked. -/
def isRemote (address : Text) : Bool :=
  ["http://", "https://", "ftp://"].any fun w => w.toList.isPrefixOf address

/-- What declarations that are kept elsewhere mean. They are never taken in. -/
def skipExternal (d : Definitions) (address : Text) : Reading Unit :=
  match d.manner with
  | .faithful => Reading.report (if isRemote address then .error else .warning)
  | .compact => pure ()

/-- Takes in declarations, those of parameter entities up to a depth. -/
def declare : Nat → List Declaration → Definitions → Reading Definitions
  | _, [], d => pure d
  | depth, x :: xs, d => do
    let d ← match x with
      | .element n only => do
        Reading.reportIf (d.elements.lookup n).isSome .error
        pure { d with elements := d.elements ++ [(n, only)] }
      | .attributes e defs => defs.foldlM (declareAttribute e) d
      | .entity isParameter n v => declareEntity isParameter n v d
      | .format n => do
        Reading.reportIf (':' ∈ n) .error
        pure d
      | .aside (.instruction target _) => do
        checkTarget target
        pure d
      | .aside _ => pure d
      | .parameter n =>
        let d := { d with usesParameters := true }
        match d.parameters.lookup n, depth with
        | none, _ => do
          d.undeclared
          pure d
        | some (.internal t), depth + 1 => do
          Reading.spend t
          declare depth (← declarations? t) d
        | some (.internal _), 0 => failure
        | some (.external address), _ => do
          d.skipExternal address
          pure d
        | some .unparsed, _ => failure
    declare depth xs d

/-- What a document type declaration defines. -/
def ofDoctype (d : Definitions) (t : Doctype) : Reading Definitions :=
  declare maxDepth t.declarations { d with hasExternal := t.hasExternal }

end Definitions
end Xml
end Formulary
