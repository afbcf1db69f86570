/-
# Document type declarations

A document may start with declarations of its elements, attributes and
entities. Here they are only taken apart; what they mean for the document is
said elsewhere. A reference to a parameter entity may stand between
declarations, not inside of one.

Key definitions: `Xml.AttributeType`, `Xml.AttributeDef`, `Xml.EntityValue`,
`Xml.Declaration`, `Xml.Doctype`, `Xml.Scan.doctype`, `Xml.declarations?`.
-/
import Formulary.Xml.Scan
import Formulary.Xml.Token

namespace Formulary
namespace Xml

/-- What the values of an attribute are. -/
inductive AttributeType
  | text | id | name | names | nameToken | nameTokens
deriving DecidableEq, Repr, Inhabited

/-- The definition of an attribute: its name, its type, the number of names
that its type lists twice, and its value where it is left out, as written. -/
structure AttributeDef where
  name : Text
  type : AttributeType
  repeated : Nat
  fallback : Option Text
deriving DecidableEq, Repr, Inhabited

/-- What an entity stands for: a text as written, or something kept at an
address, which need not be text of a document. -/
inductive EntityValue
  | internal (s : Text)
  | external (address : Text)
  | unparsed
deriving DecidableEq, Repr, Inhabited

/-- A markup declaration. -/
inductive Declaration
  /-- An element, and whether it holds elements only. -/
  | element (name : Text) (elementsOnly : Bool)
  | attributes (element : Text) (defs : List AttributeDef)
  | entity (isParameter : Bool) (name : Text) (value : EntityValue)
  /-- A format of data that is no text of a document. -/
  | format (name : Text)
  /-- A comment or an instruction between declarations. -/
  | aside (t : Token)
  /-- A reference to the declarations of a parameter entity. -/
  | parameter (name : Text)
deriving DecidableEq, Repr, Inhabited

/-- A document type declaration: whether there are more declarations
elsewhere, and those that it holds. -/
structure Doctype where
  hasExternal : Bool
  declarations : List Declaration
deriving DecidableEq, Repr, Inhabited

namespace Scan

/-! ### Addresses -/

/-- The address of something outside the document. -/
def systemId : Scan Text := do
  let s ← quoted
  guard (isLegal s)
  pure s

/-- A public name of something outside the document. -/
def publicId : Scan Unit := do
  let s ← quoted
  guard (s.all isPublicIdChar)

/-- Where something outside the document is, if the text says so. -/
def externalId : Scan (Option Text) := do
  if ← accept "SYSTEM" then do
    blank
    some <$> systemId
  else if ← accept "PUBLIC" then do
    blank
    publicId
    blank
    some <$> systemId
  else pure none

/-- Whether the rest starts with a quotation mark. -/
def seesQuote : Scan Bool := do
  pure ((← sees "\"") || (← sees "'"))

/-! ### Elements -/

/-- The mark that says how often a part may occur, if there is one. -/
def occurrence : Scan Unit := do
  if ← accept "?" then pure ()
  else if ← accept "*" then pure ()
  else do
    let _ ← accept "+"

/-- What separates the parts of a group. -/
def separator : Scan Char := do
  if ← accept "," then pure ','
  else do
    literal "|"
    pure '|'

/-- Whether a text starts with a closing parenthesis. -/
def atClose (s : Text) : Bool := s.head? == some ')'

/-- The deepest nesting of groups. -/
def maxGroups : Nat := 256

/-- A group of elements, after its opening parenthesis; it may hold groups up
to a depth. The separators of a group are all the same. -/
def group : Nat → Scan Unit
  | 0 => failure
  | depth + 1 => do
    let part : Scan Unit := do
      let _ ← blanks
      if ← accept "(" then group depth
      else do
        let _ ← name
        occurrence
      let _ ← blanks
    part
    let marks ← untilDone atClose do
      let c ← separator
      part
      pure c
    guard (marks.all fun c => some c == marks.head?)
    literal ")"
    occurrence

/-- A group of text and elements, after its first word. -/
def mixed : Scan Unit := do
  let _ ← blanks
  let names ← untilDone atClose do
    literal "|"
    let _ ← blanks
    let _ ← name
    blanks
  literal ")"
  if ← accept "*" then pure () else guard names.isEmpty

/-- What an element may hold, and whether that is elements only. -/
def content : Scan Bool := do
  if ← accept "EMPTY" then pure false
  else if ← accept "ANY" then pure false
  else do
    literal "("
    let _ ← blanks
    if ← accept "#PCDATA" then do
      mixed
      pure false
    else do
      group maxGroups
      pure true

/-- The end of a declaration. -/
def finish : Scan Unit := do
  let _ ← blanks
  literal ">"

/-- The declaration of an element, after its first word. -/
def elementDecl : Scan Declaration := do
  blank
  let n ← name
  blank
  let only ← content
  finish
  pure (.element n only)

/-! ### Attributes -/

/-- Names in parentheses with bars between them. -/
def choices (item : Scan Text) : Scan (List Text) := do
  literal "("
  let one : Scan Text := do
    let _ ← blanks
    let s ← item
    let _ ← blanks
    pure s
  let first ← one
  let more ← untilDone atClose do
    literal "|"
    one
  literal ")"
  pure (first :: more)

/-- The number of names that stand in a list before. -/
def repeats (names : List Text) : Nat := names.length - names.eraseDups.length

/-- The types of attributes that are single words. A word stands in front of
those that it starts with. -/
def typeWords : List (String × AttributeType) :=
  [("CDATA", .text), ("IDREFS", .names), ("IDREF", .name), ("ID", .id), ("ENTITY", .name),
    ("ENTITIES", .names), ("NMTOKENS", .nameTokens), ("NMTOKEN", .nameToken)]

/-- The type that the rest starts with, if it is a single word. -/
def typeWord : Scan (Option AttributeType) := fun s =>
  match typeWords.findSome? fun w => (Text.after? w.1.toList s).map fun r => (w.2, r) with
  | some (t, r) => some (some t, r)
  | none => some (none, s)

/-- The type of an attribute, and the number of names it lists twice. -/
def attributeType : Scan (AttributeType × Nat) := do
  match ← typeWord with
  | some t => pure (t, 0)
  | none =>
    if ← accept "NOTATION" then do
      blank
      let names ← choices name
      pure (.name, repeats names)
    else do
      let tokens ← choices nameToken
      pure (.nameTokens, repeats tokens)

/-- The value of an attribute that is left out, as written. -/
def fallback : Scan (Option Text) := do
  if ← accept "#REQUIRED" then pure none
  else if ← accept "#IMPLIED" then pure none
  else if ← accept "#FIXED" then do
    blank
    some <$> quoted
  else some <$> quoted

/-- The definition of an attribute. White space parts it from the next. -/
def attributeDef : Scan AttributeDef := do
  let n ← name
  blank
  let (t, repeated) ← attributeType
  blank
  let v ← fallback
  let spaced ← blanks
  guard (spaced ∨ (← sees ">"))
  pure ⟨n, t, repeated, v⟩

/-- The declaration of the attributes of an element, after its first word. -/
def attributesDecl : Scan Declaration := do
  blank
  let n ← name
  let _ ← blanks
  let defs ← untilDone (fun s => s.head? == some '>') attributeDef
  literal ">"
  pure (.attributes n defs)

/-! ### Entities and formats -/

/-- What an entity stands for. An address has no fragment. -/
def entityValue (isParameter : Bool) : Scan EntityValue := do
  if ← seesQuote then .internal <$> quoted
  else
    match ← externalId with
    | none => failure
    | some address => do
      guard ('#' ∉ address)
      if isParameter then pure (.external address)
      else do
        let spaced ← blanks
        if ← accept "NDATA" then do
          guard spaced
          blank
          let _ ← name
          pure .unparsed
        else pure (.external address)

/-- The declaration of an entity, after its first word. -/
def entityDecl : Scan Declaration := do
  blank
  let isParameter ← accept "%"
  if isParameter then blank else pure ()
  let n ← name
  blank
  let v ← entityValue isParameter
  finish
  pure (.entity isParameter n v)

/-- The declaration of a format, after its first word. -/
def formatDecl : Scan Declaration := do
  blank
  let n ← name
  blank
  if ← accept "SYSTEM" then do
    blank
    let _ ← systemId
  else do
    literal "PUBLIC"
    blank
    publicId
    if (← blanks) && (← seesQuote) then do
      let _ ← systemId
    else pure ()
  finish
  pure (.format n)

/-! ### Documents -/

/-- A piece between declarations. -/
def aside (piece : Text → Option (Token × Text)) : Scan Declaration := .aside <$> piece

/-- A declaration; nothing for white space. -/
def declaration : Scan (Option Declaration) := do
  if ← blanks then pure none
  else if ← accept "<!--" then some <$> aside comment?
  else if ← accept "<?" then some <$> aside instruction?
  else if ← accept "<!ELEMENT" then some <$> elementDecl
  else if ← accept "<!ATTLIST" then some <$> attributesDecl
  else if ← accept "<!ENTITY" then some <$> entityDecl
  else if ← accept "<!NOTATION" then some <$> formatDecl
  else do
    literal "%"
    let n ← name
    literal ";"
    pure (some (.parameter n))

/-- Declarations up to the end of what holds them. -/
def declarations (done : Text → Bool) : Scan (List Declaration) := do
  let ds ← untilDone done declaration
  pure (ds.filterMap id)

/-- A document type declaration, after its first word. -/
def doctype : Scan Doctype := do
  blank
  let _ ← name
  let _ ← blanks
  let address ← externalId
  let _ ← blanks
  let ds ← if ← accept "[" then do
      let ds ← declarations fun s => s.head? == some ']'
      literal "]"
      pure ds
    else pure []
  finish
  pure ⟨address.isSome, ds⟩

end Scan

/-- The declarations that a text consists of. -/
def declarations? (s : Text) : Option (List Declaration) :=
  (Scan.declarations List.isEmpty s).map (·.1)

end Xml
end Formulary
