/-
# The service

Two endpoints convert the text of a request: one answers with the pages, the
other with the document. A request is checked in this order: its path, its
method, its body, the length of its text.

Key definitions: `Http.Route`, `Http.Body`, `Http.Request`, `Http.Reply`,
`Http.bodyText`, `Http.answer`.
-/
import Formulary.Service.Convert
import Formulary.Service.Json
import Formulary.Service.Path

namespace Formulary
namespace Http

/-- What can be asked for: a conversion, or a description of the service. -/
inductive Route
  | pages | document | description
deriving DecidableEq, Repr, Inhabited

/-- The body of a request: a JSON value, or a text of some content type. -/
inductive Body
  | json (v : Json)
  | raw (contentType s : Text)
deriving Repr, Inhabited

/-- A request. -/
structure Request where
  method : Text
  path : Text
  body : Body
deriving Repr, Inhabited

/-- What is wrong with a body. -/
inductive Fault
  | missing | notText | notObject | notJson
deriving DecidableEq, Repr, Inhabited

/-- A fault and the place of it in the request. -/
structure Issue where
  fault : Fault
  place : List String
deriving DecidableEq, Repr, Inhabited

/-- The name of a fault in answers. -/
def Fault.name : Fault → Text
  | missing => "missing".toList
  | notText => "string_type".toList
  | notObject => "model_attributes_type".toList
  | notJson => "json_invalid".toList

/-- An answer. -/
inductive Reply
  | pages (c : Conversion)
  | document (name : Text) (d : Word.Draft)
  | refusal (status : Nat) (detail : Text)
  | invalid (issues : List Issue)
  /-- One of the descriptions of the service, which are kept elsewhere. -/
  | description

/-- The status of an answer. -/
def Reply.status : Reply → Nat
  | pages _ => 200
  | document _ _ => 200
  | refusal n _ => n
  | invalid _ => 422
  | description => 200

/-- The content type of an answer. -/
def Reply.contentType : Reply → Text
  | document _ _ =>
    "application/vnd.openxmlformats-officedocument.wordprocessingml.document".toList
  | _ => "application/json".toList

/-- How a document is handed over: as a file with a name. -/
def disposition (name : Text) : Text :=
  "attachment; filename=\"".toList ++ name ++ ['"']

/-! ### Requests -/

/-- Where the service describes itself. -/
def descriptions : List String := ["/openapi.json", "/docs", "/docs/oauth2-redirect", "/redoc"]

/-- The route at an address. -/
def Route.ofPath? (address : Text) : Option Route :=
  let p := pathOf address
  if p = "/api/v1/convert".toList then some .pages
  else if p = "/api/v1/convert/docx".toList then some .document
  else if descriptions.any fun d => p == d.toList then some .description
  else none

/-- The capital letters of a letter, as far as methods are spelled with them. -/
def upper : Char → Text
  | 'ſ' => ['S']
  | 'ﬅ' => ['S', 'T']
  | 'ﬆ' => ['S', 'T']
  | c => [c.toUpper]

/-- Whether a route can be asked for with a method. -/
def Route.allows (route : Route) (method : Text) : Bool :=
  let m := method.flatMap upper
  match route with
  | .description => m == "GET".toList || m == "HEAD".toList
  | _ => m == "POST".toList

/-- Whether a content type is one of JSON's. -/
def isJsonType (contentType : Text) : Bool :=
  let main := (Text.strip (contentType.takeWhile (· != ';'))).map Char.toLower
  main == "application/json".toList ||
    (Text.after? "application/".toList main).any fun sub =>
      "+json".toList.isSuffixOf sub && sub.all (· != '/')

/-- The answer to a body that cannot be read. -/
def unreadable : Reply := .refusal 400 "There was an error parsing the body".toList

/-- The value of a body that is JSON. -/
def jsonValue (s : Text) : Except Reply Json :=
  match (Json.decode? s).map Json.read with
  | none => .error unreadable
  | some (.error .limit) => .error unreadable
  | some (.error .malformed) => .error (.invalid [⟨.notJson, []⟩])
  | some (.ok v) => .ok v

/-- The value in the body of a request; none if it has no body. A body that
is not JSON counts as a value that is no object. -/
def bodyValue : Body → Except Reply (Option Json)
  | .json .null => .ok none
  | .json v => .ok (some v)
  | .raw contentType s =>
    if s = [] then .ok none
    else if isJsonType contentType then (jsonValue s).map some
    else .ok (some (.string (.ofText s)))

/-- The text that a request brings. -/
def bodyText (b : Body) : Except Reply LooseText := do
  match ← bodyValue b with
  | none => .error (.invalid [⟨.missing, ["body"]⟩])
  | some (.object fields) =>
    match Json.get? "text".toList fields with
    | none => .error (.invalid [⟨.missing, ["body", "text"]⟩])
    | some (.string s) => .ok s
    | some _ => .error (.invalid [⟨.notText, ["body", "text"]⟩])
  | some _ => .error (.invalid [⟨.notObject, ["body"]⟩])

/-! ### Answers -/

/-- What is said of a text that is too long. -/
def tooLarge (length : Nat) (limit : Int) : Text :=
  "Input too large (".toList ++ Text.ofNat length ++ " > ".toList ++ Text.ofInt limit ++
    " characters)".toList

/-- The answer to a request that cannot be met. -/
def failed : Reply := .refusal 500 "Internal server error".toList

/-- Whether a text can stand in a header, whose characters are single bytes. -/
def isHeaderText (s : Text) : Bool := s.all fun c => c.toNat < 0x100

/-- Converts a text for a route. A formula with half of a pair may be beyond
conversion, and pages repeat the text, so they cannot hold halves. -/
def convert (cv : Converters) (st : Settings) (key : Text) (s : LooseText) : Route → Reply
  | .document =>
    if (formulaSources s).any fun p => !(convertFormula cv.formulas p.1 p.2).isOk then failed
    else
      match documentOf cv st (tokenize cv key s.mask) with
      | .ok d => if isHeaderText st.documentName then .document st.documentName d else failed
      | .error _ => failed
  | _ =>
    if s.hasHalf then failed
    else
      match convertText cv st key s.mask with
      | .ok c => .pages c
      | .error _ => failed

/-- The answer to a request for a conversion. -/
def answerConversion (cv : Converters) (st : Settings) (key : Text) (r : Request)
    (route : Route) : Reply :=
  match bodyText r.body with
  | .error reply => reply
  | .ok s =>
    if (s.length : Int) > st.maxInput then .refusal 413 (tooLarge s.length st.maxInput)
    else convert cv st key s route

/-- The answer to a request. -/
def answer (cv : Converters) (st : Settings) (key : Text) (r : Request) : Reply :=
  match Route.ofPath? r.path with
  | none => .refusal 404 "Not Found".toList
  | some route =>
    if route.allows r.method then
      if route = .description then .description else answerConversion cv st key r route
    else .refusal 405 "Method Not Allowed".toList

end Http
end Formulary
