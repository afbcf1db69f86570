/-
# References to resources

The names of namespaces ought to be references to resources: an address with
a scheme, or the part of one that is taken relative to another address.

Key definitions: `Xml.Uri.afterHierarchy?`, `Xml.Uri.isAbsolute`, `Xml.Uri.isReference`.
-/
import Formulary.Html.Entity

namespace Formulary
namespace Xml
namespace Uri

/-- Characters that stand for themselves anywhere. -/
def isUnreserved (c : Char) : Bool := c.isAlphanum || "-._~".toList.contains c

/-- Characters that part the pieces of a segment. -/
def isDelimiter (c : Char) : Bool := "!$&'()*+,;=".toList.contains c

/-- The characters of a host's name. -/
def isHostChar (c : Char) : Bool := isUnreserved c || isDelimiter c

/-- The characters of a segment in front of the first colon. -/
def isPlainChar (c : Char) : Bool := isHostChar c || c == '@'

/-- The characters of a segment. -/
def isSegmentChar (c : Char) : Bool := isPlainChar c || c == ':'

/-- The characters of a path. -/
def isPathChar (c : Char) : Bool := isSegmentChar c || c == '/'

/-- The characters of a query. -/
def isQueryChar (c : Char) : Bool := isPathChar c || c == '?'

/-- The characters of a fragment. -/
def isFragmentChar (c : Char) : Bool := isQueryChar c || c == '[' || c == ']'

/-- What follows the characters of a kind, or bytes written in hexadecimal,
at the start of a text. -/
def skip (ok : Char → Bool) : Text → Text
  | '%' :: a :: b :: s => if Html.isHex a && Html.isHex b then skip ok s else '%' :: a :: b :: s
  | c :: s => if ok c then skip ok s else c :: s
  | [] => []

/-- What follows at least one such character. -/
def skipSome? (ok : Char → Bool) (s : Text) : Option Text :=
  if skip ok s = s then none else some (skip ok s)

/-- What follows a number below 256 without zeros in front. -/
def afterOctet? : Text → Option Text
  | c :: s =>
    if c.isDigit then
      match s with
      | d :: e :: r =>
        if !d.isDigit then some s
        else if c = '0' then none
        else if !e.isDigit then some (e :: r)
        else if Html.hexNumber [c, d, e] ≤ 0x255 then some r
        else none
      | [d] => if !d.isDigit then some [d] else if c = '0' then none else some []
      | [] => some []
    else none
  | [] => none

/-- What follows four such numbers with stops between them. -/
def afterAddress4? (s : Text) : Option Text := do
  let a ← Text.after? ['.'] (← afterOctet? s)
  let b ← Text.after? ['.'] (← afterOctet? a)
  let c ← Text.after? ['.'] (← afterOctet? b)
  afterOctet? c

/-- What follows a host. -/
def afterHost? : Text → Option Text
  | '[' :: s => (Text.cut? [']'] s).map (·.2)
  | s => some ((afterAddress4? s).getD (skip isHostChar s))

/-- The greatest number of a port. -/
def maxPort : Nat := 2147483647

/-- What follows a port, if there is one. -/
def afterPort? : Text → Option Text
  | ':' :: s =>
    let ds := s.takeWhile Char.isDigit
    if ds ≠ [] ∧ Text.digitsValue ds ≤ maxPort then some (s.dropWhile Char.isDigit) else none
  | s => some s

/-- What follows the part of an address that names a server. -/
def afterServer? (s : Text) : Option Text := do
  let host := match skip (fun c => isHostChar c || c == ':') s with
    | '@' :: r => r
    | _ => s
  let r ← afterHost? host
  afterPort? r

/-- What follows a path that starts with a slash. -/
def afterSlashes : Text → Text
  | '/' :: s => skip isPathChar s
  | s => s

/-- What follows a server and a path, or a path alone, whose first segment
has characters of the given kind. -/
def afterHierarchy? (first : Char → Bool) : Text → Option Text
  | '/' :: '/' :: s => (afterServer? s).map afterSlashes
  | '/' :: s => some (skip isPathChar s)
  | [] => some []
  | c :: s =>
    if c = '?' ∨ c = '#' then some (c :: s) else (skipSome? first (c :: s)).map afterSlashes

/-- What follows a query, if there is one. -/
def afterQuery : Text → Text
  | '?' :: s => skip isQueryChar s
  | s => s

/-- What follows a fragment, if there is one. -/
def afterFragment : Text → Text
  | '#' :: s => skip isFragmentChar s
  | s => s

/-- What follows a scheme and its colon. -/
def afterScheme? : Text → Option Text
  | [] => none
  | c :: s =>
    if c.isAlpha then
      Text.after? [':'] (s.dropWhile fun d => d.isAlphanum || "+-.".toList.contains d)
    else none

/-- Whether a text has a hierarchy, a query and a fragment, and nothing else. -/
def isWhole (first : Char → Bool) (s : Text) : Bool :=
  (afterHierarchy? first s).any fun r => (afterFragment (afterQuery r)).isEmpty

/-- Whether a text is an address with a scheme. -/
def isAbsolute (s : Text) : Bool := (afterScheme? s).any (isWhole isSegmentChar)

/-- Whether a text is an address, or a part of one. -/
def isReference (s : Text) : Bool := isAbsolute s || isWhole isPlainChar s

end Uri
end Xml
end Formulary
