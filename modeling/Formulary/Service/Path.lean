/-
# Paths of requests

An address may name a server, a query and a fragment besides its path; the
path alone decides what is asked for. Bytes that are written as a per cent
sign and two digits are read before and after the request is taken in, so
they may be written in that way twice.

Key definitions: `Http.target`, `Http.removeDots`, `Http.percentDecode`, `Http.pathOf`.
-/
import Formulary.Html.Entity

namespace Formulary
namespace Http

/-- The address without a query and a fragment. -/
def withoutQuery (s : Text) : Text := s.takeWhile fun c => c != '?' && c != '#'

/-- What follows the name of a server at the start of an address. -/
def afterServer? (s : Text) : Option Text :=
  (Text.after? "//".toList s).map fun r => r.dropWhile (· != '/')

/-- What follows the scheme of an address. -/
def afterScheme? (s : Text) : Option Text :=
  match Text.cut? [':'] s with
  | some (scheme, r) =>
    let w := scheme.map Char.toLower
    if w = "http".toList ∨ w = "https".toList then some r else none
  | none => none

/-- Adds a segment to those before it, the last first: a dot adds nothing,
and two dots take the last one away. -/
def addSegment (up : List Text) (seg : Text) : List Text :=
  if seg = ['.'] then up
  else if seg = ['.', '.'] then (if up = [[]] then up else up.tail)
  else seg :: up

/-- The path without segments that are dots. -/
def removeDots (s : Text) : Text :=
  ['/'].intercalate ((Text.pieces ['/'] s).foldl addSegment []).reverse

/-- The path on the server that an address asks for. Without a scheme the
address is taken relative to the root, and a server in it does not count. -/
def target (address : Text) : Text :=
  let s := withoutQuery address
  match (afterScheme? s).bind afterServer? with
  | some p => removeDots p
  | none =>
    let p := match afterServer? s with
      | some p => removeDots p
      | none => s
    removeDots ('/' :: p.dropWhile (· == '/'))

/-- The text with the bytes that are written in hexadecimal. What is beyond
ASCII, which no path here has, is read as the replacement character. -/
def percentDecode : Text → Text
  | '%' :: a :: b :: s =>
    if Html.isHex a && Html.isHex b then
      (if Html.hexNumber [a, b] < 0x80 then Char.ofNat (Html.hexNumber [a, b]) else '\uFFFD') ::
        percentDecode s
    else '%' :: percentDecode (a :: b :: s)
  | c :: s => c :: percentDecode s
  | [] => []

/-- The text without slashes at its end. -/
def dropSlashes (s : Text) : Text := (s.reverse.dropWhile (· == '/')).reverse

/-- The text without the line feed that it may end with. -/
def dropLineFeed (s : Text) : Text := if Text.endsWith '\n' s then s.dropLast else s

/-- The path that an address asks for. Slashes at the end do not matter, and
neither does one line feed. -/
def pathOf (address : Text) : Text :=
  dropLineFeed (dropSlashes (percentDecode (percentDecode (target address))))

end Http
end Formulary
