/-
# What can go wrong

Key definitions: `Failure`, `Failure.message`.
-/
import Formulary.Text.Decimal
import Formulary.Text.Numeral
import Formulary.Text.Quoted

namespace Formulary

/-- The kinds of values that can stand for no number. -/
inductive ValueKind
  | nothing | array | object
deriving DecidableEq, Repr, Inhabited

/-- Why a conversion fails. -/
inductive Failure
  /-- A text that should be an XML document is not well formed. -/
  | malformedXml
  /-- A text with a character that no XML document may hold. -/
  | illegalText
  /-- An XML document that names an encoding although it is text already. -/
  | encodedText
  /-- A converter gave up, with the message it left. -/
  | converter (message : Text)
  /-- Lexing the pieces of a text again and again came to no end. -/
  | endlessLexing
  /-- A text where a number is due. -/
  | notNumber (written : Text) (why : Numeral.Fault)
  /-- A value of a kind that stands for no number. -/
  | notNumeric (kind : ValueKind)
  /-- A number that Word's markup has no room for. -/
  | outOfRange (n : Int)
  /-- A word that names no level of messages. -/
  | unknownLevel (name : Text)
  /-- Halves of pairs side by side from a place in a text on, which have no
  bytes in UTF-8. -/
  | unpaired (units : List Nat) (place : Nat)
deriving DecidableEq, Repr

/-- The name of a kind of values in messages. -/
def ValueKind.name : ValueKind → Text
  | .nothing => "NoneType".toList
  | .array => "list".toList
  | .object => "dict".toList

/-- The most characters that are shown of a text where a number is due. -/
def shownLength : Nat := 200

/-- The text that tells a reader what went wrong. Of a text that is not well
formed it is the report of whoever read it. -/
def Failure.message (report : Text) : Failure → Text
  | .malformedXml => report
  | .illegalText =>
    ("All strings must be XML compatible: Unicode or ASCII, " ++
      "no NULL bytes or control characters").toList
  | .encodedText =>
    ("Unicode strings with encoding declaration are not supported. " ++
      "Please use bytes input or XML fragments without declaration.").toList
  | .converter m => m
  | .endlessLexing => "maximum lexing depth exceeded".toList
  | .notNumber s .malformed =>
    "invalid literal for int() with base 10: ".toList ++ (Text.quoted s).take shownLength
  | .notNumber _ (.tooLong n) =>
    "Exceeds the limit (".toList ++ Text.ofNat Numeral.maxDigits ++
      " digits) for integer string conversion: value has ".toList ++ Text.ofNat n ++
      " digits; use sys.set_int_max_str_digits() to increase the limit".toList
  | .notNumeric k =>
    "int() argument must be a string, a bytes-like object or a real number, not '".toList ++
      k.name ++ ['\'']
  | .outOfRange n =>
    "value must be in range -2147483648 to 2147483647 inclusive, got ".toList ++ Text.ofInt n
  | .unknownLevel name => "Unknown level: ".toList ++ Text.quoted name
  | .unpaired [unit] place =>
    "'utf-8' codec can't encode character '\\u".toList ++ Nat.toDigits 16 unit ++
      "' in position ".toList ++ Text.ofNat place ++ ": surrogates not allowed".toList
  | .unpaired units place =>
    "'utf-8' codec can't encode characters in position ".toList ++ Text.ofNat place ++ '-' ::
      Text.ofNat (place + units.length - 1) ++ ": surrogates not allowed".toList

end Formulary
