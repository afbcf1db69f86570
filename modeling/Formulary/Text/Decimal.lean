/-
# Numbers in decimal

Key definitions: `Text.ofNat`, `Text.ofInt`, `Text.padded`, `Text.digitsValue`.
-/
import Formulary.Text.Blank

namespace Formulary
namespace Text

/-- The decimal digits of a number. -/
def ofNat (n : Nat) : Text := Nat.toDigits 10 n

/-- A signed number in decimal, with a sign only where it is negative. -/
def ofInt : Int → Text
  | .ofNat n => ofNat n
  | .negSucc n => '-' :: ofNat (n + 1)

/-- The digits of a number, with zeros in front up to `width`. -/
def padded (width n : Nat) : Text :=
  List.replicate (width - (ofNat n).length) '0' ++ ofNat n

/-- The value of a run of decimal digits, read from the left. -/
def digitsValue (s : Text) : Nat := s.foldl (fun n c => 10 * n + (c.toNat - '0'.toNat)) 0

end Text
end Formulary
