/-
# Encodings of sixteen and thirty-two bits

Two or four bytes make a unit, the most significant byte first or last. A
character is one unit, or a pair of two halves where units have sixteen bits.

Key definitions: `Text.pairOf?`, `Text.ofUnits16?`, `Text.ofUnits32?`, `Wide`, `Wide.decode?`.
-/
import Formulary.Text.Basic

namespace Formulary
namespace Text

/-- Whether a unit is the first half of a pair. -/
def isFirstHalf (n : Nat) : Bool := 0xD800 ≤ n && n ≤ 0xDBFF

/-- Whether a unit is the second half of a pair. -/
def isSecondHalf (n : Nat) : Bool := 0xDC00 ≤ n && n ≤ 0xDFFF

/-- The character of a pair of units, if they are the halves of one. -/
def pairOf? (u v : Nat) : Option Char :=
  if isFirstHalf u && isSecondHalf v then
    some (Char.ofNat (0x10000 + (u - 0xD800) * 0x400 + (v - 0xDC00)))
  else none

/-- The character of a single unit. Half of a pair is no character; `stray`
stands for it if given. -/
def ofUnit? (stray : Option Char) (n : Nat) : Option Char :=
  if isFirstHalf n || isSecondHalf n then stray
  else if n < 0x110000 then some (Char.ofNat n)
  else none

/-- The text of units of sixteen bits. -/
def ofUnits16? (stray : Option Char) : List Nat → Option Text
  | [] => some []
  | [u] => (ofUnit? stray u).map ([·])
  | u :: v :: us =>
    match pairOf? u v with
    | some c => (ofUnits16? stray us).map (c :: ·)
    | none => do
      let c ← ofUnit? stray u
      let s ← ofUnits16? stray (v :: us)
      pure (c :: s)

/-- The text of units of thirty-two bits. -/
def ofUnits32? (stray : Option Char) (us : List Nat) : Option Text := us.mapM (ofUnit? stray)

end Text

/-- An encoding with units of two or four bytes. -/
structure Wide where
  four : Bool
  bigEndian : Bool
deriving DecidableEq, Repr, Inhabited

namespace Wide

/-- The number that the bytes of a unit make. -/
def unit (w : Wide) (bs : List UInt8) : Nat :=
  (if w.bigEndian then bs else bs.reverse).foldl (fun n b => 0x100 * n + b.toNat) 0

/-- The units of two bytes. -/
def pairs? (w : Wide) : List UInt8 → Option (List Nat)
  | [] => some []
  | a :: b :: bs => (w.pairs? bs).map (w.unit [a, b] :: ·)
  | _ => none

/-- The units of four bytes. -/
def quads? (w : Wide) : List UInt8 → Option (List Nat)
  | [] => some []
  | a :: b :: c :: d :: bs => (w.quads? bs).map (w.unit [a, b, c, d] :: ·)
  | _ => none

/-- The text that bytes stand for. -/
def decode? (w : Wide) (stray : Option Char) (bs : List UInt8) : Option Text :=
  if w.four then (w.quads? bs).bind (Text.ofUnits32? stray)
  else (w.pairs? bs).bind (Text.ofUnits16? stray)

end Wide
end Formulary
