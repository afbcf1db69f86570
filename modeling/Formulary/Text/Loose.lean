/-
# Texts with halves of pairs

A text from outside may hold half of a pair of code units without the other
half. It is no character and has no bytes. Where a text is searched, cut and
put together, a half counts as a character that is neither a letter nor a
blank nor a mark: so the last character of the plane, which no document may
hold either, stands for each half on the way, and the halves are put back.

Key definitions: `LooseChar`, `LooseText`, `LooseText.mask`, `LooseText.toText`,
`LooseText.putBack`, `LooseText.lift`.
-/
import Formulary.Failure
import Formulary.Text.Wide

namespace Formulary

/-- A character, or half of a pair. -/
inductive LooseChar
  | char (c : Char)
  | half (unit : Nat)
deriving DecidableEq, Repr, Inhabited

namespace LooseChar

/-- The character that stands for halves of pairs. -/
def stand : Char := '\uFFFF'

/-- The character, or the one that stands for it. -/
def mask : LooseChar → Char
  | char c => c
  | half _ => stand

/-- The code unit of a half. -/
def unit? : LooseChar → Option Nat
  | char _ => none
  | half u => some u

/-- Whether it is half of a pair. -/
def isHalf (c : LooseChar) : Bool := c.unit?.isSome

/-- What a code unit is on its own. -/
def ofUnit (n : Nat) : LooseChar :=
  match Text.ofUnit? none n with
  | some c => char c
  | none => half n

end LooseChar

/-- A text that may hold halves of pairs. -/
abbrev LooseText := List LooseChar

namespace LooseText

/-- A text of characters. -/
def ofText (s : Text) : LooseText := s.map .char

/-- The text with a character in the place of each half. -/
def mask (s : LooseText) : Text := s.map LooseChar.mask

/-- Whether there is half of a pair in a text. -/
def hasHalf (s : LooseText) : Bool := s.any LooseChar.isHalf

/-- The text as it is written in bytes, which halves do not have. -/
def toText (s : LooseText) : Except Failure Text :=
  match s.dropWhile fun c => !c.isHalf with
  | [] => .ok s.mask
  | r =>
    .error (.unpaired ((r.takeWhile LooseChar.isHalf).filterMap LooseChar.unit?)
      (s.takeWhile fun c => !c.isHalf).length)

/-- What the stand-in stands for in the mask of a text, from the left. -/
def stood (s : LooseText) : List LooseChar := s.filter fun c => c.mask == LooseChar.stand

/-- The text with what the stand-ins in it stand for. -/
def refill : List LooseChar → Text → LooseText
  | [], t => ofText t
  | _ :: _, [] => []
  | m :: ms, c :: t =>
    if c = LooseChar.stand then m :: refill ms t else .char c :: refill (m :: ms) t

/-- Puts the halves of a text back into what its mask has become. What is
missing of it was in front. -/
def putBack (s : LooseText) (t : Text) : LooseText :=
  refill (s.stood.drop (s.stood.length - List.count LooseChar.stand t)) t

/-- Applies a function on texts to which a half is a character like others. -/
def lift (f : Text → Text) (s : LooseText) : LooseText := s.putBack (f s.mask)

end LooseText
end Formulary
