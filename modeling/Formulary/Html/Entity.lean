/-
# Character references of HTML

Reading text back from its written form. A reference is read leniently: the
names that older documents write without a semicolon are recognised without
one, a number that names no character gives the replacement character, and
what is no reference stays as it is. A decimal number of too many digits is
not read at all.

Key definitions: `Html.ofCode`, `Html.entity?`, `Html.closedText?`, `Html.reference?`,
`Html.excess?`, `Html.unescape`.
-/
import Formulary.Failure
import Formulary.Html.Further
import Formulary.Html.Named

namespace Formulary
namespace Html

/-- The characters that the codes 128 to 159 stand for in a reference, where
they differ from the control characters of those codes. -/
def windowsCodes : List (Nat × Nat) :=
  [(0x80, 0x20AC), (0x82, 0x201A), (0x83, 0x192), (0x84, 0x201E), (0x85, 0x2026), (0x86, 0x2020),
   (0x87, 0x2021), (0x88, 0x2C6), (0x89, 0x2030), (0x8A, 0x160), (0x8B, 0x2039), (0x8C, 0x152),
   (0x8E, 0x17D), (0x91, 0x2018), (0x92, 0x2019), (0x93, 0x201C), (0x94, 0x201D), (0x95, 0x2022),
   (0x96, 0x2013), (0x97, 0x2014), (0x98, 0x2DC), (0x99, 0x2122), (0x9A, 0x161), (0x9B, 0x203A),
   (0x9C, 0x153), (0x9E, 0x17E), (0x9F, 0x178)]

/-- Codes that a reference may not name and that give no character. -/
def isDropped (n : Nat) : Bool :=
  (0x1 ≤ n && n ≤ 0x8) || n == 0xB || (0xE ≤ n && n ≤ 0x1F) || n == 0x7F ||
    (0xFDD0 ≤ n && n ≤ 0xFDEF) || n % 0x10000 == 0xFFFE || n % 0x10000 == 0xFFFF

/-- The text that a numeric reference to the code `n` stands for. -/
def ofCode (n : Nat) : Text :=
  match windowsCodes.lookup n with
  | some m => [Char.ofNat m]
  | none =>
    if n = 0 ∨ (0xD800 ≤ n ∧ n ≤ 0xDFFF) ∨ 0x10FFFF < n then ['\uFFFD']
    else if isDropped n then []
    else [Char.ofNat n]

/-- The character that a name stands for in a table. -/
def entity? (table : List (String × Char)) (name : Text) : Option Char :=
  (table.find? fun p => p.1.toList == name).map (·.2)

/-- The longest beginning of a name, of at most `n` characters, that stands
for a character without a semicolon: the character, and the rest of the name. -/
def bareEntity? (name : Text) : Nat → Option (Char × Text)
  | 0 => none
  | n + 1 =>
    match entity? bareEntities (name.take (n + 1)) with
    | some c => some (c, name.drop (n + 1))
    | none => bareEntity? name n

/-- Characters that end a name. -/
def endsName (c : Char) : Bool :=
  c == '\t' || c == '\n' || c == '\x0C' || c == ' ' || c == '<' || c == '&' || c == '#' || c == ';'

/-- The text without a semicolon in front. -/
def dropSemicolon : Text → Text
  | ';' :: s => s
  | s => s

/-- The value of a hexadecimal digit. -/
def hexValue? (c : Char) : Option Nat :=
  if c.isDigit then some (c.toNat - '0'.toNat)
  else if 'a' ≤ c ∧ c ≤ 'f' then some (c.toNat - 'a'.toNat + 10)
  else if 'A' ≤ c ∧ c ≤ 'F' then some (c.toNat - 'A'.toNat + 10)
  else none

/-- Whether a character is a hexadecimal digit. -/
def isHex (c : Char) : Bool := (hexValue? c).isSome

/-- The value of a run of hexadecimal digits. -/
def hexNumber (s : Text) : Nat := s.foldl (fun n c => 16 * n + (hexValue? c).getD 0) 0

/-- The text of hexadecimal codes with plus signs between them. -/
def ofCodes (s : Text) : Text := (Text.pieces ['+'] s).map fun w => Char.ofNat (hexNumber w)

/-- The further names with the texts they stand for. -/
def furtherEntities : List (Text × Text) :=
  (furtherNames.flatMap fun line => Text.pieces [' '] line.toList).filterMap fun w =>
    (Text.cut? ['='] w).map fun p => (p.1, ofCodes p.2)

/-- A numeric reference from a run of digits at the start of a text. -/
def numbered? (isDigit : Char → Bool) (value : Text → Nat) (s : Text) : Option (Text × Text) :=
  match s.takeWhile isDigit with
  | [] => none
  | ds => some (ofCode (value ds), dropSemicolon (s.dropWhile isDigit))

/-- The text that a name stands for with a semicolon. -/
def closedText? (name : Text) : Option Text :=
  match (entity? entities name).or (entity? bareEntities name) with
  | some c => some [c]
  | none => furtherEntities.lookup name

/-- A name with its semicolon, which is the first character of `rest`. -/
def closedEntity? (name rest : Text) : Option (Text × Text) :=
  match rest with
  | ';' :: r => (closedText? name).map fun t => (t, r)
  | _ => none

/-- The run of characters that may be a name, of at most 32 characters. -/
def nameRun (s : Text) : Text := (s.takeWhile fun c => !endsName c).take 32

/-- A named reference at the start of a text. -/
def named? (s : Text) : Option (Text × Text) :=
  match closedEntity? (nameRun s) (s.drop (nameRun s).length) with
  | some p => some p
  | none =>
    (bareEntity? (nameRun s) (nameRun s).length).map fun p =>
      ([p.1], p.2 ++ s.drop (nameRun s).length)

/-- Reads what follows an ampersand as a reference: what it stands for, and
the text after it. -/
def reference? : Text → Option (Text × Text)
  | '#' :: 'x' :: s => numbered? isHex hexNumber s
  | '#' :: 'X' :: s => numbered? isHex hexNumber s
  | '#' :: s => numbered? Char.isDigit Text.digitsValue s
  | s => named? s

theorem length_dropSemicolon_le (s : Text) : (dropSemicolon s).length ≤ s.length := by
  unfold dropSemicolon
  split
  · simp
  · exact Nat.le_refl _

theorem length_le_of_numbered? {p : Char → Bool} {value : Text → Nat} {s t r : Text}
    (h : numbered? p value s = some (t, r)) : r.length ≤ s.length := by
  unfold numbered? at h
  split at h
  · simp at h
  · simp only [Option.some.injEq, Prod.mk.injEq] at h
    rw [← h.2]
    exact Nat.le_trans (length_dropSemicolon_le _) (Text.length_dropWhile_le _ _)

theorem length_bareEntity? {name : Text} : ∀ {n : Nat} {c : Char} {r : Text},
    bareEntity? name n = some (c, r) → r.length ≤ name.length
  | 0, c, r, h => by simp [bareEntity?] at h
  | n + 1, c, r, h => by
    unfold bareEntity? at h
    split at h
    · simp only [Option.some.injEq, Prod.mk.injEq] at h
      rw [← h.2, List.length_drop]
      omega
    · exact length_bareEntity? h

theorem length_nameRun_le (s : Text) : (nameRun s).length ≤ s.length := by
  have := (List.takeWhile_sublist (fun c => !endsName c) (l := s)).length_le
  rw [nameRun, List.length_take]
  omega

theorem length_le_of_named? {s t r : Text} (h : named? s = some (t, r)) : r.length ≤ s.length := by
  have hlen := length_nameRun_le s
  unfold named? at h
  split at h
  · rename_i p hp
    simp only [Option.some.injEq] at h
    subst h
    unfold closedEntity? at hp
    split at hp
    · rename_i r' hr
      simp only [Option.map_eq_some_iff, Prod.mk.injEq] at hp
      obtain ⟨_, _, _, rfl⟩ := hp
      have := congrArg List.length hr
      simp only [List.length_drop, List.length_cons] at this
      omega
    · simp at hp
  · simp only [Option.map_eq_some_iff, Prod.mk.injEq] at h
    obtain ⟨p, hp, _, rfl⟩ := h
    have := length_bareEntity? hp
    simp only [List.length_append, List.length_drop]
    omega

theorem length_le_of_reference? {s t r : Text} (h : reference? s = some (t, r)) :
    r.length ≤ s.length := by
  unfold reference? at h
  split at h
  · exact Nat.le_trans (length_le_of_numbered? h) (by simp only [List.length_cons]; omega)
  · exact Nat.le_trans (length_le_of_numbered? h) (by simp only [List.length_cons]; omega)
  · exact Nat.le_trans (length_le_of_numbered? h) (by simp only [List.length_cons]; omega)
  · exact length_le_of_named? h

/-- The digits of the decimal reference that what follows an ampersand starts
with, where they are more than are read as a number. -/
def excess? : Text → Option Text
  | '#' :: s =>
    if Numeral.maxDigits < (s.takeWhile Char.isDigit).length then some (s.takeWhile Char.isDigit)
    else none
  | _ => none

/-- The text that a written form stands for. -/
def unescape : Text → Except Failure Text
  | [] => .ok []
  | c :: s =>
    if c = '&' then
      match excess? s with
      | some ds => .error (.notNumber ds (.tooLong ds.length))
      | none =>
        match _ : reference? s with
        | some (t, r) => (unescape r).map (t ++ ·)
        | none => (unescape s).map (c :: ·)
    else (unescape s).map (c :: ·)
termination_by s => s.length
decreasing_by
  · have := length_le_of_reference? (by assumption)
    simp only [List.length_cons]
    omega
  · simp
  · simp

end Html
end Formulary
