/-
# References in XML

Inside text and inside the values of attributes a reference stands for a
character of a given code, for one of the five predefined characters, or for
an entity that the document defines.

Key definitions: `Xml.Part`, `Xml.reference?`, `Xml.parts?`.
Key theorem: `Xml.length_lt_of_reference?`.
-/
import Formulary.Html.Entity
import Formulary.Xml.Char

namespace Formulary
namespace Xml

/-- A part of a written text: a character as it is, a character by a
reference, or a reference to an entity. -/
inductive Part
  | literal (c : Char)
  | code (c : Char)
  | entity (name : Text)
deriving DecidableEq, Repr, Inhabited

/-- The character with a code, if a document may hold it. -/
def charOfCode? (n : Nat) : Option Char :=
  if n < 0x110000 ∧ ¬(0xD800 ≤ n ∧ n ≤ 0xDFFF) ∧ isChar (Char.ofNat n) then some (Char.ofNat n)
  else none

/-- The characters that have a name in every document. -/
def predefined : List (Text × Char) :=
  [("lt".toList, '<'), ("gt".toList, '>'), ("amp".toList, '&'), ("quot".toList, '"'),
    ("apos".toList, '\'')]

/-- The character with a name that every document knows. -/
def predefined? (name : Text) : Option Char := predefined.lookup name

/-- The character of a code that is written in the given digits, and what
follows it: the digits end with a semicolon. -/
def codeReference? (isDigit : Char → Bool) (value : Text → Nat) (s : Text) :
    Option (Part × Text) :=
  match s.dropWhile isDigit with
  | ';' :: r =>
    if s.takeWhile isDigit = [] then none
    else (charOfCode? (value (s.takeWhile isDigit))).map fun c => (.code c, r)
  | _ => none

/-- What a name refers to, and what follows it: the name ends with a semicolon. -/
def nameReference? (s : Text) : Option (Part × Text) :=
  match s.dropWhile isWordChar with
  | ';' :: r =>
    if isName (s.takeWhile isWordChar) then
      match predefined? (s.takeWhile isWordChar) with
      | some c => some (.code c, r)
      | none => some (.entity (s.takeWhile isWordChar), r)
    else none
  | _ => none

/-- What a reference stands for, after its ampersand, and what follows it. -/
def reference? : Text → Option (Part × Text)
  | '#' :: 'x' :: s => codeReference? Html.isHex Html.hexNumber s
  | '#' :: s => codeReference? Char.isDigit Text.digitsValue s
  | s => nameReference? s

theorem length_lt_of_codeReference? {isDigit : Char → Bool} {value : Text → Nat} {s r : Text}
    {p : Part} (h : codeReference? isDigit value s = some (p, r)) : r.length < s.length := by
  unfold codeReference? at h
  split at h
  · rename_i u hu
    split at h
    · simp at h
    · simp only [Option.map_eq_some_iff, Prod.mk.injEq] at h
      obtain ⟨_, _, _, rfl⟩ := h
      have := Text.length_dropWhile_le isDigit s
      rw [hu, List.length_cons] at this
      omega
  · simp at h

theorem length_lt_of_nameReference? {s r : Text} {p : Part}
    (h : nameReference? s = some (p, r)) : r.length < s.length := by
  unfold nameReference? at h
  split at h
  · rename_i u hu
    have := Text.length_dropWhile_le isWordChar s
    rw [hu, List.length_cons] at this
    split at h
    · split at h
      · simp only [Option.some.injEq, Prod.mk.injEq] at h
        rw [← h.2]
        omega
      · simp only [Option.some.injEq, Prod.mk.injEq] at h
        rw [← h.2]
        omega
    · simp at h
  · simp at h

theorem length_lt_of_reference? {s r : Text} {p : Part} (h : reference? s = some (p, r)) :
    r.length < s.length := by
  unfold reference? at h
  split at h
  · exact Nat.lt_trans (length_lt_of_codeReference? h) (by simp only [List.length_cons]; omega)
  · exact Nat.lt_trans (length_lt_of_codeReference? h) (by simp only [List.length_cons]; omega)
  · exact length_lt_of_nameReference? h

/-- The parts of a written text, if its references are well formed. -/
def parts? : Text → Option (List Part)
  | [] => some []
  | '&' :: s =>
    match _ : reference? s with
    | some (p, r) => (parts? r).map (p :: ·)
    | none => none
  | c :: s => if isChar c then (parts? s).map (.literal c :: ·) else none
termination_by s => s.length
decreasing_by
  · have := length_lt_of_reference? (by assumption)
    simp only [List.length_cons]
    omega
  · simp

end Xml
end Formulary
