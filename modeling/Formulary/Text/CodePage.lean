/-
# Encodings of eight bits

Each byte is a character of its own. The bytes below 128 are those of ASCII
in all of them; a page lists the characters of the bytes from some code on,
and the bytes in between stand for the characters of the same code. The
replacement character marks a byte that a page leaves out.

Key definitions: `CodePage`, `CodePage.char?`, `CodePage.decode?`.
Key theorems: `CodePage.char?_of_ascii`, `CodePage.decode?_append`,
`CodePage.length_of_decode?`.
-/
import Formulary.Text.Utf8

namespace Formulary

/-- An encoding of eight bits. -/
structure CodePage where
  first : Nat
  chars : Text
deriving DecidableEq, Repr, Inhabited

namespace CodePage

/-- The character of a byte. -/
def char? (page : CodePage) (b : UInt8) : Option Char :=
  if b.toNat < 0x80 ∨ b.toNat < page.first then some (Char.ofNat b.toNat)
  else page.chars[b.toNat - page.first]?.filter (· != '\uFFFD')

/-- The text that bytes stand for. -/
def decode? (page : CodePage) (bs : List UInt8) : Option Text := bs.mapM page.char?

/-- A byte of ASCII is its own character on every page. -/
theorem char?_of_ascii (page : CodePage) {b : UInt8} (h : b.toNat < 0x80) :
    page.char? b = some (Char.ofNat b.toNat) := by
  simp [char?, h]

/-- Bytes are read one after the other. -/
theorem decode?_append (page : CodePage) (a b : List UInt8) :
    page.decode? (a ++ b) = (page.decode? a).bind fun s => (page.decode? b).map (s ++ ·) := by
  simp only [decode?, List.mapM_append]
  cases List.mapM page.char? a with
  | none => rfl
  | some s => cases List.mapM page.char? b <;> rfl

/-- Each byte gives one character. -/
theorem length_of_decode? (page : CodePage) :
    ∀ {bs : List UInt8} {s : Text}, page.decode? bs = some s → s.length = bs.length
  | [], s, h => by simp_all [decode?]
  | b :: bs, s, h => by
    simp only [decode?, List.mapM_cons, Option.bind_eq_bind, Option.bind_eq_some_iff] at h
    obtain ⟨c, -, t, ht, h⟩ := h
    cases h
    simpa using length_of_decode? page ht

end CodePage
end Formulary
