/-
# Accented letters

The accent commands `\hat`, `\bar`, `\tilde` and `\dot` over a single letter,
written as the accented letter itself where there is one. A command over a
letter without such a form stays as it is.

Key definitions: `Accent.letter?`, `Accent.fold`, `foldAccents`.
-/
import Formulary.Text.Blank

namespace Formulary

/-- The accents that a command can put on a letter. -/
inductive Accent
  | hat | bar | tilde | dot
deriving DecidableEq, Repr

namespace Accent

/-- The accents, in the order in which they are folded. -/
def all : List Accent := [hat, bar, tilde, dot]

/-- The name of the accent's command. -/
def name : Accent → Text
  | hat => "hat".toList
  | bar => "bar".toList
  | tilde => "tilde".toList
  | dot => "dot".toList

/-- The letters that have a form with the accent, each with that form. Most
forms are one character; `x` with a bar is a letter and a combining mark. -/
def table : Accent → List (Char × Text)
  | hat =>
    [('A', ['Â']), ('a', ['â']), ('E', ['Ê']), ('e', ['ê']), ('I', ['Î']), ('i', ['î']),
     ('O', ['Ô']), ('o', ['ô']), ('U', ['Û']), ('u', ['û']), ('Y', ['Ŷ']), ('y', ['ŷ']),
     ('W', ['Ŵ']), ('w', ['ŵ']), ('Z', ['Ẑ']), ('z', ['ẑ']), ('C', ['Ĉ']), ('c', ['ĉ']),
     ('G', ['Ĝ']), ('g', ['ĝ']), ('H', ['Ĥ']), ('h', ['ĥ']), ('S', ['Ŝ']), ('s', ['ŝ'])]
  | bar =>
    [('A', ['Ā']), ('a', ['ā']), ('E', ['Ē']), ('e', ['ē']), ('I', ['Ī']), ('i', ['ī']),
     ('O', ['Ō']), ('o', ['ō']), ('U', ['Ū']), ('u', ['ū']), ('Y', ['Ȳ']), ('y', ['ȳ']),
     ('x', ['x', '\u0304']), ('X', ['X', '\u0304'])]
  | tilde =>
    [('A', ['Ã']), ('a', ['ã']), ('N', ['Ñ']), ('n', ['ñ']), ('O', ['Õ']), ('o', ['õ']),
     ('I', ['Ĩ']), ('i', ['ĩ']), ('U', ['Ũ']), ('u', ['ũ']), ('Y', ['Ỹ']), ('y', ['ỹ']),
     ('v', ['ṽ']), ('V', ['Ṽ'])]
  | dot =>
    [('x', ['ẋ']), ('X', ['Ẋ']), ('y', ['ẏ']), ('Y', ['Ẏ']), ('z', ['ż']), ('Z', ['Ż'])]

/-- The accented form of a letter, if there is one. -/
def letter? (a : Accent) (c : Char) : Option Text := a.table.lookup c

/-- Reads what follows a backslash as this accent's command over a letter
that has an accented form: the form, and the text after the command. -/
def command? (a : Accent) (s : Text) : Option (Text × Text) :=
  match (Text.after? a.name s).map Text.stripLeft with
  | some ('{' :: c :: '}' :: r) => (a.letter? c).map fun t => (t, r)
  | _ => none

theorem length_lt_of_command? {a : Accent} {s t r : Text} (h : a.command? s = some (t, r)) :
    r.length < s.length := by
  unfold command? at h
  split at h
  · rename_i c r' hs
    simp only [Option.map_eq_some_iff, Prod.mk.injEq] at h
    obtain ⟨_, _, _, rfl⟩ := h
    simp only [Option.map_eq_some_iff] at hs
    obtain ⟨u, hu, hs⟩ := hs
    have h1 := Text.length_dropWhile_le Text.isBlank u
    rw [show u.dropWhile Text.isBlank = _ from hs] at h1
    rw [Text.after?_eq_some_iff.mp hu]
    simp only [List.length_cons, List.length_append] at h1 ⊢
    omega
  · simp at h

/-- The text with every command of this accent replaced by its letter. -/
def fold (a : Accent) : Text → Text
  | [] => []
  | c :: s =>
    if c = '\\' then
      match _ : a.command? s with
      | some (t, r) => t ++ fold a r
      | none => c :: fold a s
    else c :: fold a s
termination_by s => s.length
decreasing_by
  · have := length_lt_of_command? (by assumption)
    simp only [List.length_cons]
    omega
  · simp
  · simp

end Accent

/-- The text with its accent commands folded, one accent after another. -/
def foldAccents (s : Text) : Text := Accent.all.foldl (fun t a => a.fold t) s

end Formulary
