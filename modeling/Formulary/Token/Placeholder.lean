/-
# Placeholders

Formulas pass through Markdown as placeholders, words that Markdown leaves
alone. `combine` writes a token list with placeholders, and
`splitPlaceholders` reads the formulas back out of a text.

Key definitions: `placeholder`, `combine`, `Part`, `markAt?`, `splitPlaceholders`,
`restoreSource`.
Key theorem: `flatMap_source_slices`.
-/
import Formulary.Token.Basic

namespace Formulary

/-- What a placeholder starts with. -/
def markStart : Text := "MATHPH".toList

/-- What a placeholder ends with. -/
def markEnd : Text := "PHMATH".toList

/-- The placeholder of the formula with this id. -/
def placeholder (id : Text) : Text := markStart ++ id ++ markEnd

/-- A token as it is handed to Markdown. Blank lines around display math make
it a block of its own. -/
def Token.combined : Token → Text
  | .plain _ s => s
  | .math f =>
    if f.display then "\n\n".toList ++ placeholder f.id ++ "\n\n".toList else placeholder f.id

/-- The text of a token list, with placeholders for its formulas. -/
def combine (ts : List Token) : Text := ts.flatMap Token.combined

/-- The id in the placeholder at the start of a text, and the text after it.
An id has at least one character and stands on one line. -/
def markAt? (s : Text) : Option (Text × Text) :=
  match Text.after? markStart s with
  | some (c :: r) =>
    match Text.cut? markEnd r with
    | some (a, rest) => if '\n' ∈ c :: a then none else some (c :: a, rest)
    | none => none
  | _ => none

theorem length_lt_of_markAt? {s id r : Text} (h : markAt? s = some (id, r)) :
    r.length < s.length := by
  unfold markAt? at h
  split at h
  · rename_i c u hu
    split at h
    · rename_i a v hv
      split at h
      · simp at h
      · simp only [Option.some.injEq, Prod.mk.injEq] at h
        have h1 := Text.length_lt_of_cut? (by decide) hv
        have h2 := congrArg List.length (Text.after?_eq_some_iff.mp hu)
        simp only [List.length_append, List.length_cons] at h2
        rw [← h.2]
        omega
    · simp at h
  · simp at h

/-- A stretch between placeholders, or the id in a placeholder. -/
inductive Slice
  | literal (s : Text)
  | mark (id : Text)
deriving DecidableEq, Repr, Inhabited

/-- Puts a character in front of slices, into the literal they start with. -/
def consLiteral (c : Char) : List Slice → List Slice
  | .literal s :: ps => .literal (c :: s) :: ps
  | ps => .literal [c] :: ps

/-- The literals and placeholders of a text, read from the left. -/
def slices : Text → List Slice
  | [] => []
  | c :: s =>
    match _ : markAt? (c :: s) with
    | some (id, r) => .mark id :: slices r
    | none => consLiteral c (slices s)
termination_by s => s.length
decreasing_by
  · exact length_lt_of_markAt? (by assumption)
  · simp

/-- A slice as it stands in the text. -/
def Slice.source : Slice → Text
  | .literal s => s
  | .mark id => placeholder id

theorem source_of_markAt? {s id r : Text} (h : markAt? s = some (id, r)) :
    s = placeholder id ++ r := by
  unfold markAt? at h
  split at h
  · rename_i c u hu
    split at h
    · rename_i a v hv
      split at h
      · simp at h
      · simp only [Option.some.injEq, Prod.mk.injEq] at h
        obtain ⟨rfl, rfl⟩ := h
        rw [Text.after?_eq_some_iff.mp hu, Text.eq_of_cut? hv]
        simp [placeholder]
    · simp at h
  · simp at h

theorem flatMap_source_consLiteral (c : Char) (ps : List Slice) :
    (consLiteral c ps).flatMap Slice.source = c :: ps.flatMap Slice.source := by
  unfold consLiteral
  split <;> simp [Slice.source]

/-- Slicing loses nothing: the slices as they stand make up the text. -/
theorem flatMap_source_slices : ∀ s : Text, (slices s).flatMap Slice.source = s := by
  intro s
  fun_induction slices s with
  | case1 => rfl
  | case2 c s id r h ih => simp [ih, Slice.source, source_of_markAt? h]
  | case3 c s _ ih => rw [flatMap_source_consLiteral, ih]

/-- A stretch of text, or a formula in its place. -/
inductive Part
  | literal (s : Text)
  | math (f : Formula)
deriving DecidableEq, Repr, Inhabited

/-- What a slice stands for. The placeholder of no known formula gives nothing. -/
def Slice.resolve? (byId : Text → Option Formula) : Slice → Option Part
  | .literal s => some (.literal s)
  | .mark id => (byId id).map .math

/-- The text and the formulas of a text with placeholders. -/
def splitPlaceholders (byId : Text → Option Formula) (s : Text) : List Part :=
  (slices s).filterMap (Slice.resolve? byId)

/-- A part as it stood in the source. -/
def Part.source : Part → Text
  | .literal s => s
  | .math f => if f.display then "$$".toList ++ f.latex ++ "$$".toList else '$' :: f.latex ++ ['$']

/-- The text with the source of each formula back in the place of its
placeholder. -/
def restoreSource (byId : Text → Option Formula) (s : Text) : Text :=
  (splitPlaceholders byId s).flatMap Part.source

end Formulary
