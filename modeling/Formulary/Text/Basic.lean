/-
# Text as a sequence of characters

A text is its list of characters, so a length or a position counts code
points. Searching is done by cutting: `Text.cut?` gives what stands before
and after the first occurrence of a pattern, and counting and replacing are
read off the pieces between occurrences.

Key definitions: `Text.after?`, `Text.cut?`, `Text.cutLast?`, `Text.pieces`,
`Text.replaceAll`, `Text.count`.
Key theorems: `Text.after?_eq_some_iff`, `Text.eq_of_cut?`, `Text.intercalate_pieces`.
-/

namespace Formulary

/-- A text, as the list of its characters. -/
abbrev Text := List Char

namespace Text

/-- What follows `pat` in a text that starts with it. -/
def after? : Text → Text → Option Text
  | [], s => some s
  | _ :: _, [] => none
  | p :: ps, c :: s => if p = c then after? ps s else none

theorem after?_eq_some_iff : ∀ {pat s r : Text}, after? pat s = some r ↔ s = pat ++ r
  | [], s, r => by simp [after?]
  | _ :: _, [], r => by simp [after?]
  | p :: ps, c :: s, r => by
    by_cases h : p = c
    · simp [after?, h, @after?_eq_some_iff ps]
    · simp [after?, h, Ne.symm h]

/-- What stands before and after the first occurrence of `pat`. -/
def cut? (pat : Text) : Text → Option (Text × Text)
  | [] => (after? pat []).map fun r => ([], r)
  | c :: s =>
    match after? pat (c :: s) with
    | some r => some ([], r)
    | none => (cut? pat s).map fun p => (c :: p.1, p.2)

/-- The three parts of a cut make up the text. -/
theorem eq_of_cut? {pat : Text} : ∀ {s a b : Text}, cut? pat s = some (a, b) → s = a ++ pat ++ b
  | [], a, b, h => by
    simp only [cut?, Option.map_eq_some_iff, Prod.mk.injEq] at h
    obtain ⟨r, hr, rfl, rfl⟩ := h
    simpa using after?_eq_some_iff.mp hr
  | c :: s, a, b, h => by
    unfold cut? at h
    split at h
    · rename_i r hr
      simp only [Option.some.injEq, Prod.mk.injEq] at h
      obtain ⟨rfl, rfl⟩ := h
      simpa using after?_eq_some_iff.mp hr
    · simp only [Option.map_eq_some_iff, Prod.mk.injEq] at h
      obtain ⟨⟨a', b'⟩, hp, rfl, rfl⟩ := h
      simp [eq_of_cut? hp]

theorem length_lt_of_cut? {pat s a b : Text} (hpat : pat ≠ []) (h : cut? pat s = some (a, b)) :
    b.length < s.length := by
  have := List.length_pos_iff.mpr hpat
  rw [eq_of_cut? h]
  simp only [List.length_append]
  omega

/-- What stands before and after the last occurrence of `pat`. -/
def cutLast? (pat s : Text) : Option (Text × Text) :=
  (cut? pat.reverse s.reverse).map fun p => (p.2.reverse, p.1.reverse)

/-- Whether `pat` occurs in the text. -/
def contains (pat s : Text) : Bool := (cut? pat s).isSome

/-- The pieces of a text between the occurrences of `pat`, which are taken
from the left and do not overlap. An empty pattern has none. -/
def pieces (pat s : Text) : List Text :=
  if _ : pat = [] then [s]
  else
    match _ : cut? pat s with
    | none => [s]
    | some (a, b) => a :: pieces pat b
termination_by s.length
decreasing_by exact length_lt_of_cut? (by assumption) (by assumption)

theorem pieces_ne_nil (pat s : Text) : pieces pat s ≠ [] := by
  unfold pieces
  split
  · simp
  · split <;> simp

/-- The pieces of a text, with the pattern between them, make up the text. -/
theorem intercalate_pieces (pat : Text) : ∀ s : Text, pat.intercalate (pieces pat s) = s := by
  intro s
  fun_induction pieces pat s with
  | case1 => simp [List.intercalate]
  | case2 => simp [List.intercalate]
  | case3 s hpat a b h ih =>
    obtain ⟨p, ps, hps⟩ := List.exists_cons_of_ne_nil (pieces_ne_nil pat b)
    rw [hps] at ih
    rw [eq_of_cut? h, hps]
    simp only [List.intercalate] at ih ⊢
    simp [← ih, List.intersperse]

/-- Every occurrence of `pat` replaced by `rep`. -/
def replaceAll (pat rep s : Text) : Text := rep.intercalate (pieces pat s)

/-- The number of occurrences of `pat`. -/
def count (pat s : Text) : Nat := (pieces pat s).length - 1

/-- The text without the byte order mark that it may start with. -/
def dropMark : Text → Text
  | '\uFEFF' :: s => s
  | s => s

/-- Whether the text ends with the character `c`. -/
def endsWith (c : Char) (s : Text) : Bool := s.getLast? == some c

theorem length_dropWhile_le (p : Char → Bool) (s : Text) : (s.dropWhile p).length ≤ s.length :=
  (List.dropWhile_sublist p).length_le

end Text
end Formulary
