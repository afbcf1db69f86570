/-
# Segments

A text that mixes Markdown and LaTeX is a sequence of plain stretches and
math spans. A span is display math between double dollar signs or inline
math between single ones; a dollar sign that opens no span is plain text.

Key definitions: `Segment`, `spanAt?`, `segments`, `Segment.source`.
Key theorem: `flatMap_source_segments`.
-/
import Formulary.Text.Basic

namespace Formulary

/-- A stretch of plain text, or the content of a math span. -/
inductive Segment
  | plain (s : Text)
  | math (content : Text) (display : Bool)
deriving DecidableEq, Repr, Inhabited

/-- Reads display math after its opening: it has at least one character and
ends at the next double dollar sign after it. -/
def displaySpan? : Text → Option (Segment × Text)
  | [] => none
  | c :: s => (Text.cut? "$$".toList s).map fun p => (.math (c :: p.1) true, p.2)

/-- Characters that may stand in inline math. -/
def isInline (c : Char) : Bool := c != '$' && c != '\n'

/-- Reads inline math after its opening: at least one character, on one line,
up to the next dollar sign. -/
def inlineSpan? (s : Text) : Option (Segment × Text) :=
  match s.takeWhile isInline, s.dropWhile isInline with
  | c :: content, '$' :: r => some (.math (c :: content) false, r)
  | _, _ => none

/-- The math span at the start of a text, and the text after it. -/
def spanAt? : Text → Option (Segment × Text)
  | '$' :: '$' :: s => displaySpan? s
  | '$' :: s => inlineSpan? s
  | _ => none

/-- Puts a character in front of segments, into the plain text they start with. -/
def consPlain (c : Char) : List Segment → List Segment
  | .plain s :: gs => .plain (c :: s) :: gs
  | gs => .plain [c] :: gs

theorem length_lt_of_spanAt? {s r : Text} {g : Segment} (h : spanAt? s = some (g, r)) :
    r.length < s.length := by
  unfold spanAt? at h
  split at h
  · rename_i u
    unfold displaySpan? at h
    split at h
    · simp at h
    · rename_i v
      simp only [Option.map_eq_some_iff, Prod.mk.injEq] at h
      obtain ⟨p, hp, _, rfl⟩ := h
      have := Text.length_lt_of_cut? (by decide) hp
      simp only [List.length_cons]
      omega
  · rename_i u _
    unfold inlineSpan? at h
    split at h
    · rename_i v hv
      simp only [Option.some.injEq, Prod.mk.injEq] at h
      have := Text.length_dropWhile_le isInline u
      rw [hv, List.length_cons] at this
      rw [← h.2, List.length_cons]
      omega
    · simp at h
  · simp at h

/-- The segments of a text, read from the left. -/
def segments : Text → List Segment
  | [] => []
  | c :: s =>
    match _ : spanAt? (c :: s) with
    | some (g, r) => g :: segments r
    | none => consPlain c (segments s)
termination_by s => s.length
decreasing_by
  · exact length_lt_of_spanAt? (by assumption)
  · simp

/-- A segment as it stands in the text. -/
def Segment.source : Segment → Text
  | .plain s => s
  | .math content true => "$$".toList ++ content ++ "$$".toList
  | .math content false => '$' :: content ++ ['$']

theorem source_of_spanAt? {s r : Text} {g : Segment} (h : spanAt? s = some (g, r)) :
    s = g.source ++ r := by
  unfold spanAt? at h
  split at h
  · rename_i u
    unfold displaySpan? at h
    split at h
    · simp at h
    · rename_i c v
      simp only [Option.map_eq_some_iff, Prod.mk.injEq] at h
      obtain ⟨p, hp, rfl, rfl⟩ := h
      simp [Segment.source, Text.eq_of_cut? hp]
  · rename_i u _
    unfold inlineSpan? at h
    split at h
    · rename_i c content v hc hv
      simp only [Option.some.injEq, Prod.mk.injEq] at h
      obtain ⟨rfl, rfl⟩ := h
      have := List.takeWhile_append_dropWhile (p := isInline) (l := u)
      rw [hc, hv] at this
      simp [Segment.source, ← this]
    · simp at h
  · simp at h

theorem flatMap_source_consPlain (c : Char) (gs : List Segment) :
    (consPlain c gs).flatMap Segment.source = c :: gs.flatMap Segment.source := by
  unfold consPlain
  split <;> simp [Segment.source]

/-- Segmenting loses nothing: the segments as they stand make up the text. -/
theorem flatMap_source_segments : ∀ s : Text, (segments s).flatMap Segment.source = s := by
  intro s
  fun_induction segments s with
  | case1 => rfl
  | case2 c s g r h ih => simp [ih, source_of_spanAt? h]
  | case3 c s _ ih => rw [flatMap_source_consPlain, ih]

end Formulary
