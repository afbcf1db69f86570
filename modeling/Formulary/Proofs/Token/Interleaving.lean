/-
# Literals and placeholders

A text with placeholders is an interleaving of literals and formulas. Read
from the left, it gives back the formulas that were put in, and the literals
joined to as long stretches as there are, if no such stretch holds the start
of a placeholder (`splitPlaceholders_marked`).

Key definitions: `Part.marked`, `Clear`, `joinLiterals`, `IsMarkId`.
Key theorems: `slices_append`, `slices_placeholder_append`, `slices_marked`,
`splitPlaceholders_marked`, `joined_joinLiterals`.
-/
import Formulary.Proofs.Text.Search
import Formulary.Token.Placeholder
import Mathlib.Data.List.Chain

namespace Formulary

theorem unbordered_markStart : Text.Unbordered markStart := by decide

theorem unbordered_markEnd : Text.Unbordered markEnd := by decide

/-! ### Interleavings -/

namespace Part

/-- A part as it stands in a text with placeholders. -/
def marked : Part → Text
  | literal s => s
  | math f => placeholder f.id

/-- The slice that a part is read as. -/
def slice : Part → Slice
  | literal s => .literal s
  | math f => .mark f.id

/-- The formula of a part that is one. -/
def formula? : Part → Option Formula
  | literal _ => none
  | math f => some f

end Part

/-- The literal text that the parts start with. -/
def leading : List Part → Text
  | .literal s :: ps => s ++ leading ps
  | _ => []

/-- No stretch of literals contains `pat`, whatever formula it starts after. -/
def Clear (pat : Text) (ps : List Part) : Prop := ∀ qs, qs <:+ ps → ¬ pat <:+: leading qs

theorem clear_nil {pat : Text} (hpat : pat ≠ []) : Clear pat [] := by
  intro qs hqs h
  rw [List.suffix_nil.mp hqs] at h
  exact hpat (List.infix_nil.mp h)

theorem clear_cons {pat : Text} {p : Part} {ps : List Part} :
    Clear pat (p :: ps) ↔ ¬ pat <:+: leading (p :: ps) ∧ Clear pat ps := by
  refine ⟨fun h => ⟨h _ (List.suffix_refl _), fun qs hqs => ?_⟩, ?_⟩
  · exact h qs (hqs.trans (List.suffix_cons p ps))
  · rintro ⟨h0, h⟩ qs hqs
    rcases List.suffix_cons_iff.mp hqs with rfl | hqs
    · exact h0
    · exact h qs hqs

theorem Clear.leading {pat : Text} {ps : List Part} (h : Clear pat ps) : ¬ pat <:+: leading ps :=
  h ps (List.suffix_refl ps)

/-- Puts a part in front of parts, a literal together with the literal that
they start with. -/
def consPart : Part → List Part → List Part
  | .literal [], ps => ps
  | .literal s, .literal t :: ps => .literal (s ++ t) :: ps
  | p, ps => p :: ps

/-- The parts with adjacent literals joined and empty ones left out. -/
def joinLiterals (ps : List Part) : List Part := ps.foldr consPart []

@[simp] theorem joinLiterals_nil : joinLiterals [] = [] := rfl

@[simp] theorem joinLiterals_cons (p : Part) (ps : List Part) :
    joinLiterals (p :: ps) = consPart p (joinLiterals ps) := rfl

@[simp] theorem consPart_math (f : Formula) (ps : List Part) :
    consPart (.math f) ps = .math f :: ps := by
  cases ps <;> rfl

/-! ### Reading placeholders -/

/-- An id that a placeholder can hold. -/
structure IsMarkId (id : Text) : Prop where
  ne_nil : id ≠ []
  oneLine : '\n' ∉ id
  no_end : ¬ markEnd <:+: id

theorem markAt?_eq_none {s : Text} (h : ¬ markStart <+: s) : markAt? s = none := by
  unfold markAt?
  rw [Text.after?_eq_none_iff.mpr h]

/-- A placeholder is read up to its first end mark. -/
theorem markAt?_eq_some_iff {s id r : Text} :
    markAt? s = some (id, r) ↔
      s = placeholder id ++ r ∧ id ≠ [] ∧ '\n' ∉ id ∧ ¬ markEnd <:+: id.tail := by
  refine ⟨fun h => ⟨source_of_markAt? h, ?_⟩, ?_⟩
  · unfold markAt? at h
    split at h
    · split at h
      · rename_i a rest hcut
        split at h
        · simp at h
        · rename_i c u _ hline
          obtain ⟨rfl, rfl⟩ := Prod.mk.inj (Option.some.inj h)
          exact ⟨by simp, hline, Text.not_infix_of_skips (by decide) (Text.skips_of_cut? hcut)⟩
      · simp at h
    · simp at h
  · rintro ⟨rfl, hne, hline, hend⟩
    obtain ⟨c, a, rfl⟩ := List.exists_cons_of_ne_nil hne
    have hstart : Text.after? markStart (placeholder (c :: a) ++ r) =
        some (c :: (a ++ (markEnd ++ r))) := by
      rw [Text.after?_eq_some_iff]
      simp [placeholder]
    have hcut : Text.cut? markEnd (a ++ (markEnd ++ r)) = some (a, r) :=
      Text.cut?_eq_some_iff.mpr ⟨rfl, Text.skips_of_unbordered unbordered_markEnd hend r⟩
    unfold markAt?
    rw [hstart]
    simp only [hcut, if_neg hline]

theorem markAt?_placeholder_append {id : Text} (h : IsMarkId id) (s : Text) :
    markAt? (placeholder id ++ s) = some (id, s) :=
  markAt?_eq_some_iff.mpr ⟨rfl, h.ne_nil, h.oneLine, fun hin =>
    h.no_end (hin.trans (List.tail_suffix id).isInfix)⟩

theorem slices_of_markAt?_eq_some {s id r : Text} (h : markAt? s = some (id, r)) :
    slices s = .mark id :: slices r := by
  cases s with
  | nil => simp [markAt?, Text.after?, markStart] at h
  | cons c s =>
    rw [slices]
    split
    · rename_i hat
      rw [h] at hat
      obtain ⟨rfl, rfl⟩ := Prod.mk.inj (Option.some.inj hat)
      rfl
    · rename_i hat
      rw [h] at hat
      simp at hat

theorem slices_of_markAt?_eq_none {c : Char} {s : Text} (h : markAt? (c :: s) = none) :
    slices (c :: s) = consLiteral c (slices s) := by
  rw [slices]
  split
  · rename_i hat
    rw [h] at hat
    simp at hat
  · rfl

theorem slices_placeholder_append {id : Text} (h : IsMarkId id) (s : Text) :
    slices (placeholder id ++ s) = .mark id :: slices s :=
  slices_of_markAt?_eq_some (markAt?_placeholder_append h s)

/-- Where no placeholder starts, the text goes into the literal that follows. -/
theorem slices_append {u s : Text} (h : Text.Skips markStart u s) :
    slices (u ++ s) = u.foldr consLiteral (slices s) := by
  induction u with
  | nil => rfl
  | cons c u ih =>
    obtain ⟨h0, h⟩ := Text.skips_cons.mp h
    rw [List.cons_append, slices_of_markAt?_eq_none (markAt?_eq_none h0), List.foldr_cons, ih h]

/-- A search for the start of a placeholder passes over a literal. -/
theorem skips_markStart {u : Text} {ps : List Part} (h : ¬ markStart <:+: u ++ leading ps) :
    Text.Skips markStart u (ps.flatMap Part.marked) := by
  induction ps generalizing u with
  | nil => exact Text.skips_of_absent (by simpa [leading] using h)
  | cons p ps ih =>
    cases p with
    | literal v =>
      have := ih (u := u ++ v) (by simpa [leading] using h)
      rw [Text.skips_append] at this
      simpa [Part.marked] using this.1
    | math f =>
      have hu : ¬ markStart <:+: u := by simpa [leading] using h
      have := Text.skips_of_unbordered unbordered_markStart hu
        (f.id ++ markEnd ++ ps.flatMap Part.marked)
      simpa [Part.marked, placeholder] using this

theorem foldr_consLiteral_slice (u : Text) (ps : List Part) :
    u.foldr consLiteral (ps.map Part.slice) = (consPart (.literal u) ps).map Part.slice := by
  induction u with
  | nil => rfl
  | cons c u ih =>
    rw [List.foldr_cons, ih]
    cases u with
    | nil =>
      cases ps with
      | nil => rfl
      | cons p ps => cases p <;> rfl
    | cons d u =>
      cases ps with
      | nil => rfl
      | cons p ps => cases p <;> rfl

/-- An interleaving is read as its formulas and its joined literals. -/
theorem slices_marked {ps : List Part} (hclear : Clear markStart ps)
    (hid : ∀ f, Part.math f ∈ ps → IsMarkId f.id) :
    slices (ps.flatMap Part.marked) = (joinLiterals ps).map Part.slice := by
  induction ps with
  | nil => rw [List.flatMap_nil, slices]; rfl
  | cons p ps ih =>
    obtain ⟨hlead, hclear⟩ := clear_cons.mp hclear
    have ih := ih hclear fun f hf => hid f (List.mem_cons_of_mem p hf)
    rw [List.flatMap_cons, joinLiterals_cons]
    cases p with
    | literal u =>
      rw [Part.marked, slices_append (skips_markStart hlead), ih, foldr_consLiteral_slice]
    | math f =>
      rw [Part.marked, slices_placeholder_append (hid f List.mem_cons_self), ih, consPart_math]
      rfl

/-! ### Joined literals -/

theorem filterMap_formula?_consPart (p : Part) (ps : List Part) :
    (consPart p ps).filterMap Part.formula? = (p :: ps).filterMap Part.formula? := by
  unfold consPart
  split <;> rfl

/-- Joining literals keeps the formulas and their order. -/
theorem filterMap_formula?_joinLiterals (ps : List Part) :
    (joinLiterals ps).filterMap Part.formula? = ps.filterMap Part.formula? := by
  induction ps with
  | nil => rfl
  | cons p ps ih =>
    rw [joinLiterals_cons, filterMap_formula?_consPart, List.filterMap_cons, ih,
      ← List.filterMap_cons]

theorem mem_filterMap_formula?_iff {ps : List Part} {f : Formula} :
    f ∈ ps.filterMap Part.formula? ↔ Part.math f ∈ ps := by
  rw [List.mem_filterMap]
  refine ⟨?_, fun h => ⟨_, h, rfl⟩⟩
  rintro ⟨p, hp, hf⟩
  cases p with
  | literal u => simp [Part.formula?] at hf
  | math g =>
    obtain rfl : g = f := by simpa [Part.formula?] using hf
    exact hp

theorem math_mem_joinLiterals_iff {ps : List Part} {f : Formula} :
    Part.math f ∈ joinLiterals ps ↔ Part.math f ∈ ps := by
  rw [← mem_filterMap_formula?_iff, filterMap_formula?_joinLiterals, mem_filterMap_formula?_iff]

/-- Two parts that joining leaves side by side: one of them is a formula. -/
def Apart (p q : Part) : Prop := p.formula?.isSome ∨ q.formula?.isSome

theorem joined_consPart {p : Part} {ps : List Part} (hne : Part.literal [] ∉ ps)
    (hps : ps.IsChain Apart) :
    Part.literal [] ∉ consPart p ps ∧ (consPart p ps).IsChain Apart := by
  cases p with
  | math f =>
    rw [consPart_math]
    exact ⟨by simpa using hne, List.isChain_cons.mpr ⟨fun _ _ => .inl rfl, hps⟩⟩
  | literal u =>
    cases u with
    | nil => exact ⟨hne, hps⟩
    | cons c u =>
      cases ps with
      | nil => exact ⟨by simp [consPart], List.IsChain.singleton _⟩
      | cons q ps =>
        cases q with
        | math f =>
          refine ⟨by simpa [consPart] using hne, List.isChain_cons.mpr ⟨?_, hps⟩⟩
          intro q hq
          obtain rfl : Part.math f = q := by simpa using hq
          exact .inr rfl
        | literal v =>
          obtain ⟨hhead, htail⟩ := List.isChain_cons.mp hps
          exact ⟨by simpa [consPart] using List.not_mem_of_not_mem_cons hne,
            List.isChain_cons.mpr ⟨hhead, htail⟩⟩

theorem joined_joinLiterals (ps : List Part) :
    Part.literal [] ∉ joinLiterals ps ∧ (joinLiterals ps).IsChain Apart := by
  induction ps with
  | nil => exact ⟨by simp, List.IsChain.nil⟩
  | cons p ps ih => exact joined_consPart ih.1 ih.2

/-- **Reading an interleaving gives its formulas back**, each where it was put,
and the literals between them joined. -/
theorem splitPlaceholders_marked {byId : Text → Option Formula} {ps : List Part}
    (hclear : Clear markStart ps)
    (hid : ∀ f, Part.math f ∈ ps → IsMarkId f.id ∧ byId f.id = some f) :
    splitPlaceholders byId (ps.flatMap Part.marked) = joinLiterals ps := by
  have hresolve : ∀ p ∈ joinLiterals ps, p.slice.resolve? byId = some p := by
    intro p hp
    cases p with
    | literal u => rfl
    | math f =>
      have := (hid f (math_mem_joinLiterals_iff.mp hp)).2
      simp [Part.slice, Slice.resolve?, this]
  rw [splitPlaceholders, slices_marked hclear fun f hf => (hid f hf).1, List.filterMap_map]
  calc (joinLiterals ps).filterMap (Slice.resolve? byId ∘ Part.slice)
      = (joinLiterals ps).filterMap some := List.filterMap_congr hresolve
    _ = joinLiterals ps := List.filterMap_some

end Formulary
