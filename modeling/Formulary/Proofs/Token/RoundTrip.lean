/-
# Placeholders are read back

What is combined with placeholders is split into the same formulas again, in
their order, with all that stands between two of them in one piece
(`splitPlaceholders_combine`). A text may end like the start of a placeholder, or
go on after one as if another started; only a whole start in it would be
misread.

Key definition: `Token.parts`.
Key theorems: `combine_eq_flatMap_marked`, `clear_parts`, `splitPlaceholders_combine`.
-/
import Formulary.Proofs.Token.Interleaving
import Formulary.Proofs.Token.Run

namespace Formulary

/-- The blank lines on both sides of display math. -/
def blankLines : Text := "\n\n".toList

/-- The parts of a token. Display math brings its blank lines along. -/
def Token.parts : Token → List Part
  | .plain _ s => [.literal s]
  | .math f =>
    if f.display then [.literal blankLines, .math f, .literal blankLines] else [.math f]

theorem Token.flatMap_marked_parts (t : Token) : t.parts.flatMap Part.marked = t.combined := by
  cases t with
  | plain id s => simp [parts, combined, Part.marked]
  | math f => by_cases hd : f.display <;> simp [parts, combined, Part.marked, blankLines, hd]

theorem combine_eq_flatMap_marked (ts : List Token) :
    combine ts = (ts.flatMap Token.parts).flatMap Part.marked := by
  rw [combine, List.flatMap_assoc]
  simp only [Token.flatMap_marked_parts]

theorem Token.filterMap_formula?_parts (t : Token) :
    t.parts.filterMap Part.formula? = t.formula?.toList := by
  cases t with
  | plain id s => rfl
  | math f => by_cases hd : f.display <;> (simp only [parts, hd]; rfl)

/-- The parts hold the formulas of the tokens, in their order. -/
theorem filterMap_formula?_flatMap_parts (ts : List Token) :
    (ts.flatMap Token.parts).filterMap Part.formula? = formulas ts := by
  induction ts with
  | nil => rfl
  | cons t ts ih =>
    rw [List.flatMap_cons, List.filterMap_append, ih, Token.filterMap_formula?_parts, formulas,
      formulas, List.filterMap_cons]
    cases t.formula? <;> rfl

theorem math_mem_flatMap_parts_iff {ts : List Token} {f : Formula} :
    Part.math f ∈ ts.flatMap Token.parts ↔ Token.math f ∈ ts := by
  rw [← mem_filterMap_formula?_iff, filterMap_formula?_flatMap_parts, mem_formulas_iff]

/-! ### Ids in placeholders -/

theorem isMarkId_tokenId {key : Text} (hline : '\n' ∉ key) (hend : ¬ markEnd <:+: key) (n : Nat) :
    IsMarkId (tokenId 'm' n key) := by
  have hdigits : ∀ c, c.isDigit = false → c ∉ Text.ofNat n := fun c hc h => by
    rw [Text.isDigit_of_mem_ofNat h] at hc
    simp at hc
  have hsplit : tokenId 'm' n key = ("m-".toList ++ Text.ofNat n ++ ['-']) ++ key := by
    simp [tokenId]
  refine ⟨by simp [tokenId], ?_, fun h => ?_⟩
  · rw [hsplit]
    simp [hline, hdigits '\n' rfl]
  · have h : 'P' :: "HMATH".toList <:+: ("m-".toList ++ Text.ofNat n ++ ['-']) ++ key := hsplit ▸ h
    have hprefix : 'P' ∉ "m-".toList ++ Text.ofNat n ++ ['-'] := by simp [hdigits 'P' rfl]
    exact hend (Text.infix_of_infix_append hprefix h)

theorem isMarkId_of_mem_tokenize {cv : Converters} {key s : Text} (hline : '\n' ∉ key)
    (hend : ¬ markEnd <:+: key) {f : Formula} (hf : Token.math f ∈ tokenize cv key s) :
    IsMarkId f.id := by
  obtain ⟨i, hi⟩ := List.mem_iff_getElem?.mp hf
  have hid : f.id = tokenId 'm' i key := id_of_getElem?_tokenize cv key s hi
  rw [hid]
  exact isMarkId_tokenId hline hend i

/-! ### Literals between the formulas of a run -/

/-- No two plain tokens of a run are adjacent. -/
theorem isChain_tokenize (cv : Converters) (key s : Text) :
    (tokenize cv key s).IsChain fun t u => t.isMath ∨ u.isMath := by
  have h := (segmentation_segments (foldAccents s)).not_adjacent
  rw [← map_segment_tokenize cv key s, List.isChain_map] at h
  refine h.imp fun t u => ?_
  cases t <;> cases u <;> simp [Token.segment, Segment.isMath, Token.isMath, Token.formula?]

/-- What a formula puts between the text before it and its placeholder. -/
theorem leading_of_isMath {t : Token} (ht : t.isMath) (ts : List Token) :
    leading ((t :: ts).flatMap Token.parts) = [] ∨
      leading ((t :: ts).flatMap Token.parts) = blankLines := by
  cases t with
  | plain id u => simp [Token.isMath, Token.formula?] at ht
  | math f =>
    by_cases hd : f.display
    · exact .inr (by simp [Token.parts, leading, hd])
    · exact .inl (by simp [Token.parts, leading, hd])

/-- Blank lines do not add to a start of a placeholder. -/
theorem not_infix_append_blankLines {u : Text} (h : ¬ markStart <:+: u) :
    ¬ markStart <:+: u ++ blankLines := by
  show ¬ markStart <:+: u ++ '\n' :: ['\n']
  rw [Text.infix_append_cons_iff (by decide), not_or]
  exact ⟨h, by decide⟩

/-- A formula comes with nothing that a placeholder starts with. -/
theorem clear_parts_math (f : Formula) {ps : List Part} (h : Clear markStart ps) :
    Clear markStart ((Token.math f).parts ++ ps) := by
  have hnil : ¬ markStart <:+: [] := by decide
  have hmath : ∀ {qs : List Part}, Clear markStart qs → Clear markStart (.math f :: qs) :=
    fun hqs => clear_cons.mpr ⟨hnil, hqs⟩
  by_cases hd : f.display
  · have hparts : (Token.math f).parts ++ ps =
        .literal blankLines :: .math f :: .literal blankLines :: ps := by simp [Token.parts, hd]
    have hbefore : ¬ markStart <:+: blankLines ++ [] := by decide
    have hafter : ¬ markStart <:+: blankLines ++ leading ps := fun hb =>
      h.leading (Text.infix_of_infix_append (by decide) hb)
    rw [hparts]
    exact clear_cons.mpr ⟨hbefore, hmath (clear_cons.mpr ⟨hafter, h⟩)⟩
  · have hparts : (Token.math f).parts ++ ps = .math f :: ps := by simp [Token.parts, hd]
    rw [hparts]
    exact hmath h

/-- Without the start of a placeholder in a plain token, there is none between
the formulas. -/
theorem clear_parts {ts : List Token} (hadj : ts.IsChain fun t u => t.isMath ∨ u.isMath)
    (hplain : ∀ id u, Token.plain id u ∈ ts → ¬ markStart <:+: u) :
    Clear markStart (ts.flatMap Token.parts) := by
  induction ts with
  | nil => exact clear_nil (by decide)
  | cons t ts ih =>
    obtain ⟨hhead, hadj⟩ := List.isChain_cons.mp hadj
    have ih := ih hadj fun id u hu => hplain id u (List.mem_cons_of_mem t hu)
    rw [List.flatMap_cons]
    cases t with
    | math f => exact clear_parts_math f ih
    | plain id u =>
      have hu : ¬ markStart <:+: u := hplain id u List.mem_cons_self
      have hnext : leading (ts.flatMap Token.parts) = [] ∨
          leading (ts.flatMap Token.parts) = blankLines := by
        cases ts with
        | nil => exact .inl rfl
        | cons t ts =>
          -- two plain tokens are never adjacent, so a formula follows
          have ht : t.isMath := by simpa [Token.isMath, Token.formula?] using hhead
          exact leading_of_isMath ht ts
      refine clear_cons.mpr ⟨?_, ih⟩
      show ¬ markStart <:+: u ++ leading (ts.flatMap Token.parts)
      rcases hnext with hnext | hnext
      · rw [hnext, List.append_nil]
        exact hu
      · rw [hnext]
        exact not_infix_append_blankLines hu

/-- **Splitting undoes combining**, for the tokens of a run. -/
theorem splitPlaceholders_combine (cv : Converters) (fresh key s : Text) (ts : List Token)
    (hts : ts = tokenize cv (runKey fresh (some key)) s) (hkey : key ≠ []) (hline : '\n' ∉ key)
    (hend : ¬ markEnd <:+: key) (hplain : ∀ id u, Token.plain id u ∈ ts → ¬ markStart <:+: u) :
    splitPlaceholders (formulaById ts) (combine ts) = joinLiterals (ts.flatMap Token.parts) ∧
    (joinLiterals (ts.flatMap Token.parts)).filterMap Part.formula? = formulas ts ∧
    Part.literal [] ∉ joinLiterals (ts.flatMap Token.parts) ∧
    (joinLiterals (ts.flatMap Token.parts)).IsChain Apart := by
  rw [runKey_some hkey] at hts
  have hclear : Clear markStart (ts.flatMap Token.parts) :=
    clear_parts (hts ▸ isChain_tokenize cv key s) hplain
  have hid : ∀ f, Part.math f ∈ ts.flatMap Token.parts →
      IsMarkId f.id ∧ formulaById ts f.id = some f := by
    intro f hf
    have hf := math_mem_flatMap_parts_iff.mp hf
    have hnodup : ((formulas ts).map Formula.id).Nodup :=
      hts ▸ nodup_ids_formulas_tokenize cv key s
    have hmark : IsMarkId f.id := isMarkId_of_mem_tokenize hline hend (hts ▸ hf)
    exact ⟨hmark, (formulaById_eq_some_iff hnodup).mpr ⟨hf, rfl⟩⟩
  refine ⟨?_, ?_, joined_joinLiterals _⟩
  · rw [combine_eq_flatMap_marked]
    exact splitPlaceholders_marked hclear hid
  · rw [filterMap_formula?_joinLiterals, filterMap_formula?_flatMap_parts]

/-- Text before, between and after two formulas that would make a placeholder
with the marks next to it. -/
def nearMarks : Text := "MATH$x$PHMATH $$y$$PH".toList

theorem segments_nearMarks : segments (foldAccents nearMarks) =
    [.plain "MATH".toList, .math "x".toList false, .plain "PHMATH ".toList,
      .math "y".toList true, .plain "PH".toList] := by
  decide +kernel

theorem not_infix_nearMarks (key : Text) (id u : Text)
    (hu : Token.plain id u ∈ tokenize .wordsOnly key nearMarks) : ¬ markStart <:+: u := by
  have hu : Segment.plain u ∈ segments (foldAccents nearMarks) := by
    rw [← map_segment_tokenize .wordsOnly key nearMarks]
    exact List.mem_map_of_mem (f := Token.segment) hu
  rw [segments_nearMarks] at hu
  simp only [List.mem_cons, List.not_mem_nil, or_false, reduceCtorEq, false_or,
    Segment.plain.injEq] at hu
  rcases hu with rfl | rfl | rfl <;> decide

theorem splitPlaceholders_combine_nearMarks :
    '\n' ∉ "ab".toList ∧ ¬ markEnd <:+: "ab".toList ∧
    (splitPlaceholders (formulaById (tokenize .wordsOnly "ab".toList nearMarks))
        (combine (tokenize .wordsOnly "ab".toList nearMarks))).map Part.slice =
      [.literal "MATH".toList, .mark "m-1-ab".toList, .literal "PHMATH \n\n".toList,
        .mark "m-3-ab".toList, .literal "\n\nPH".toList] := by
  refine ⟨by decide, by decide, ?_⟩
  rw [(splitPlaceholders_combine .wordsOnly [] "ab".toList nearMarks
    (tokenize .wordsOnly "ab".toList nearMarks) rfl (by decide) (by decide) (by decide)
    (not_infix_nearMarks "ab".toList)).1]
  decide +kernel

end Formulary
