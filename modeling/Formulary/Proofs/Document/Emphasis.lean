/-
# Emphasis around a formula

Asterisks in a text that the lexer has left alone switch bold and italics on and off. If
what they switch on before a formula held after it too, the runs would be those of
`carriedRuns`. But each stretch between formulas starts over in the style of the text, so
these are the runs exactly if nothing is switched on where a stretch with anything to show
begins (`textRuns_eq_carriedRuns_iff`).

Key definitions: `styleAfter`, `styleAt`, `carriedRuns`, `shows`.
Key theorems: `styledRuns_concat`, `styledRuns_eq_iff`, `textRuns_eq_carriedRuns_iff`.
-/
import Formulary.Proofs.Document.Shown
import Mathlib.Data.List.TakeWhile

namespace Formulary

/-! ### The style at a place -/

/-- The style that holds at the end of a text that starts in a style. -/
def styleAfter (style : Style) : Text → Style
  | [] => style
  | '*' :: '*' :: s => styleAfter style.toggleBold s
  | '*' :: s => styleAfter style.toggleItalic s
  | _ :: s => styleAfter style s

/-- Whether a text shows anything: it is not made of markers alone. -/
def shows (s : Text) : Bool := s.any isUnmarked

/-- The style that holds behind parts of a text. Formulas switch nothing. -/
def styleAt (style : Style) : List Part → Style
  | [] => style
  | .literal s :: ps => styleAt (styleAfter style s) ps
  | .math _ :: ps => styleAt style ps

/-- The runs of parts if the style is carried from stretch to stretch. Formulas are in the style
of the whole text, and `now` is the style that holds where the parts begin. -/
def carriedRuns (style now : Style) : List Part → List Run
  | [] => []
  | .literal s :: ps => styledRuns now s ++ carriedRuns style (styleAfter now s) ps
  | .math f :: ps => formulaRuns style f ++ carriedRuns style now ps

/-- Characters that are no markers switch nothing. -/
theorem styleAfter_append {u : Text} (hu : ∀ c ∈ u, isUnmarked c = true) (style : Style)
    (s : Text) : styleAfter style (u ++ s) = styleAfter style s := by
  induction u with
  | nil => rfl
  | cons c u ih =>
    obtain ⟨hc, hu⟩ := List.forall_mem_cons.mp hu
    have hc : c ≠ '*' := by simpa [isUnmarked] using hc
    rw [List.cons_append, styleAfter, ih hu]
    · rintro s' rfl -
      exact hc rfl
    · exact hc

theorem styledRuns_unmarked {c : Char} (hc : c ≠ '*') (style : Style) (s : Text) :
    styledRuns style (c :: s) =
      .text (c :: s.takeWhile isUnmarked) style :: styledRuns style (s.dropWhile isUnmarked) := by
  rw [styledRuns]
  · rintro s' rfl -
    exact hc rfl
  · exact hc

/-- A character behind a text is in the style that holds at the end of the text. -/
theorem styledRuns_concat {c : Char} (hc : c ≠ '*') (style : Style) (s : Text) :
    ∃ rs u, styledRuns style (s ++ [c]) = rs ++ [.text (u ++ [c]) (styleAfter style s)] := by
  fun_induction styledRuns style s with
  | case1 style =>
    refine ⟨[], [], ?_⟩
    rw [List.nil_append, styledRuns_unmarked hc, List.takeWhile_nil, List.dropWhile_nil, styledRuns]
    rfl
  | case2 style s ih =>
    obtain ⟨rs, u, h⟩ := ih
    exact ⟨rs, u, by simpa [styledRuns, styleAfter] using h⟩
  | case3 style s hs ih =>
    obtain ⟨rs, u, h⟩ := ih
    refine ⟨rs, u, ?_⟩
    have hrest : ∀ t, s ++ [c] ≠ '*' :: t := by
      intro t ht
      cases s with
      | nil => exact hc (List.cons.inj ht).1
      | cons d s => exact hs s (by rw [(List.cons.inj ht).1])
    rw [List.cons_append, styledRuns, styleAfter, h]
    · exact hs
    · exact hrest
  | case4 style d s h1 h2 ih =>
    have hd : d ≠ '*' := h2
    obtain ⟨rs, u, h⟩ := ih
    have hsplit : styleAfter style (d :: s) = styleAfter style (s.dropWhile isUnmarked) := by
      calc styleAfter style (d :: s)
          = styleAfter style ((d :: s.takeWhile isUnmarked) ++ s.dropWhile isUnmarked) := by
            rw [List.cons_append, List.takeWhile_append_dropWhile]
        _ = _ := styleAfter_append (List.forall_mem_cons.mpr
            ⟨by simpa [isUnmarked] using hd, fun x => List.mem_takeWhile_imp⟩) _ _
    rw [List.cons_append, styledRuns_unmarked hd, hsplit]
    by_cases hrest : s.dropWhile isUnmarked = []
    · -- the new character joins the last stretch
      have hs : ∀ x ∈ s ++ [c], isUnmarked x = true := by
        refine List.forall_mem_append.mpr ⟨List.dropWhile_eq_nil_iff.mp hrest, ?_⟩
        simpa [isUnmarked] using hc
      refine ⟨[], d :: s, ?_⟩
      rw [List.takeWhile_eq_self_iff.mpr hs, List.dropWhile_eq_nil_iff.mpr hs, hrest, styledRuns,
        styleAfter]
      rfl
    · refine ⟨.text (d :: s.takeWhile isUnmarked) style :: rs, u, ?_⟩
      have hlength : (s.takeWhile isUnmarked).length ≠ s.length := by
        intro hlength
        have := congrArg List.length (List.takeWhile_append_dropWhile (p := isUnmarked) (l := s))
        rw [List.length_append, hlength] at this
        exact hrest (List.length_eq_zero_iff.mp (by omega))
      rw [List.takeWhile_append, List.dropWhile_append, if_neg hlength,
        if_neg (by simpa using hrest), h, List.cons_append]

/-- A text has runs of the same stretches, whatever style it starts in. -/
theorem length_styledRuns (style now : Style) (s : Text) :
    (styledRuns style s).length = (styledRuns now s).length := by
  fun_induction styledRuns style s generalizing now with
  | case1 => simp [styledRuns]
  | case2 style s ih => rw [styledRuns, ih]
  | case3 style s hs ih => rw [styledRuns, ih]; exact hs
  | case4 style c s _ hc ih => rw [styledRuns_unmarked hc, List.length_cons, List.length_cons, ih]

theorem toggleBold_eq_iff {a b : Style} : a.toggleBold = b.toggleBold ↔ a = b := by
  obtain ⟨bold, italic⟩ := a
  obtain ⟨bold', italic'⟩ := b
  simp [Style.toggleBold]

theorem toggleItalic_eq_iff {a b : Style} : a.toggleItalic = b.toggleItalic ↔ a = b := by
  obtain ⟨bold, italic⟩ := a
  obtain ⟨bold', italic'⟩ := b
  simp [Style.toggleItalic]

/-- The runs of a text tell the style it starts in, unless it shows nothing. -/
theorem styledRuns_eq_iff (style now : Style) (s : Text) :
    styledRuns style s = styledRuns now s ↔ (shows s = true → now = style) := by
  -- markers switch both styles alike, so what is equal behind them was equal before
  fun_induction styledRuns style s generalizing now with
  | case1 => simp [styledRuns, shows]
  | case2 style s ih =>
    rw [styledRuns, ih, toggleBold_eq_iff]
    rfl
  | case3 style s hs ih =>
    rw [styledRuns, ih, toggleItalic_eq_iff]
    · rfl
    · exact hs
  | case4 style c s _ hc ih =>
    have hshows : shows (c :: s) = true := by
      rw [shows, List.any_cons, isUnmarked, bne_iff_ne.mpr hc, Bool.true_or]
    rw [styledRuns_unmarked hc, hshows]
    refine ⟨fun h _ => ?_, fun h => by rw [h rfl]⟩
    injection h with hfirst
    injection hfirst with _ hstyle
    exact hstyle.symm

/-! ### Stretches between formulas -/

/-- The runs of parts that all start in one style are those with the style carried on exactly if
it is back where it started before every stretch that shows anything. -/
theorem flatMap_partRuns_eq_iff (style now : Style) (ps : List Part) :
    ps.flatMap (partRuns style) = carriedRuns style now ps ↔
      ∀ as s bs, ps = as ++ .literal s :: bs → shows s = true → styleAt now as = style := by
  induction ps generalizing now with
  | nil => simp [carriedRuns]
  | cons p ps ih =>
    -- a stretch is the first part or one of the later ones
    have hsplit : (∀ as s bs, p :: ps = as ++ .literal s :: bs → shows s = true →
          styleAt now as = style) ↔
        (∀ s, p = .literal s → shows s = true → now = style) ∧
          ∀ as s bs, ps = as ++ .literal s :: bs → shows s = true →
            styleAt now (p :: as) = style := by
      constructor
      · intro h
        refine ⟨fun s hp => h [] s ps (by rw [hp]; rfl), fun as s bs hps => ?_⟩
        exact h (p :: as) s bs (by rw [hps]; rfl)
      · rintro ⟨hfirst, hlater⟩ as s bs hps
        cases as with
        | nil => exact hfirst s (List.cons.inj hps).1
        | cons q as =>
          obtain ⟨rfl, htail⟩ := List.cons.inj hps
          exact hlater as s bs htail
    rw [hsplit, List.flatMap_cons]
    cases p with
    | math f =>
      rw [carriedRuns, partRuns, List.append_cancel_left_eq, ih]
      simp [styleAt]
    | literal s =>
      have happend : styledRuns style s ++ ps.flatMap (partRuns style) =
            styledRuns now s ++ carriedRuns style (styleAfter now s) ps ↔
          styledRuns style s = styledRuns now s ∧
            ps.flatMap (partRuns style) = carriedRuns style (styleAfter now s) ps := by
        refine ⟨fun h => List.append_inj h (length_styledRuns style now s), ?_⟩
        rintro ⟨hfirst, hrest⟩
        rw [hfirst, hrest]
      rw [carriedRuns, partRuns, happend, ih, styledRuns_eq_iff]
      simp [styleAt]

section Texts

variable {byId : Text → Option Formula} {lex : Text → List Inline}

/-- **Where emphasis is carried past a formula.** Take a text that the lexer leaves as it is, and
its parts, the stretches between formulas and the formulas. A text of asterisks alone is literal.
In any other, each stretch starts in the style of the text, so the runs are those with the style
carried on exactly if nothing is switched on where a stretch with anything to show begins. The
style carried on is the one that a character at the end of the stretch has. -/
theorem textRuns_eq_carriedRuns_iff {s : Text}
    (hlex : mergeTexts Inline.view (lex s) = [.text s]) (depth : Nat) (style : Style) :
    (s ≠ [] ∧ s.all (· == '*') → textRuns byId lex (depth + 1) style s = some [.text s style]) ∧
    (¬ (s ≠ [] ∧ s.all (· == '*')) →
      textRuns byId lex (depth + 1) style s =
        some ((splitPlaceholders byId s).flatMap (partRuns style)) ∧
      (textRuns byId lex (depth + 1) style s =
          some (carriedRuns style style (splitPlaceholders byId s)) ↔
        ∀ as t bs, splitPlaceholders byId s = as ++ .literal t :: bs → shows t = true →
          styleAt style as = style)) ∧
    ∀ (now : Style) (t : Text) (c : Char), c ≠ '*' →
      ∃ rs u, styledRuns now (t ++ [c]) = rs ++ [.text (u ++ [c]) (styleAfter now t)] := by
  have hleaf : ¬ (s ≠ [] ∧ s.all (· == '*')) → textRuns byId lex (depth + 1) style s =
      some ((splitPlaceholders byId s).flatMap (partRuns style)) := by
    intro h
    rw [textRuns, if_neg h, hlex]
    rfl
  refine ⟨fun h => by rw [textRuns, if_pos h], fun h => ⟨hleaf h, ?_⟩, fun now t c hc =>
    styledRuns_concat hc now t⟩
  rw [hleaf h, ← flatMap_partRuns_eq_iff]
  exact Option.some_inj

end Texts

/-- A fraction, which is written as a formula. -/
def fraction : Formula :=
  ⟨"m-1-k".toList, "\\frac".toList, false, ⟨[], [], "<m:oMath><m:f/></m:oMath>".toList⟩⟩

/-- A fraction between markers that bracket the text around it. -/
def boldAround : Text := "**a MATHPHm-1-kPHMATH b**".toList

theorem textRuns_eq_carriedRuns_iff_boldAround :
    textRuns (formulaById [.math fraction]) (lexOrPlain Inline.view none) 1 .plain boldAround =
      some [.text "a ".toList ⟨true, false⟩, .math fraction.markup.omml fraction.latex false,
        .text " b".toList .plain] ∧
    carriedRuns .plain .plain (splitPlaceholders (formulaById [.math fraction]) boldAround) =
      [.text "a ".toList ⟨true, false⟩, .math fraction.markup.omml fraction.latex false,
        .text " b".toList ⟨true, false⟩] ∧
    ¬ ∀ as t bs, splitPlaceholders (formulaById [.math fraction]) boldAround =
        as ++ .literal t :: bs → shows t = true → styleAt .plain as = .plain := by
  have hlex : mergeTexts Inline.view (lexOrPlain Inline.view none boldAround) =
      [.text boldAround] := rfl
  have hparts : splitPlaceholders (formulaById [.math fraction]) boldAround =
      [.literal "**a ".toList, .math fraction, .literal " b**".toList] := by decide +kernel
  have hformula : formulaRuns .plain fraction =
      [.math fraction.markup.omml fraction.latex false] := by decide +kernel
  have hruns : (splitPlaceholders (formulaById [.math fraction]) boldAround).flatMap
      (partRuns .plain) = [.text "a ".toList ⟨true, false⟩,
        .math fraction.markup.omml fraction.latex false, .text " b".toList .plain] := by
    simp only [hparts, List.flatMap_cons, List.flatMap_nil, partRuns, hformula]
    decide +kernel
  have hcarried : carriedRuns .plain .plain
      (splitPlaceholders (formulaById [.math fraction]) boldAround) =
      [.text "a ".toList ⟨true, false⟩, .math fraction.markup.omml fraction.latex false,
        .text " b".toList ⟨true, false⟩] := by
    simp only [hparts, carriedRuns, hformula]
    decide +kernel
  obtain ⟨-, hmixed, -⟩ :=
    @textRuns_eq_carriedRuns_iff (formulaById [.math fraction]) _ _ hlex 0 .plain
  obtain ⟨htext, hiff⟩ := hmixed (by decide)
  rw [hruns] at htext
  refine ⟨htext, hcarried, fun h => ?_⟩
  have hsame := hiff.mpr h
  rw [htext, hcarried] at hsame
  exact absurd hsame (by decide)

end Formulary
