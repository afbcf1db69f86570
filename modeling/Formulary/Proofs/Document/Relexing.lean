/-
# Lexing texts again

Each text among inline nodes is lexed again, and so are the texts in what comes of it, unless
the text is made of asterisks alone or comes to a single text node. The nodes have runs exactly
if this ends on every way down from their texts (`acc_relexes_iff`), and a greater depth than
that takes changes nothing (`textRuns_mono`). A text that is lexed again for itself never has any
(`textRuns_of_relexes_self`).

If lexing only ever gives back shorter texts, it ends for all nodes, and a depth greater than
the length of each of their texts will do, however large the trees are that come of a text
(`inlineRuns_ends`). The empty text is none of asterisks: nothing may be lexed again for it.

Key definitions: `textsOf`, `Relexes`, `Shortens`.
Key theorems: `isSome_textRuns_succ`, `textRuns_mono`, `acc_relexes_iff`, `inlineRuns_ends`.
-/
import Formulary.Proofs.Document.Leaves

namespace Formulary

/-- The text of a leaf that is lexed again. -/
def Reached.text? (l : Reached) : Option Text :=
  match l.leaf with
  | .text s => some s
  | _ => none

/-- The texts among nodes, at any depth, with the labels of links without children. -/
def textsOf (ns : List Inline) : List Text := (allLeaves ns).filterMap Reached.text?

/-- One text is lexed again when the other one is. -/
def Relexes (lex : Text → List Inline) (u t : Text) : Prop :=
  ¬ (t ≠ [] ∧ t.all (· == '*')) ∧ soleText? (mergeTexts Inline.view (lex t)) = none ∧
    u ∈ textsOf (mergeTexts Inline.view (lex t))

/-- What is lexed again for a text is shorter. -/
def Shortens (lex : Text → List Inline) : Prop :=
  ∀ t u, Relexes lex u t → u.length < t.length

/-! ### Leaves with and without runs -/

section Leaves

variable {byId : Text → Option Formula} {texts more : Style → Text → Option (List Run)}
  {style : Style}

theorem Reached.isSome_runs_iff {l : Reached} : (l.runs byId texts style).isSome ↔
    ∀ s ∈ l.text?, (texts (style.within l.above) s).isSome := by
  obtain ⟨above, leaf⟩ := l
  cases leaf <;> simp [Reached.runs, Reached.text?]

theorem isSome_leavesRuns_iff {ls : List Reached} : (leavesRuns byId texts style ls).isSome ↔
    ∀ l ∈ ls, (l.runs byId texts style).isSome := by
  induction ls with
  | nil => simp [leavesRuns]
  | cons l ls ih =>
    rw [← List.singleton_append, leavesRuns_append, leavesRuns_single, List.singleton_append,
      List.forall_mem_cons, ← ih]
    cases l.runs byId texts style <;> cases leavesRuns byId texts style ls <;> simp

/-- Nodes have runs exactly if each of their texts has. -/
theorem isSome_expandAll_iff {ns : List Inline} : (expandAll byId texts style ns).isSome ↔
    ∀ l ∈ allLeaves ns, ∀ s ∈ l.text?, (texts (style.within l.above) s).isSome := by
  rw [expandAll_eq_leaves, isSome_leavesRuns_iff]
  exact forall₂_congr fun l _ => Reached.isSome_runs_iff

theorem Reached.runs_mono (hmore : ∀ st s rs, texts st s = some rs → more st s = some rs)
    {l : Reached} {rs : List Run} (h : l.runs byId texts style = some rs) :
    l.runs byId more style = some rs := by
  obtain ⟨above, leaf⟩ := l
  cases leaf with
  | text s => exact hmore _ _ _ h
  | code s => exact h
  | lineBreak => exact h
  | softBreak => exact h

/-- If more texts have runs, nodes that had runs have the same ones. -/
theorem expandAll_mono (hmore : ∀ st s rs, texts st s = some rs → more st s = some rs)
    {ns : List Inline} {rs : List Run} (h : expandAll byId texts style ns = some rs) :
    expandAll byId more style ns = some rs := by
  rw [expandAll_eq_leaves] at h ⊢
  have hsome : (leavesRuns byId texts style (allLeaves ns)).isSome := by rw [h]; rfl
  have hall : ∀ l ∈ allLeaves ns, l.runs byId texts style =
      some ((l.runs byId texts style).getD []) := fun l hl => by
    obtain ⟨rs, hrs⟩ := Option.isSome_iff_exists.mp (isSome_leavesRuns_iff.mp hsome l hl)
    rw [hrs, Option.getD_some]
  rw [← h, leavesRuns_of_forall hall]
  exact leavesRuns_of_forall fun l hl => Reached.runs_mono hmore (hall l hl)

end Leaves

/-! ### Texts with and without runs -/

section Texts

variable {byId : Text → Option Formula} {lex : Text → List Inline} {style : Style}
  {depth : Nat} {t u : Text}

/-- **What one step of lexing again needs**: runs for the texts that it gives back. -/
theorem isSome_textRuns_succ : (textRuns byId lex (depth + 1) style t).isSome ↔
    (¬ (t ≠ [] ∧ t.all (· == '*')) → soleText? (mergeTexts Inline.view (lex t)) = none →
      ∀ l ∈ allLeaves (mergeTexts Inline.view (lex t)), ∀ s ∈ l.text?,
        (textRuns byId lex depth (style.within l.above) s).isSome) := by
  rw [textRuns]
  by_cases hstars : t ≠ [] ∧ t.all (· == '*')
  · simp [hstars]
  · rw [if_neg hstars]
    cases hsole : soleText? (mergeTexts Inline.view (lex t)) with
    | some s => simp
    | none => simp only [isSome_expandAll_iff, hstars, not_false_eq_true, forall_const]

theorem isSome_of_relexes (h : ∀ u, Relexes lex u t → ∀ st, (textRuns byId lex depth st u).isSome) :
    (textRuns byId lex (depth + 1) style t).isSome :=
  isSome_textRuns_succ.mpr fun hstars hsole l hl s hs =>
    h s ⟨hstars, hsole, List.mem_filterMap.mpr ⟨l, hl, hs⟩⟩ _

theorem Relexes.isSome (hu : Relexes lex u t)
    (h : (textRuns byId lex (depth + 1) style t).isSome) :
    ∃ st, (textRuns byId lex depth st u).isSome := by
  obtain ⟨hstars, hsole, hmem⟩ := hu
  obtain ⟨l, hl, hs⟩ := List.mem_filterMap.mp hmem
  exact ⟨_, isSome_textRuns_succ.mp h hstars hsole l hl u hs⟩

theorem textRuns_succ_mono : ∀ {depth : Nat} {style : Style} {t : Text} {rs : List Run},
    textRuns byId lex depth style t = some rs → textRuns byId lex (depth + 1) style t = some rs
  | depth + 1, style, t, rs, h => by
    rw [textRuns] at h ⊢
    split at h
    · rwa [if_pos ‹_›]
    · rw [if_neg ‹_›]
      cases hsole : soleText? (mergeTexts Inline.view (lex t)) with
      | some s => rwa [hsole] at h
      | none =>
        rw [hsole] at h
        exact expandAll_mono (fun st s rs => textRuns_succ_mono) h

/-- **A greater depth changes no runs.** -/
theorem textRuns_mono {rs : List Run} (h : textRuns byId lex depth style t = some rs) {n : Nat}
    (hn : depth ≤ n) : textRuns byId lex n style t = some rs := by
  induction n, hn using Nat.le_induction with
  | base => exact h
  | succ n _ ih => exact textRuns_succ_mono ih

theorem isSome_textRuns_mono (h : (textRuns byId lex depth style t).isSome) {n : Nat}
    (hn : depth ≤ n) : (textRuns byId lex n style t).isSome := by
  obtain ⟨rs, hrs⟩ := Option.isSome_iff_exists.mp h
  exact Option.isSome_iff_exists.mpr ⟨rs, textRuns_mono hrs hn⟩

/-- One depth does for finitely many texts if there is one for each. -/
theorem exists_depth_forall {ts : List Text}
    (h : ∀ t ∈ ts, ∃ depth, ∀ style, (textRuns byId lex depth style t).isSome) :
    ∃ depth, ∀ t ∈ ts, ∀ style, (textRuns byId lex depth style t).isSome := by
  induction ts with
  | nil => exact ⟨0, by simp⟩
  | cons t ts ih =>
    obtain ⟨⟨d, hd⟩, hts⟩ := List.forall_mem_cons.mp h
    obtain ⟨e, he⟩ := ih hts
    refine ⟨max d e, List.forall_mem_cons.mpr ⟨fun style => ?_, fun s hs style => ?_⟩⟩
    · exact isSome_textRuns_mono (hd style) (le_max_left d e)
    · exact isSome_textRuns_mono (he s hs style) (le_max_right d e)

theorem acc_of_isSome : ∀ {depth : Nat} {style : Style} {t : Text},
    (textRuns byId lex depth style t).isSome → Acc (Relexes lex) t
  | depth + 1, _, _, h => by
    -- by induction on the depth: what is lexed again has runs one step below
    refine ⟨_, fun u hu => ?_⟩
    obtain ⟨st, hst⟩ := hu.isSome h
    exact acc_of_isSome hst

theorem exists_depth_of_acc (byId : Text → Option Formula) (h : Acc (Relexes lex) t) :
    ∃ depth, ∀ style, (textRuns byId lex depth style t).isSome := by
  induction h with
  | intro t _ ih =>
    -- either finitely many texts are lexed again, with a depth for each of them, or none is
    by_cases hsole : ¬ (t ≠ [] ∧ t.all (· == '*')) ∧
        soleText? (mergeTexts Inline.view (lex t)) = none
    · obtain ⟨depth, hdepth⟩ := exists_depth_forall fun u hu => ih u ⟨hsole.1, hsole.2, hu⟩
      exact ⟨depth + 1, fun style => isSome_of_relexes fun u hu => hdepth u hu.2.2⟩
    · exact ⟨1, fun style => isSome_of_relexes fun u hu => absurd ⟨hu.1, hu.2.1⟩ hsole⟩

/-- **A text has runs at some depth exactly if lexing again ends below it.** -/
theorem acc_relexes_iff (byId : Text → Option Formula) (style : Style) :
    Acc (Relexes lex) t ↔ ∃ depth rs, textRuns byId lex depth style t = some rs := by
  constructor
  · intro h
    obtain ⟨depth, hdepth⟩ := exists_depth_of_acc byId h
    exact ⟨depth, Option.isSome_iff_exists.mp (hdepth style)⟩
  · rintro ⟨depth, rs, hrs⟩
    exact acc_of_isSome (Option.isSome_iff_exists.mpr ⟨rs, hrs⟩)

/-- A text that is lexed again for itself has no runs at any depth. -/
theorem textRuns_of_relexes_self (h : Relexes lex t t) (depth : Nat) (style : Style) :
    textRuns byId lex depth style t = none := by
  refine Option.eq_none_iff_forall_ne_some.mpr fun rs hrs => ?_
  have hacc : Acc (Relexes lex) t := (acc_relexes_iff byId style).mpr ⟨depth, rs, hrs⟩
  induction hacc with
  | intro t _ ih => exact ih t h h hrs

/-- If texts get shorter, a depth above the length of a text will do. -/
theorem Shortens.isSome_textRuns (h : Shortens lex) : ∀ {depth : Nat} {style : Style} {t : Text},
    t.length < depth → (textRuns byId lex depth style t).isSome
  | depth + 1, style, t, ht => by
    refine isSome_of_relexes fun u hu st => h.isSome_textRuns ?_
    have hshort := h t u hu
    omega

/-- If texts get shorter, a depth above the lengths of the texts of nodes will do. -/
theorem Shortens.exists_inlineRuns (h : Shortens lex) (byId : Text → Option Formula)
    (style : Style) {ns : List Inline} (hns : ∀ s ∈ textsOf ns, s.length < depth) :
    ∃ rs, inlineRuns byId lex depth style ns = some rs :=
  Option.isSome_iff_exists.mp <| isSome_expandAll_iff.mpr fun l hl s hs =>
    h.isSome_textRuns (hns s (List.mem_filterMap.mpr ⟨l, hl, hs⟩))

theorem inlineRuns_mono {ns : List Inline} {rs : List Run}
    (h : inlineRuns byId lex depth style ns = some rs) {n : Nat} (hn : depth ≤ n) :
    inlineRuns byId lex n style ns = some rs :=
  expandAll_mono (fun _ _ _ hrs => textRuns_mono hrs hn) h

theorem Shortens.wellFounded (h : Shortens lex) : WellFounded (Relexes lex) :=
  Subrelation.wf (h _ _) (measure List.length).wf

end Texts

/-- **Lexing again ends if it shortens texts.** Take any lexer that, for each text, gives back one
text node or nothing but shorter texts, once neighbours are joined; a text of asterisks alone is
free, and where there is no lexer or it fails, there is one text node. Then for all nodes and in
each style, lexing again ends, and it gives the same runs at every depth above the lengths of
the texts. -/
theorem inlineRuns_ends {lexer : Option (Text → Except Failure (List Inline))}
    (h : Shortens (lexOrPlain Inline.view lexer)) (byId : Text → Option Formula) (style : Style)
    (ns : List Inline) :
    (∀ s ∈ textsOf ns, Acc (Relexes (lexOrPlain Inline.view lexer)) s) ∧
    ∃ rs, ∀ depth, (∀ s ∈ textsOf ns, s.length < depth) →
      inlineRuns byId (lexOrPlain Inline.view lexer) depth style ns = some rs := by
  refine ⟨fun s _ => h.wellFounded.apply s, ?_⟩
  have hjoined : ∀ s ∈ textsOf ns, s.length < (textsOf ns).flatten.length + 1 := fun s hs =>
    Nat.lt_succ_of_le (List.sublist_flatten_of_mem hs).length_le
  obtain ⟨rs, hrs⟩ := h.exists_inlineRuns byId style hjoined
  refine ⟨rs, fun depth hdepth => ?_⟩
  obtain ⟨rs', hrs'⟩ := h.exists_inlineRuns byId style hdepth
  -- the runs at either depth are those at the greater one
  have hmore := inlineRuns_mono hrs (le_max_left _ depth)
  rw [inlineRuns_mono hrs' (le_max_right _ depth)] at hmore
  rw [hrs', hmore]

/-- A lexer that takes what stands behind an underscore for emphasis in front of a break, fails
at an exclamation mark, and cuts any other text behind its first character. -/
def underscored : Text → Except Failure (List Inline)
  | '_' :: s => .ok [.text [], .emphasis [.text s], .softBreak]
  | '!' :: _ => .error (.converter [])
  | s => .ok [.text (s.take 1), .text (s.drop 1)]

theorem shortens_underscored : Shortens (lexOrPlain Inline.view (some underscored)) := by
  rintro t u ⟨-, hsole, hu⟩
  have hlex : mergeTexts Inline.view (lexOrPlain Inline.view (some underscored) t) = [.text t] ∨
      ∃ s, t = '_' :: s ∧ mergeTexts Inline.view (lexOrPlain Inline.view (some underscored) t) =
        [.text [], .emphasis [.text s], .softBreak] := by
    fun_cases underscored t with
    | case1 s => exact .inr ⟨s, rfl, rfl⟩
    | case2 s => exact .inl rfl
    | case3 =>
      left
      have hcut : underscored t = .ok [.text (t.take 1), .text (t.drop 1)] := by
        rw [underscored] <;> assumption
      have hjoin : mergeTexts Inline.view [.text (t.take 1), .text (t.drop 1)] =
          [.text (t.take 1 ++ t.drop 1)] := rfl
      rw [lexOrPlain, hcut]
      exact hjoin.trans (by rw [List.take_append_drop])
  obtain hlex | ⟨s, rfl, hlex⟩ := hlex
  · rw [hlex] at hsole
    exact absurd hsole (by simp [soleText?])
  · rw [hlex] at hu
    have htexts : textsOf [.text [], .emphasis [.text s], .softBreak] = [[], s] := rfl
    rw [htexts] at hu
    have hmem : u = [] ∨ u = s := by simpa using hu
    rcases hmem with rfl | rfl <;> simp

theorem inlineRuns_ends_underscored :
    Shortens (lexOrPlain Inline.view (some underscored)) ∧
    ∀ depth, 3 < depth → inlineRuns (fun _ => none) (lexOrPlain Inline.view (some underscored))
      depth .plain [.strong [.text "__a".toList], .text "_!".toList] = some
        [.text "a".toList ⟨true, true⟩, .text " ".toList ⟨true, true⟩,
         .text " ".toList ⟨true, false⟩, .text "!".toList ⟨false, true⟩,
         .text " ".toList .plain] := by
  obtain ⟨-, rs, hrs⟩ := inlineRuns_ends shortens_underscored (fun _ => none) .plain
    [.strong [.text "__a".toList], .text "_!".toList]
  have htexts : textsOf [.strong [.text "__a".toList], .text "_!".toList] =
      ["__a".toList, "_!".toList] := rfl
  have hshort : ∀ s ∈ ["__a".toList, "_!".toList], s.length ≤ 3 := by decide
  have hruns : inlineRuns (fun _ => none) (lexOrPlain Inline.view (some underscored)) 4 .plain
      [.strong [.text "__a".toList], .text "_!".toList] = some
        [.text "a".toList ⟨true, true⟩, .text " ".toList ⟨true, true⟩,
         .text " ".toList ⟨true, false⟩, .text "!".toList ⟨false, true⟩,
         .text " ".toList .plain] := by
    decide +kernel
  refine ⟨shortens_underscored, fun depth hdepth => ?_⟩
  rw [htexts] at hrs
  have hfour := hrs 4 fun s hs => Nat.lt_succ_of_le (hshort s hs)
  rw [hrs depth fun s hs => (hshort s hs).trans_lt hdepth, ← hfour, hruns]

end Formulary
