/-
# Text between asterisks

The runs of a text with literal markers are its stretches without asterisks, each as long as
it can be, in order and one run each (`styledRuns_eq_map_stretches`). What style a stretch is
in can be read off the groups of asterisks before it: two asterisks switch bold, and a single
one that is left over in a group switches italics (`styleAfter_eq_switched`).

Key definitions: `beginsStretch`, `stretchStarts`, `stretchAt`, `groupSizes`, `Style.switched`.
Key theorems: `styledRuns_eq_map_stretches`, `styleAfter_eq_switched`, `styledRuns_closedForm`.
-/
import Formulary.Proofs.Document.Emphasis
import Mathlib.Algebra.GroupWithZero.Nat

namespace Formulary

/-! ### Stretches -/

/-- Whether a stretch without asterisks begins at a position: one that is no asterisk stands
there, and none right before it. -/
def beginsStretch (s : Text) (i : Nat) : Bool :=
  s[i]?.any isUnmarked && !(s.take i).getLast?.any isUnmarked

/-- The positions at which the stretches of a text begin, in order. -/
def stretchStarts (s : Text) : List Nat := (List.range s.length).filter (beginsStretch s)

/-- The stretch that begins at a position. -/
def stretchAt (s : Text) (i : Nat) : Text := (s.drop i).takeWhile isUnmarked

/-- The sizes of the groups of asterisks in a text. -/
def groupSizes (s : Text) : List Nat := ((s.splitOnP isUnmarked).filter (· ≠ [])).map List.length

/-- The style behind groups of asterisks: bold is switched by each pair in a group, italics by
each asterisk. -/
def Style.switched (style : Style) (sizes : List Nat) : Style where
  bold := style.bold ^^ ((sizes.map (· / 2)).sum % 2 == 1)
  italic := style.italic ^^ (sizes.sum % 2 == 1)

theorem isUnmarked_of_mem_stretch {c : Char} (hc : c ≠ '*') (s : Text) :
    ∀ d ∈ c :: s.takeWhile isUnmarked, isUnmarked d = true :=
  List.forall_mem_cons.mpr ⟨bne_iff_ne.mpr hc, fun _ => List.mem_takeWhile_imp⟩

theorem head?_dropWhile_isUnmarked (s : Text) :
    (s.dropWhile isUnmarked).head?.any isUnmarked = false := by
  have hhead := List.head?_dropWhile_not isUnmarked s
  cases h : (s.dropWhile isUnmarked).head? with
  | none => rfl
  | some d => simpa [h] using hhead

theorem beginsStretch_succ_marker (s : Text) (i : Nat) :
    beginsStretch ('*' :: s) (i + 1) = beginsStretch s i := by
  have hlast : ('*' :: s.take i).getLast?.any isUnmarked = (s.take i).getLast?.any isUnmarked := by
    rw [List.getLast?_cons]
    cases (s.take i).getLast? <;> rfl
  rw [beginsStretch, beginsStretch, List.getElem?_cons_succ, List.take_succ_cons, hlast]

theorem stretchStarts_marker (s : Text) :
    stretchStarts ('*' :: s) = (stretchStarts s).map (· + 1) := by
  have hfirst : beginsStretch ('*' :: s) 0 = false := rfl
  rw [stretchStarts, List.length_cons, List.range_succ_eq_map,
    List.filter_cons_of_neg (by simp [hfirst]), List.filter_map]
  congr 1
  exact List.filter_congr fun i _ => beginsStretch_succ_marker s i

/-- A stretch begins once: where its first character stands. -/
theorem filter_beginsStretch_range {w : Text} (hne : w ≠ []) (hw : ∀ c ∈ w, isUnmarked c = true)
    (s : Text) : (List.range w.length).filter (beginsStretch (w ++ s)) = [0] := by
  obtain ⟨c, w, rfl⟩ := List.exists_cons_of_ne_nil hne
  have hfirst : beginsStretch (c :: w ++ s) 0 = true := by
    simp [beginsStretch, hw c List.mem_cons_self]
  rw [List.length_cons, List.range_succ_eq_map, List.filter_cons_of_pos hfirst,
    List.filter_eq_nil_iff.mpr]
  intro j hj
  obtain ⟨i, hi, rfl⟩ := List.mem_map.mp hj
  have hi : i < w.length := List.mem_range.mp hi
  have hlast : (c :: (w ++ s).take i).getLast?.any isUnmarked = true := by
    rw [List.take_append_of_le_length hi.le, List.getLast?_cons, Option.any_some]
    refine hw _ ?_
    cases h : (w.take i).getLast? with
    | none => exact List.mem_cons_self
    | some d =>
      exact List.mem_cons_of_mem c ((List.take_sublist i w).subset (List.mem_of_getLast? h))
  simp [beginsStretch, List.take_succ_cons, hlast]

/-- Behind a stretch, stretches begin as they would without it. -/
theorem beginsStretch_append {w s : Text} (hs : s.head?.any isUnmarked = false) (i : Nat) :
    beginsStretch (w ++ s) (w.length + i) = beginsStretch s i := by
  cases i with
  | zero =>
    cases s with
    | nil => simp [beginsStretch]
    | cons d s =>
      have hd : isUnmarked d = false := hs
      simp [beginsStretch, hd]
  | succ i =>
    cases s with
    | nil => simp [beginsStretch]
    | cons d s =>
      have hlast : (w ++ d :: s.take i).getLast? = (d :: s.take i).getLast? := by
        rw [List.getLast?_append, List.getLast?_cons, Option.some_or]
      rw [beginsStretch, beginsStretch, List.getElem?_append_right (by omega), List.take_append,
        List.take_of_length_le (by omega), Nat.add_sub_cancel_left, List.take_succ_cons, hlast]

theorem stretchStarts_append {w s : Text} (hne : w ≠ []) (hw : ∀ c ∈ w, isUnmarked c = true)
    (hs : s.head?.any isUnmarked = false) :
    stretchStarts (w ++ s) = 0 :: (stretchStarts s).map (w.length + ·) := by
  have hrest : (List.range s.length).filter (beginsStretch (w ++ s) ∘ (w.length + ·)) =
      stretchStarts s := List.filter_congr fun i _ => beginsStretch_append hs i
  rw [stretchStarts, List.length_append, List.range_add, List.filter_append,
    filter_beginsStretch_range hne hw, List.filter_map, hrest]
  rfl

/-! ### Runs are stretches -/

/-- The stretches of a text that starts with one: this one, and those behind it as they are
without it. -/
theorem map_stretches_append {w s : Text} (hne : w ≠ []) (hw : ∀ c ∈ w, isUnmarked c = true)
    (hs : s.head?.any isUnmarked = false) (style : Style) :
    ((stretchStarts (w ++ s)).map fun i =>
        Run.text (stretchAt (w ++ s) i) (styleAfter style ((w ++ s).take i))) =
      .text w style ::
        (stretchStarts s).map fun i => .text (stretchAt s i) (styleAfter style (s.take i)) := by
  have hfirst : stretchAt (w ++ s) 0 = w := by
    rw [stretchAt, List.drop_zero, List.takeWhile_append_of_pos hw]
    cases s with
    | nil => simp
    | cons d s =>
      have hd : isUnmarked d = false := hs
      simp [hd]
  rw [stretchStarts_append hne hw hs, List.map_cons, hfirst, List.map_map]
  refine congrArg _ (List.map_congr_left fun i _ => ?_)
  rw [Function.comp_apply, stretchAt, stretchAt, List.drop_length_add_append,
    List.take_length_add_append, styleAfter_append hw]

/-- **One run a stretch.** The runs of a text are its stretches in order, each in the style that
holds where it begins. -/
theorem styledRuns_eq_map_stretches (style : Style) (s : Text) :
    styledRuns style s =
      (stretchStarts s).map fun i => .text (stretchAt s i) (styleAfter style (s.take i)) := by
  fun_induction styledRuns style s with
  | case1 => rfl
  | case2 style s ih =>
    rw [ih, stretchStarts_marker, stretchStarts_marker, List.map_map, List.map_map]
    rfl
  | case3 style s hs ih =>
    rw [ih, stretchStarts_marker, List.map_map]
    refine List.map_congr_left fun i _ => ?_
    have hsingle : ∀ t, s.take i ≠ '*' :: t := by
      intro t ht
      obtain ⟨u, hu⟩ : '*' :: t <+: s := ht ▸ List.take_prefix i s
      exact hs (t ++ u) hu.symm
    rw [Function.comp_apply, List.take_succ_cons, styleAfter]
    · rfl
    · exact hsingle
  | case4 style c s _ hc ih =>
    have hsplit : (c :: s.takeWhile isUnmarked) ++ s.dropWhile isUnmarked = c :: s := by
      rw [List.cons_append, List.takeWhile_append_dropWhile]
    rw [ih, ← map_stretches_append (by simp) (isUnmarked_of_mem_stretch hc s)
      (head?_dropWhile_isUnmarked s), hsplit]

/-! ### Groups of asterisks -/

theorem parity_add (m n : Nat) : ((m + n) % 2 == 1) = ((m % 2 == 1) ^^ (n % 2 == 1)) := by
  rcases Nat.mod_two_eq_zero_or_one m with hm | hm <;>
    rcases Nat.mod_two_eq_zero_or_one n with hn | hn <;> simp [Nat.add_mod, hm, hn]

/-- Groups switch one after another. -/
theorem switched_cons (style : Style) (k : Nat) (ks : List Nat) :
    style.switched (k :: ks) = (style.switched [k]).switched ks := by
  simp [Style.switched, parity_add]

theorem switched_zero (style : Style) : style.switched [0] = style := by
  simp [Style.switched]

theorem switched_one (style : Style) : style.switched [1] = style.toggleItalic := by
  simp [Style.switched, Style.toggleItalic]

theorem switched_add_two (style : Style) (k : Nat) :
    style.switched [k + 2] = style.toggleBold.switched [k] := by
  have hpairs : ((k / 2 + 1) % 2 == 1) = !(k / 2 % 2 == 1) := by
    rw [parity_add]
    simp
  simp [Style.switched, Style.toggleBold, hpairs]

/-- A group without asterisks switches nothing. -/
theorem switched_filter (style : Style) (gs : List Text) :
    style.switched ((gs.filter (· ≠ [])).map List.length) = style.switched (gs.map List.length) := by
  induction gs generalizing style with
  | nil => rfl
  | cons g gs ih =>
    rw [List.map_cons, switched_cons, ← ih]
    by_cases hg : g = []
    · rw [List.filter_cons_of_neg (by simpa using hg), hg, List.length_nil, switched_zero]
    · rw [List.filter_cons_of_pos (by simpa using hg), List.map_cons, switched_cons]

/-- **The style behind a text** is switched by the groups of asterisks in it. -/
theorem styleAfter_eq_switched (style : Style) (s : Text) :
    styleAfter style s = style.switched (groupSizes s) := by
  rw [groupSizes, switched_filter]
  fun_induction styleAfter style s with
  | case1 => exact (switched_zero _).symm
  | case2 style s ih =>
    obtain ⟨g, gs, hgs⟩ := List.exists_cons_of_ne_nil (List.splitOnP_ne_nil isUnmarked s)
    have hpair : ('*' :: '*' :: s).splitOnP isUnmarked = ('*' :: '*' :: g) :: gs := by
      simp [List.splitOnP_cons_eq_if_modifyHead, hgs, isUnmarked]
    rw [ih, hgs, hpair, List.map_cons, List.map_cons, switched_cons, ← switched_add_two,
      ← switched_cons]
    rfl
  | case3 style s hs ih =>
    obtain ⟨gs, hgs⟩ : ∃ gs, s.splitOnP isUnmarked = [] :: gs := by
      cases s with
      | nil => exact ⟨[], rfl⟩
      | cons c s =>
        have hc : isUnmarked c = true := bne_iff_ne.mpr fun hc => hs s (by rw [hc])
        exact ⟨_, by rw [List.splitOnP_cons_eq_if_modifyHead, if_pos hc]⟩
    have hsingle : ('*' :: s).splitOnP isUnmarked = ['*'] :: gs := by
      simp [List.splitOnP_cons_eq_if_modifyHead, hgs, isUnmarked]
    rw [ih, hgs, hsingle, List.map_cons, List.map_cons, switched_cons, List.length_nil,
      switched_zero, switched_cons, List.length_singleton, switched_one]
  | case4 style c s _ hc ih =>
    have hc : isUnmarked c = true := bne_iff_ne.mpr hc
    rw [ih, List.splitOnP_cons_eq_if_modifyHead, if_pos hc, List.map_cons, List.length_nil,
      switched_cons, switched_zero]

/-! ### What the runs say -/

/-- An asterisk at the start parts off nothing but an empty piece. -/
theorem filter_splitOn_marker (s : Text) :
    (('*' :: s).splitOn '*').filter (· ≠ []) = (s.splitOn '*').filter (· ≠ []) := by
  have hsplit : ('*' :: s).splitOn '*' = [] :: s.splitOn '*' := List.splitOnP_append_cons [] s rfl
  rw [hsplit, List.filter_cons_of_neg (by simp)]

/-- A stretch at the start is the first piece. -/
theorem filter_splitOn_append {w s : Text} (hne : w ≠ []) (hw : ∀ c ∈ w, isUnmarked c = true)
    (hs : s.head?.any isUnmarked = false) :
    ((w ++ s).splitOn '*').filter (· ≠ []) = w :: (s.splitOn '*').filter (· ≠ []) := by
  have hstretch : w.splitOn '*' = [w] :=
    List.splitOnP_eq_singleton fun c hc => by simpa [isUnmarked] using hw c hc
  cases s with
  | nil => rw [List.append_nil, hstretch, List.filter_cons_of_pos (by simpa using hne)]; rfl
  | cons d s =>
    obtain rfl : d = '*' := by simpa [isUnmarked] using hs
    have hsplit : (w ++ '*' :: s).splitOn '*' = w.splitOn '*' ++ s.splitOn '*' :=
      List.splitOnP_append_cons w s rfl
    rw [hsplit, hstretch, filter_splitOn_marker, List.singleton_append,
      List.filter_cons_of_pos (by simpa using hne)]

/-- The texts of the runs are the pieces between asterisks that are not empty. -/
theorem filterMap_text?_styledRuns (style : Style) (s : Text) :
    (styledRuns style s).filterMap Run.text? = (s.splitOn '*').filter (· ≠ []) := by
  fun_induction styledRuns style s with
  | case1 => rfl
  | case2 style s ih => rw [ih, filter_splitOn_marker, filter_splitOn_marker]
  | case3 style s _ ih => rw [ih, filter_splitOn_marker]
  | case4 style c s _ hc ih =>
    have hsplit := filter_splitOn_append (by simp) (isUnmarked_of_mem_stretch hc s)
      (head?_dropWhile_isUnmarked s)
    rw [List.cons_append, List.takeWhile_append_dropWhile] at hsplit
    rw [hsplit, ← ih]
    rfl

/-- Joined, the runs are the text without its asterisks. -/
theorem flatMap_text?_styledRuns (style : Style) (s : Text) :
    (styledRuns style s).flatMap (fun r => r.text?.getD []) = s.filter isUnmarked := by
  fun_induction styledRuns style s with
  | case1 => rfl
  | case2 style s ih => exact ih
  | case3 style s _ ih => exact ih
  | case4 style c s _ hc ih =>
    have hw := List.filter_eq_self.mpr (isUnmarked_of_mem_stretch hc s)
    rw [List.flatMap_cons, ih]
    calc (c :: s.takeWhile isUnmarked) ++ (s.dropWhile isUnmarked).filter isUnmarked
        = ((c :: s.takeWhile isUnmarked) ++ s.dropWhile isUnmarked).filter isUnmarked := by
          rw [List.filter_append, hw]
      _ = (c :: s).filter isUnmarked := by
          rw [List.cons_append, List.takeWhile_append_dropWhile]

theorem stretchAt_ne_nil {s : Text} {i : Nat} (hi : i ∈ stretchStarts s) : stretchAt s i ≠ [] := by
  obtain ⟨hlt, hbegins⟩ := List.mem_filter.mp hi
  have hlt := List.mem_range.mp hlt
  have hat : isUnmarked s[i] = true := by
    rw [beginsStretch, List.getElem?_eq_getElem hlt, Option.any_some, Bool.and_eq_true] at hbegins
    exact hbegins.1
  rw [stretchAt, List.drop_eq_getElem_cons hlt, List.takeWhile_cons_of_pos hat]
  exact List.cons_ne_nil _ _

/-- **Runs of a text with asterisks, in closed form.** There is one run for each stretch without
asterisks, in order: bold is switched as often as there are pairs in the groups of asterisks
before it, italics as often as there are asterisks. The runs are the pieces between asterisks
that are not empty, so joined they are the text without its asterisks. -/
theorem styledRuns_closedForm (style : Style) (s : Text) :
    styledRuns style s =
      ((stretchStarts s).map fun i =>
        .text (stretchAt s i) (style.switched (groupSizes (s.take i)))) ∧
    (styledRuns style s).filterMap Run.text? = (s.splitOn '*').filter (· ≠ []) ∧
    (styledRuns style s).flatMap (fun r => r.text?.getD []) = s.filter isUnmarked ∧
    ∀ r ∈ styledRuns style s, ∃ t st, r = .text t st ∧ t ≠ [] := by
  have hclosed := styledRuns_eq_map_stretches style s
  refine ⟨?_, filterMap_text?_styledRuns style s, flatMap_text?_styledRuns style s, ?_⟩
  · rw [hclosed]
    exact List.map_congr_left fun i _ => by rw [styleAfter_eq_switched]
  · intro r hr
    rw [hclosed] at hr
    obtain ⟨i, hi, rfl⟩ := List.mem_map.mp hr
    exact ⟨_, _, rfl, stretchAt_ne_nil hi⟩

/-- Three asterisks switch both, and the two behind them bold alone. -/
example : styledRuns .plain "a***b**c*".toList =
    [.text "a".toList .plain, .text "b".toList ⟨true, true⟩, .text "c".toList ⟨false, true⟩] := by
  decide +kernel

end Formulary
