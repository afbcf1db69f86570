/-
# Searching a text

What cutting, counting and replacing do, in terms of where a pattern occurs.
A search passes over a stretch in which no occurrence starts (`Skips`) and
stops at the pattern itself; a pattern none of whose ends is also its
beginning (`Unbordered`) is not met before it is written.

Key definitions: `Text.Skips`, `Text.Unbordered`.
Key theorems: `Text.cut?_eq_none_iff`, `Text.cut?_eq_some_iff`, `Text.replaceAll_append`,
`Text.count_append`, `Text.skips_of_unbordered`.
-/
import Formulary.Text.Basic
import Mathlib.Data.List.Infix
import Mathlib.Tactic.ByContra

namespace Formulary
namespace Text

variable {pat rep x s : Text}

theorem after?_append (pat s : Text) : after? pat (pat ++ s) = some s :=
  after?_eq_some_iff.mpr rfl

theorem after?_eq_none_iff : after? pat s = none ↔ ¬ pat <+: s := by
  rw [Option.eq_none_iff_forall_ne_some]
  refine ⟨fun h => ?_, fun h r hr => ?_⟩
  · rintro ⟨r, hr⟩
    exact h r (after?_eq_some_iff.mpr hr.symm)
  · exact h ⟨r, (after?_eq_some_iff.mp hr).symm⟩

/-! ### Stretches -/

section Stretch

variable {p : Char → Bool} {u : Text} {c : Char}

theorem takeWhile_until (hu : ∀ d ∈ u, p d = true) (hc : p c = false) (s : Text) :
    (u ++ c :: s).takeWhile p = u := by
  rw [List.takeWhile_append_of_pos hu, List.takeWhile_cons_of_neg (by simp [hc]), List.append_nil]

theorem dropWhile_until (hu : ∀ d ∈ u, p d = true) (hc : p c = false) (s : Text) :
    (u ++ c :: s).dropWhile p = c :: s := by
  rw [List.dropWhile_append_of_pos hu, List.dropWhile_cons_of_neg (by simp [hc])]

end Stretch

/-! ### Where a search passes -/

/-- A search for `pat` passes over `x` when `s` follows: no occurrence
starts in `x`. -/
def Skips (pat x s : Text) : Prop := ∀ t, t <:+ x → t ≠ [] → ¬ pat <+: t ++ s

theorem skips_nil (pat s : Text) : Skips pat [] s := by
  intro t ht hne
  exact absurd (List.suffix_nil.mp ht) hne

theorem skips_cons {c : Char} :
    Skips pat (c :: x) s ↔ ¬ pat <+: c :: (x ++ s) ∧ Skips pat x s := by
  refine ⟨fun h => ⟨h (c :: x) (List.suffix_refl _) (by simp), fun t ht => ?_⟩, ?_⟩
  · exact h t (ht.trans (List.suffix_cons c x))
  · rintro ⟨h0, h⟩ t ht hne
    rcases List.suffix_cons_iff.mp ht with rfl | ht
    · exact h0
    · exact h t ht hne

theorem skips_append {y : Text} :
    Skips pat (x ++ y) s ↔ Skips pat x (y ++ s) ∧ Skips pat y s := by
  induction x with
  | nil => simp [skips_nil]
  | cons c x ih => simp only [List.cons_append, skips_cons, ih, List.append_assoc, and_assoc]

/-- What does not occur in the whole text does not start in any part of it. -/
theorem skips_of_absent (h : ¬ pat <:+: x ++ s) : Skips pat x s := by
  intro t ht _ hp
  obtain ⟨u, rfl⟩ := ht
  exact h (hp.isInfix.trans ⟨u, [], by simp⟩)

theorem skips_self_iff (pat a b : Text) :
    Skips pat a (pat ++ b) ↔ ∀ i, pat <+: (a ++ pat).drop i → a.length ≤ i := by
  refine ⟨fun h i hi => ?_, fun h t ht hne hp => ?_⟩
  · by_contra hlt
    push Not at hlt
    rw [List.drop_append_of_le_length hlt.le] at hi
    refine h (a.drop i) (List.drop_suffix i a) (by simpa using hlt) ?_
    rw [← List.append_assoc]
    exact hi.trans (List.prefix_append _ _)
  · obtain ⟨u, rfl⟩ := ht
    have hdrop : pat <+: (u ++ t ++ pat).drop u.length := by
      rw [List.append_assoc, List.drop_left]
      refine List.prefix_of_prefix_length_le hp ?_ (by simp)
      rw [← List.append_assoc]
      exact List.prefix_append _ _
    have := h u.length hdrop
    have := List.length_pos_iff.mpr hne
    simp only [List.length_append] at *
    omega

theorem infix_iff_exists_drop : pat <:+: s ↔ ∃ i, pat <+: s.drop i := by
  refine ⟨?_, ?_⟩
  · rintro ⟨u, v, rfl⟩
    exact ⟨u.length, v, by rw [List.append_assoc, List.drop_left]⟩
  · rintro ⟨i, hi⟩
    exact hi.isInfix.trans (List.drop_suffix i s).isInfix

/-- A character that the pattern does not hold parts a text in two. -/
theorem infix_append_cons_iff {c : Char} (hc : c ∉ pat) :
    pat <:+: x ++ c :: s ↔ pat <:+: x ∨ pat <:+: s := by
  refine ⟨fun h => ?_, fun h => h.elim ?_ ?_⟩
  · rcases List.infix_append_iff.mp h with h | h | ⟨u, v, rfl, hu, hv⟩
    · exact .inl h
    · rcases List.infix_cons_iff.mp h with h | h
      · cases pat with
        | nil => exact .inl List.nil_infix
        | cons p pat =>
          exact absurd (List.cons_prefix_cons.mp h).1.symm (List.ne_of_not_mem_cons hc)
      · exact .inr h
    · cases v with
      | nil => exact .inl (by simpa using hu.isInfix)
      | cons d v =>
        refine absurd (List.mem_append_right u ?_) hc
        rw [(List.cons_prefix_cons.mp hv).1]
        exact List.mem_cons_self
  · exact fun h => h.trans (List.prefix_append _ _).isInfix
  · exact fun h => h.trans ((List.suffix_cons c s).trans (List.suffix_append x _)).isInfix

theorem prefix_of_prefix_append_cons {c : Char} (hc : c ∉ pat) (h : pat <+: x ++ c :: s) :
    pat <+: x := by
  induction pat generalizing x with
  | nil => exact List.nil_prefix
  | cons p pat ih =>
    cases x with
    | nil => exact absurd (List.cons_prefix_cons.mp h).1.symm (List.ne_of_not_mem_cons hc)
    | cons d x =>
      obtain ⟨hpd, htail⟩ := List.cons_prefix_cons.mp h
      exact List.cons_prefix_cons.mpr ⟨hpd, ih (List.not_mem_of_not_mem_cons hc) htail⟩

/-- What a text does not hold is no end of a pattern that reaches into it. -/
theorem prefix_of_prefix_append_of_last {c : Char} (hc : c ∉ s) (h : pat ++ [c] <+: x ++ s) :
    pat ++ [c] <+: x := by
  rcases List.prefix_or_prefix_of_prefix h (List.prefix_append x s) with hp | ⟨t, ht⟩
  · exact hp
  · rcases List.eq_nil_or_concat' t with rfl | ⟨t, d, rfl⟩
    · rw [← ht, List.append_nil]
    · rw [← List.append_assoc] at ht
      obtain rfl : d = c := by simpa using (List.append_inj' ht rfl).2
      rw [← ht, List.append_assoc, List.prefix_append_right_inj] at h
      exact absurd (h.subset (List.mem_append_right t List.mem_cons_self)) hc

theorem suffix_of_suffix_append {c : Char} (hc : c ∉ x) (h : c :: pat <:+ x ++ s) :
    c :: pat <:+ s := by
  induction x with
  | nil => exact h
  | cons d x ih =>
    rcases List.suffix_cons_iff.mp h with he | h
    · exact absurd (List.cons.inj he).1 (List.ne_of_not_mem_cons hc)
    · exact ih (List.not_mem_of_not_mem_cons hc) h

/-- A stretch without a character that the pattern starts with does not help
it to occur. -/
theorem infix_of_infix_append {c : Char} (hc : c ∉ x) (h : c :: pat <:+: x ++ s) :
    c :: pat <:+: s := by
  induction x with
  | nil => exact h
  | cons d x ih =>
    rcases List.infix_cons_iff.mp h with hp | h
    · exact absurd (List.cons_prefix_cons.mp hp).1 (List.ne_of_not_mem_cons hc)
    · exact ih (List.not_mem_of_not_mem_cons hc) h

/-! ### Cutting -/

/-- A cut after a stretch that the search passes over. -/
theorem cut?_append (h : Skips pat x s) :
    cut? pat (x ++ s) = (cut? pat s).map fun p => (x ++ p.1, p.2) := by
  induction x with
  | nil => simp
  | cons c x ih =>
    obtain ⟨h0, h⟩ := skips_cons.mp h
    rw [List.cons_append, cut?, after?_eq_none_iff.mpr h0, ih h]
    simp [Function.comp_def]

theorem cut?_self_append (pat s : Text) : cut? pat (pat ++ s) = some ([], s) := by
  cases h : pat ++ s with
  | nil =>
    obtain ⟨rfl, rfl⟩ := List.append_eq_nil_iff.mp h
    rfl
  | cons c r => rw [cut?, ← h, after?_append]

theorem cut?_eq_none_iff : cut? pat s = none ↔ ¬ pat <:+: s := by
  induction s with
  | nil => simp [cut?, after?_eq_none_iff]
  | cons c s ih =>
    rw [cut?, List.infix_cons_iff, not_or, ← ih, ← after?_eq_none_iff]
    cases after? pat (c :: s) <;> simp

theorem endsWith_eq_decide (c : Char) (s : Text) : endsWith c s = decide ([c] <:+ s) := by
  have hlast : s.getLast? = some c ↔ [c] <:+ s := by
    rw [List.getLast?_eq_some_iff]
    exact exists_congr fun _ => eq_comm
  rw [endsWith, Bool.eq_iff_iff, beq_iff_eq, hlast, decide_eq_true_iff]

theorem contains_eq_decide (pat s : Text) : contains pat s = decide (pat <:+: s) := by
  have hcut : (cut? pat s).isSome ↔ pat <:+: s := by
    rw [← not_iff_not, ← cut?_eq_none_iff, Bool.not_eq_true, Option.isSome_eq_false_iff,
      Option.isNone_iff_eq_none]
  rw [contains, Bool.eq_iff_iff, hcut, decide_eq_true_iff]

/-- A cut is at the first occurrence. -/
theorem skips_of_cut? {a b : Text} (h : cut? pat s = some (a, b)) : Skips pat a (pat ++ b) := by
  induction s generalizing a with
  | nil =>
    simp only [cut?, Option.map_eq_some_iff, Prod.mk.injEq] at h
    obtain ⟨r, -, rfl, rfl⟩ := h
    exact skips_nil _ _
  | cons c s ih =>
    rw [cut?] at h
    cases ha : after? pat (c :: s) with
    | some r =>
      simp only [ha, Option.some.injEq, Prod.mk.injEq] at h
      rw [← h.1]
      exact skips_nil _ _
    | none =>
      simp only [ha, Option.map_eq_some_iff, Prod.mk.injEq] at h
      obtain ⟨⟨a', b'⟩, hp, rfl, rfl⟩ := h
      have hs : s = a' ++ (pat ++ b') := by rw [eq_of_cut? hp, List.append_assoc]
      exact skips_cons.mpr ⟨by rw [← hs]; exact after?_eq_none_iff.mp ha, ih hp⟩

/-- A cut is the split at the first occurrence. -/
theorem cut?_eq_some_iff {a b : Text} :
    cut? pat s = some (a, b) ↔ s = a ++ (pat ++ b) ∧ Skips pat a (pat ++ b) := by
  refine ⟨fun h => ⟨by rw [eq_of_cut? h, List.append_assoc], skips_of_cut? h⟩, ?_⟩
  rintro ⟨rfl, h⟩
  rw [cut?_append h, cut?_self_append]
  simp

/-- A single character is found where it first stands. -/
theorem cut?_char {c : Char} {a : Text} (hc : c ∉ a) (b : Text) :
    cut? [c] (a ++ c :: b) = some (a, b) := by
  refine cut?_eq_some_iff.mpr ⟨rfl, fun t ht hne hpre => ?_⟩
  obtain ⟨d, u, rfl⟩ := List.exists_cons_of_ne_nil hne
  have hd : c = d := (List.cons_prefix_cons.mp hpre).1
  exact hc (ht.subset (hd ▸ List.mem_cons_self))

/-- No occurrence lies in a stretch that the search passes over. -/
theorem not_infix_of_skips (hpat : pat ≠ []) (h : Skips pat x s) : ¬ pat <:+: x := by
  rintro ⟨u, v, rfl⟩
  refine h (pat ++ v) ⟨u, by simp⟩ (by simp [hpat]) ?_
  rw [List.append_assoc]
  exact List.prefix_append _ _

theorem exists_cut? (h : pat <:+: s) : ∃ a b, cut? pat s = some (a, b) := by
  cases hcut : cut? pat s with
  | none => exact absurd h (cut?_eq_none_iff.mp hcut)
  | some p => exact ⟨p.1, p.2, rfl⟩

/-- A text in which `pat` occurs is parted at its first occurrence. -/
theorem exists_eq_append_of_infix (hpat : pat ≠ []) (h : pat <:+: s) :
    ∃ a b, s = a ++ (pat ++ b) ∧ ¬ pat <:+: a := by
  obtain ⟨a, b, hcut⟩ := exists_cut? h
  obtain ⟨hs, hskips⟩ := cut?_eq_some_iff.mp hcut
  exact ⟨a, b, hs, not_infix_of_skips hpat hskips⟩

/-- A cut is no later than any occurrence. -/
theorem length_le_of_cut? {a b x y : Text} (h : cut? pat s = some (a, b))
    (hs : s = x ++ (pat ++ y)) : a.length ≤ x.length := by
  obtain ⟨hsplit, hskips⟩ := cut?_eq_some_iff.mp h
  by_contra hlt
  have hx : x <+: a := List.prefix_of_prefix_length_le (hs ▸ List.prefix_append _ _)
    (hsplit ▸ List.prefix_append _ _) (by omega)
  obtain ⟨t, rfl⟩ := hx
  refine hskips t (List.suffix_append x t) (fun hnil => hlt (by simp [hnil])) ?_
  rw [hs, List.append_assoc, List.append_cancel_left_eq] at hsplit
  exact hsplit ▸ List.prefix_append _ _

/-! ### Replacing and counting -/

theorem pieces_of_cut?_eq_none (h : cut? pat s = none) : pieces pat s = [s] := by
  unfold pieces
  split
  · rfl
  · split
    · rfl
    · rename_i hc
      rw [h] at hc
      simp at hc

theorem pieces_of_cut?_eq_some {a b : Text} (hpat : pat ≠ []) (h : cut? pat s = some (a, b)) :
    pieces pat s = a :: pieces pat b := by
  rw [pieces, dif_neg hpat]
  split
  · rename_i hc
    rw [h] at hc
    simp at hc
  · rename_i a' b' hc
    rw [h] at hc
    simp only [Option.some.injEq, Prod.mk.injEq] at hc
    rw [hc.1, hc.2]

/-- No piece holds the pattern. -/
theorem not_infix_of_mem_pieces (hpat : pat ≠ []) {p : Text} (hp : p ∈ pieces pat s) :
    ¬ pat <:+: p := by
  induction s using pieces.induct pat with
  | case1 s hnil => exact absurd hnil hpat
  | case2 s _ hcut =>
    rw [pieces_of_cut?_eq_none hcut, List.mem_singleton] at hp
    rw [hp]
    exact cut?_eq_none_iff.mp hcut
  | case3 s _ a b hcut ih =>
    rw [pieces_of_cut?_eq_some hpat hcut] at hp
    rcases List.mem_cons.mp hp with rfl | hp
    · exact not_infix_of_skips hpat (skips_of_cut? hcut)
    · exact ih hp

/-- Each piece is a stretch of the text. -/
theorem infix_of_mem_pieces (hpat : pat ≠ []) {p : Text} (hp : p ∈ pieces pat s) : p <:+: s := by
  induction s using pieces.induct pat with
  | case1 s hnil => exact absurd hnil hpat
  | case2 s _ hcut =>
    rw [pieces_of_cut?_eq_none hcut, List.mem_singleton] at hp
    rw [hp]
  | case3 s _ a b hcut ih =>
    rw [pieces_of_cut?_eq_some hpat hcut] at hp
    rw [eq_of_cut? hcut]
    rcases List.mem_cons.mp hp with rfl | hp
    · exact (List.prefix_append p (pat ++ b)).isInfix.trans (by simp)
    · exact (ih hp).trans (List.suffix_append (a ++ pat) b).isInfix

theorem replaceAll_of_cut?_eq_some {a b : Text} (hpat : pat ≠ []) (h : cut? pat s = some (a, b)) :
    replaceAll pat rep s = a ++ rep ++ replaceAll pat rep b := by
  obtain ⟨p, ps, hps⟩ := List.exists_cons_of_ne_nil (pieces_ne_nil pat b)
  rw [replaceAll, replaceAll, pieces_of_cut?_eq_some hpat h, hps]
  simp [List.intercalate, List.intersperse]

/-- Nothing is replaced where the pattern does not occur. -/
theorem replaceAll_of_absent (h : ¬ pat <:+: s) : replaceAll pat rep s = s := by
  rw [replaceAll, pieces_of_cut?_eq_none (cut?_eq_none_iff.mpr h)]
  simp [List.intercalate]

theorem replaceAll_self_append (hpat : pat ≠ []) (rep s : Text) :
    replaceAll pat rep (pat ++ s) = rep ++ replaceAll pat rep s := by
  rw [replaceAll_of_cut?_eq_some hpat (cut?_self_append pat s), List.nil_append]

/-- What the search passes over stays. -/
theorem replaceAll_append (hpat : pat ≠ []) (h : Skips pat x s) :
    replaceAll pat rep (x ++ s) = x ++ replaceAll pat rep s := by
  have hx := cut?_append h
  cases hs : cut? pat s with
  | none =>
    rw [hs, Option.map_none] at hx
    rw [replaceAll_of_absent (cut?_eq_none_iff.mp hx),
      replaceAll_of_absent (cut?_eq_none_iff.mp hs)]
  | some p =>
    rw [hs, Option.map_some] at hx
    calc replaceAll pat rep (x ++ s) = x ++ p.1 ++ rep ++ replaceAll pat rep p.2 :=
          replaceAll_of_cut?_eq_some hpat hx
      _ = x ++ (p.1 ++ rep ++ replaceAll pat rep p.2) := by simp only [List.append_assoc]
      _ = x ++ replaceAll pat rep s := by rw [replaceAll_of_cut?_eq_some hpat hs]

theorem count_of_cut?_eq_some {a b : Text} (hpat : pat ≠ []) (h : cut? pat s = some (a, b)) :
    count pat s = count pat b + 1 := by
  have hb := List.length_pos_iff.mpr (pieces_ne_nil pat b)
  rw [count, count, pieces_of_cut?_eq_some hpat h, List.length_cons]
  omega

theorem count_of_absent (h : ¬ pat <:+: s) : count pat s = 0 := by
  rw [count, pieces_of_cut?_eq_none (cut?_eq_none_iff.mpr h)]
  rfl

theorem count_self_append (hpat : pat ≠ []) (s : Text) :
    count pat (pat ++ s) = count pat s + 1 :=
  count_of_cut?_eq_some hpat (cut?_self_append pat s)

/-- What the search passes over does not count. -/
theorem count_append (hpat : pat ≠ []) (h : Skips pat x s) :
    count pat (x ++ s) = count pat s := by
  have hx := cut?_append h
  cases hs : cut? pat s with
  | none =>
    rw [hs, Option.map_none] at hx
    rw [count_of_absent (cut?_eq_none_iff.mp hx), count_of_absent (cut?_eq_none_iff.mp hs)]
  | some p =>
    rw [hs, Option.map_some] at hx
    calc count pat (x ++ s) = count pat p.2 + 1 := count_of_cut?_eq_some hpat hx
      _ = count pat s := (count_of_cut?_eq_some hpat hs).symm

/-! ### Patterns without a border -/

/-- No end of `pat` is its beginning, but for the whole of it. -/
def Unbordered (pat : Text) : Prop := ∀ y ∈ pat.inits, y <:+ pat → y = [] ∨ y = pat

instance (pat : Text) : Decidable (Unbordered pat) :=
  inferInstanceAs (Decidable (∀ y ∈ pat.inits, y <:+ pat → y = [] ∨ y = pat))

/-- A pattern without a border that starts in a text right before it stands in that text. -/
theorem prefix_of_prefix_append_self (hpat : Unbordered pat) {t : Text} (hne : t ≠ [])
    (hp : pat <+: t ++ (pat ++ s)) : pat <+: t := by
  rcases Nat.le_total pat.length t.length with hl | hl
  · exact List.prefix_of_prefix_length_le hp (List.prefix_append _ _) hl
  · -- the rest of the pattern, after `t`, is a border
    have htp : t <+: pat := List.prefix_of_prefix_length_le (List.prefix_append _ _) hp hl
    obtain ⟨y, rfl⟩ := htp
    have hy : y <+: t ++ y :=
      List.prefix_of_prefix_length_le ((List.prefix_append_right_inj t).mp hp)
        (List.prefix_append _ _) (by simp)
    rcases hpat y ((List.mem_inits _ _).mpr hy) (List.suffix_append t y) with rfl | hy
    · simp
    · exact absurd (List.append_left_eq_self.mp hy.symm) hne

/-- A pattern without a border is not met in a text without it, nor where
the text and the pattern after it join. -/
theorem skips_of_unbordered (hpat : Unbordered pat) (h : ¬ pat <:+: x) (s : Text) :
    Skips pat x (pat ++ s) := fun _ ht hne hp =>
  h ((prefix_of_prefix_append_self hpat hne hp).isInfix.trans ht.isInfix)

/-- The last occurrence is the one after which there is no other. -/
theorem cutLast?_append (hpat : Unbordered pat.reverse) (h : ¬ pat <:+: s) (x : Text) :
    cutLast? pat (x ++ (pat ++ s)) = some (x, s) := by
  have hskips : Skips pat.reverse s.reverse (pat.reverse ++ x.reverse) :=
    skips_of_unbordered hpat (fun hin => h (List.reverse_infix.mp hin)) _
  have hcut : cut? pat.reverse (x ++ (pat ++ s)).reverse = some (s.reverse, x.reverse) :=
    cut?_eq_some_iff.mpr ⟨by simp, hskips⟩
  rw [cutLast?, hcut]
  simp

theorem eq_of_cutLast? {a b : Text} (h : cutLast? pat s = some (a, b)) : s = a ++ (pat ++ b) := by
  obtain ⟨⟨b', a'⟩, hcut, heq⟩ := Option.map_eq_some_iff.mp h
  obtain ⟨rfl, rfl⟩ := Prod.mk.inj heq
  have hs := congrArg List.reverse (eq_of_cut? hcut)
  simpa using hs

theorem exists_cutLast? (h : pat <:+: s) : ∃ a b, cutLast? pat s = some (a, b) := by
  obtain ⟨a, b, hcut⟩ := exists_cut? (List.reverse_infix.mpr h)
  exact ⟨b.reverse, a.reverse, by rw [cutLast?, hcut]; rfl⟩

/-- The last cut is no earlier than any occurrence. -/
theorem length_le_of_cutLast? {a b x y : Text} (h : cutLast? pat s = some (a, b))
    (hs : s = x ++ (pat ++ y)) : x.length ≤ a.length := by
  obtain ⟨⟨b', a'⟩, hcut, heq⟩ := Option.map_eq_some_iff.mp h
  obtain ⟨rfl, rfl⟩ := Prod.mk.inj heq
  have hle := length_le_of_cut? hcut (x := y.reverse) (y := x.reverse) (by simp [hs])
  have hlength := congrArg List.length (eq_of_cut? hcut)
  simp only [hs, List.length_reverse, List.length_append] at hlength hle ⊢
  omega

/-! ### Patterns whose first character is found nowhere else in them -/

/-- Such a pattern does not lie across a place where a text goes on with that character. -/
theorem infix_append_iff_of_head {c : Char} (hc : c ∉ pat) :
    c :: pat <:+: x ++ c :: s ↔ c :: pat <:+: x ∨ c :: pat <:+: c :: s := by
  refine ⟨fun h => ?_, fun h => h.elim ?_ ?_⟩
  · rcases List.infix_append_iff.mp h with h | h | ⟨u, v, huv, hu, hv⟩
    · exact .inl h
    · exact .inr h
    · cases v with
      | nil => exact .inl (by simpa [huv] using hu.isInfix)
      | cons d v =>
        obtain rfl : d = c := (List.cons_prefix_cons.mp hv).1
        cases u with
        | nil => exact .inr (by simpa [huv] using hv.isInfix)
        | cons e u =>
          refine absurd ?_ hc
          rw [(List.cons.inj huv).2]
          simp
  · exact fun h => h.trans (List.prefix_append _ _).isInfix
  · exact fun h => h.trans (List.suffix_append _ _).isInfix

/-- Of two such patterns with the same first character, one is not met in or
across the other, unless it starts as that one does. -/
theorem infix_append_head_iff {c : Char} {q : Text} (hc : c ∉ pat) (hq : c ∉ q)
    (hpq : ¬ pat <+: q) (hqp : ¬ q <+: pat) :
    c :: pat <:+: x ++ (c :: q ++ s) ↔ c :: pat <:+: x ∨ c :: pat <:+: s := by
  rw [List.cons_append, infix_append_iff_of_head hc]
  refine or_congr_right ⟨fun h => ?_, fun h => ?_⟩
  · rcases List.infix_cons_iff.mp h with h | h
    · have hpat := (List.cons_prefix_cons.mp h).2
      exact ((List.prefix_or_prefix_of_prefix hpat (List.prefix_append q s)).elim hpq hqp).elim
    · exact infix_of_infix_append hq h
  · exact h.trans (List.suffix_append (c :: q) s).isInfix

theorem unbordered_of_head {c : Char} (hc : c ∉ pat) : Unbordered (c :: pat) := by
  intro y hy hsuffix
  rcases List.suffix_cons_iff.mp hsuffix with heq | hrest
  · exact .inr heq
  · cases y with
    | nil => exact .inl rfl
    | cons d y =>
      have hd : d = c := (List.cons_prefix_cons.mp ((List.mem_inits _ _).mp hy)).1
      exact absurd (hd ▸ hrest.subset List.mem_cons_self) hc

/-- Such a pattern occurs once where it is put between texts without it. -/
theorem existsUnique_append_of_absent {c : Char} (hc : c ∉ pat) (hx : ¬ c :: pat <:+: x)
    (hs : ¬ c :: pat <:+: s) :
    ∃! p : Text × Text, x ++ (c :: pat ++ s) = p.1 ++ (c :: pat ++ p.2) := by
  have hskips := skips_of_unbordered (unbordered_of_head hc) hx
  refine ⟨(x, s), rfl, ?_⟩
  rintro ⟨u, v⟩ h
  rcases List.append_eq_append_iff.mp h with ⟨y, rfl, hy⟩ | ⟨y, rfl, hy⟩
  · cases y with
    | nil => simpa using hy.symm
    | cons d y =>
      have hrest : pat ++ s = y ++ (c :: pat ++ v) := (List.cons.inj hy).2
      exact absurd (infix_of_infix_append hc ⟨y, v, by simpa using hrest.symm⟩) hs
  · cases y with
    | nil => simpa using hy
    | cons d y =>
      exact absurd ⟨v, by simpa using hy⟩ (hskips s (d :: y) (List.suffix_append u _) (by simp))

end Text
end Formulary
