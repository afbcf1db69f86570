/-
# Folding accents leaves no accent to fold

An accented letter cannot be part of a command: its first character is none
of a command's characters, or is a letter that a combining mark keeps from
the closing brace (`standsApart_of_letter?`). So folding one accent neither makes
nor breaks a command of another (`command?_fold`), a folded text holds no
command that could be folded (`folded_foldAccents`), and neither does any part
that is cut out of it (`foldAccents_of_part`).

Key definitions: `Accent.StandsApart`, `Accent.Folded`, `Accent.Unaccented`.
Key theorems: `Accent.command?_fold`, `folded_foldAccents`, `infix_of_infix_foldAccents`,
`foldAccents_of_part`.
-/
import Formulary.Latex.Accent
import Formulary.Proofs.Text.Search

namespace Formulary
namespace Accent

theorem mem_all (a : Accent) : a ∈ all := by cases a <;> decide

/-! ### Accented letters stand apart -/

/-- A character that no command holds, unless as the letter in its braces. -/
def Foreign (d : Char) : Prop :=
  d ∉ "\\{}".toList ∧ Text.isBlank d = false ∧ ∀ a ∈ all, d ∉ a.name

instance (d : Char) : Decidable (Foreign d) :=
  inferInstanceAs (Decidable (d ∉ "\\{}".toList ∧ Text.isBlank d = false ∧ ∀ a ∈ all, d ∉ a.name))

/-- The first character is foreign to commands, and if an accent can be put
on it, the text goes on with something else than a closing brace. -/
def StandsApart : Text → Prop
  | [] => False
  | d :: t => Foreign d ∧ ((∀ a ∈ all, a.letter? d = none) ∨ t.head?.any (· ≠ '}'))

instance : DecidablePred StandsApart
  | [] => inferInstanceAs (Decidable False)
  | d :: t => inferInstanceAs (Decidable
      (Foreign d ∧ ((∀ a ∈ all, a.letter? d = none) ∨ t.head?.any (· ≠ '}'))))

theorem backslash_notMem_name (a : Accent) : '\\' ∉ a.name := by cases a <;> decide

theorem mem_table_of_letter? {a : Accent} {c : Char} {t : Text} (h : a.letter? c = some t) :
    (c, t) ∈ a.table := by
  obtain ⟨l₁, l₂, h, -⟩ := List.lookup_eq_some_iff.mp h
  rw [h]
  simp

theorem standsApart_of_letter? {a : Accent} {c : Char} {t : Text} (h : a.letter? c = some t) :
    StandsApart t := by
  have hall : ∀ a ∈ all, ∀ p ∈ a.table, StandsApart p.2 := by decide
  exact hall a (mem_all a) _ (mem_table_of_letter? h)

theorem backslash_notMem_of_letter? {a : Accent} {c : Char} {t : Text} (h : a.letter? c = some t) :
    '\\' ∉ t := by
  have hall : ∀ a ∈ all, ∀ p ∈ a.table, '\\' ∉ p.2 := by decide
  exact hall a (mem_all a) _ (mem_table_of_letter? h)

theorem ne_backslash_of_letter? {a : Accent} {c : Char} {t : Text} (h : a.letter? c = some t) :
    c ≠ '\\' := by
  have hall : ∀ a ∈ all, ∀ p ∈ a.table, p.1 ≠ '\\' := by decide
  exact hall a (mem_all a) _ (mem_table_of_letter? h)

/-! ### Commands -/

theorem command?_eq_some_iff {a : Accent} {s t r : Text} :
    a.command? s = some (t, r) ↔ ∃ u c, Text.after? a.name s = some u ∧
      Text.stripLeft u = '{' :: c :: '}' :: r ∧ a.letter? c = some t := by
  constructor
  · intro h
    unfold command? at h
    split at h
    · rename_i c r' hs
      obtain ⟨u, hu, hstrip⟩ := Option.map_eq_some_iff.mp hs
      obtain ⟨t', ht, h⟩ := Option.map_eq_some_iff.mp h
      obtain ⟨rfl, rfl⟩ := Prod.mk.inj h
      exact ⟨u, c, hu, hstrip, ht⟩
    · simp at h
  · rintro ⟨u, c, hu, hstrip, ht⟩
    simp [command?, hu, hstrip, ht]

theorem letter?_of_command? {a : Accent} {s t r : Text} (h : a.command? s = some (t, r)) :
    ∃ c, a.letter? c = some t := by
  obtain ⟨u, c, -, -, ht⟩ := command?_eq_some_iff.mp h
  exact ⟨c, ht⟩

/-- A command is read the same whatever follows it. -/
theorem command?_append {a : Accent} {s t r : Text} (h : a.command? s = some (t, r)) (y : Text) :
    a.command? (s ++ y) = some (t, r ++ y) := by
  obtain ⟨u, c, hu, hstrip, ht⟩ := command?_eq_some_iff.mp h
  refine command?_eq_some_iff.mpr ⟨u ++ y, c, ?_, ?_, ht⟩
  · rw [Text.after?_eq_some_iff] at hu ⊢
    rw [hu, List.append_assoc]
  · have hu' : u.dropWhile Text.isBlank = '{' :: c :: '}' :: r := hstrip
    rw [Text.stripLeft, List.dropWhile_append, hu']
    rfl

/-- What follows a command is the end of the text that it starts. -/
theorem suffix_of_command? {a : Accent} {s t r : Text} (h : a.command? s = some (t, r)) :
    r <:+ s := by
  obtain ⟨u, c, hu, hstrip, -⟩ := command?_eq_some_iff.mp h
  have hr : r <:+ Text.stripLeft u := by
    rw [hstrip]
    exact ⟨['{', c, '}'], rfl⟩
  rw [Text.after?_eq_some_iff.mp hu]
  exact hr.trans ((List.dropWhile_suffix _).trans (List.suffix_append _ _))

/-! ### One step of folding -/

variable (a : Accent)

theorem fold_nil : a.fold [] = [] := by rw [fold]

variable {a}

theorem fold_cons_of_ne {c : Char} (h : c ≠ '\\') (s : Text) : a.fold (c :: s) = c :: a.fold s := by
  rw [fold, if_neg h]

theorem fold_backslash_of_none {s : Text} (h : a.command? s = none) :
    a.fold ('\\' :: s) = '\\' :: a.fold s := by
  rw [fold, if_pos rfl]
  split
  · rename_i hs
    rw [h] at hs
    simp at hs
  · rfl

theorem fold_backslash_of_some {s t r : Text} (h : a.command? s = some (t, r)) :
    a.fold ('\\' :: s) = t ++ a.fold r := by
  rw [fold, if_pos rfl]
  split
  · rename_i hs
    rw [h] at hs
    obtain ⟨rfl, rfl⟩ := Prod.mk.inj (Option.some.inj hs)
    rfl
  · rename_i hs
    rw [h] at hs
    simp at hs

/-- What a backslash becomes: itself, or a letter that stands apart. -/
theorem fold_backslash (s : Text) :
    a.fold ('\\' :: s) = '\\' :: a.fold s ∨
      ∃ d t u, StandsApart (d :: t) ∧ a.fold ('\\' :: s) = d :: t ++ u := by
  cases h : a.command? s with
  | none => exact .inl (fold_backslash_of_none h)
  | some p =>
    obtain ⟨c, hc⟩ := letter?_of_command? h
    have hapart := standsApart_of_letter? hc
    rw [fold_backslash_of_some h]
    match p.1, hapart with
    | d :: t, hapart => exact .inr ⟨d, t, _, hapart, rfl⟩

/-- A character of a folded text other than a backslash comes from the text
or starts an accented letter. -/
theorem fold_eq_cons {s u : Text} {d : Char} (hd : d ≠ '\\') (h : a.fold s = d :: u) :
    (∃ r, s = d :: r ∧ u = a.fold r) ∨ ∃ t v, StandsApart (d :: t) ∧ u = t ++ v := by
  cases s with
  | nil =>
    rw [fold_nil] at h
    simp at h
  | cons c s =>
    by_cases hc : c = '\\'
    · subst hc
      rcases fold_backslash (a := a) s with hs | ⟨e, t, v, he, hs⟩
      · rw [hs] at h
        exact absurd (List.cons.inj h).1.symm hd
      · rw [hs] at h
        obtain ⟨rfl, rfl⟩ := List.cons.inj h
        exact .inr ⟨t, v, he, rfl⟩
    · rw [fold_cons_of_ne hc] at h
      obtain ⟨rfl, rfl⟩ := List.cons.inj h
      exact .inl ⟨s, rfl, rfl⟩

theorem fold_eq_cons_of_not_foreign {s u : Text} {d : Char} (hd : d ≠ '\\') (hf : ¬ Foreign d)
    (h : a.fold s = d :: u) : ∃ r, s = d :: r ∧ u = a.fold r := by
  rcases fold_eq_cons hd h with h | ⟨t, v, ht, -⟩
  · exact h
  · exact absurd ht.1 hf

/-! ### Folding one accent and reading another -/

theorem after?_fold {b : Accent} {p : Text} (hp : p ⊆ b.name) (s : Text) :
    Text.after? p (a.fold s) = (Text.after? p s).map a.fold := by
  induction p generalizing s with
  | nil => rfl
  | cons q p ih =>
    have hq := hp List.mem_cons_self
    have hqb : q ≠ '\\' := fun he => backslash_notMem_name b (he ▸ hq)
    cases s with
    | nil => rw [fold_nil]; rfl
    | cons c s =>
      by_cases hc : c = '\\'
      · subst hc
        have hnone : Text.after? (q :: p) ('\\' :: s) = none := by simp [Text.after?, hqb]
        rw [hnone]
        rcases fold_backslash (a := a) s with h | ⟨d, t, u, hapart, h⟩
        · rw [h]
          simp [Text.after?, hqb]
        · have hqd : q ≠ d := fun he => hapart.1.2.2 b (mem_all b) (he ▸ hq)
          rw [h]
          simp [Text.after?, hqd]
      · rw [fold_cons_of_ne hc]
        by_cases hqc : q = c
        · simp only [Text.after?, if_pos hqc]
          exact ih (List.subset_of_cons_subset hp) s
        · simp [Text.after?, hqc]

theorem stripLeft_fold (s : Text) : Text.stripLeft (a.fold s) = a.fold (Text.stripLeft s) := by
  induction s with
  | nil => rw [fold_nil, Text.stripLeft, List.dropWhile_nil, fold_nil]
  | cons c s ih =>
    by_cases hc : c = '\\'
    · subst hc
      have hstay : Text.stripLeft ('\\' :: s) = '\\' :: s := by
        rw [Text.stripLeft, List.dropWhile_cons_of_neg (by decide)]
      rw [hstay]
      rcases fold_backslash (a := a) s with h | ⟨d, t, u, hapart, h⟩
      · rw [h, Text.stripLeft, List.dropWhile_cons_of_neg (by decide)]
      · rw [h, List.cons_append, Text.stripLeft, List.dropWhile_cons_of_neg]
        simp [hapart.1.2.1]
    · rw [fold_cons_of_ne hc]
      unfold Text.stripLeft at ih ⊢
      by_cases hb : Text.isBlank c = true
      · rw [List.dropWhile_cons_of_pos hb, List.dropWhile_cons_of_pos hb, ih]
      · rw [List.dropWhile_cons_of_neg hb, List.dropWhile_cons_of_neg hb, fold_cons_of_ne hc]

/-- The braces of a command and the letter in them come from the text. -/
theorem fold_eq_braced_iff {b : Accent} {s t u : Text} {c : Char} (hc : b.letter? c = some t) :
    a.fold s = '{' :: c :: '}' :: u ↔ ∃ r, s = '{' :: c :: '}' :: r ∧ u = a.fold r := by
  constructor
  · intro h
    obtain ⟨s₁, hs, h₁⟩ := fold_eq_cons_of_not_foreign (by decide) (by decide) h
    rcases fold_eq_cons (ne_backslash_of_letter? hc) h₁.symm with ⟨s₂, hs₁, h₂⟩ | ⟨w, v, hw, he⟩
    · obtain ⟨r, hs₂, hr⟩ := fold_eq_cons_of_not_foreign (by decide) (by decide) h₂.symm
      exact ⟨r, by rw [hs, hs₁, hs₂], hr⟩
    · -- an accented letter in the braces is not followed by the closing brace
      rcases hw.2 with hnone | hhead
      · rw [hnone b (mem_all b)] at hc
        simp at hc
      · cases w with
        | nil => simp at hhead
        | cons x w =>
          have hx : x ≠ '}' := by simpa using hhead
          exact absurd (List.cons.inj he).1.symm hx
  · rintro ⟨r, rfl, rfl⟩
    rw [fold_cons_of_ne (by decide), fold_cons_of_ne (ne_backslash_of_letter? hc),
      fold_cons_of_ne (by decide)]

/-- **Folding an accent neither makes nor breaks a command.** -/
theorem command?_fold (b : Accent) (s : Text) :
    b.command? (a.fold s) = (b.command? s).map fun p => (p.1, a.fold p.2) := by
  refine Option.ext fun p => ?_
  obtain ⟨t, u⟩ := p
  simp only [Option.map_eq_some_iff, Prod.mk.injEq, Prod.exists, command?_eq_some_iff,
    after?_fold (List.Subset.refl b.name)]
  constructor
  · rintro ⟨_, c, ⟨v, hv, rfl⟩, hstrip, ht⟩
    rw [stripLeft_fold, fold_eq_braced_iff ht] at hstrip
    obtain ⟨r, hr, rfl⟩ := hstrip
    exact ⟨t, r, ⟨v, c, hv, hr, ht⟩, rfl, rfl⟩
  · rintro ⟨_, r, ⟨v, c, hv, hr, ht⟩, rfl, rfl⟩
    refine ⟨a.fold v, c, ⟨v, hv, rfl⟩, ?_, ht⟩
    rw [stripLeft_fold, fold_eq_braced_iff ht]
    exact ⟨r, hr, rfl⟩

/-! ### Texts without a command to fold -/

/-- No command of this accent in the text can be folded. -/
def Folded (a : Accent) (s : Text) : Prop := ∀ u, '\\' :: u <:+ s → a.command? u = none

theorem Folded.of_cons {c : Char} {s : Text} (h : Folded a (c :: s)) : Folded a s :=
  fun u hu => h u (hu.trans (List.suffix_cons c s))

theorem Folded.of_suffix {s t : Text} (h : Folded a s) (ht : t <:+ s) : Folded a t :=
  fun u hu => h u (hu.trans ht)

/-- What is cut out of a folded text is folded. -/
theorem Folded.of_part {s t : Text} (h : Folded a s) (ht : t <:+: s) : Folded a t := by
  obtain ⟨x, y, rfl⟩ := ht
  rintro u ⟨w, rfl⟩
  cases hu : a.command? u with
  | none => rfl
  | some p =>
    have hlong := h (u ++ y) ⟨x ++ w, by simp⟩
    rw [command?_append hu y] at hlong
    simp at hlong

/-- Folding keeps a text without commands of `b` so, and leaves none of `a`. -/
theorem folded_fold {b : Accent} {s : Text} (h : b = a ∨ Folded b s) : Folded b (a.fold s) := by
  fun_induction fold a s with
  | case1 => simp [Folded]
  | case2 s t r hs ih =>
    obtain ⟨c, hc⟩ := letter?_of_command? hs
    have hsuffix : r <:+ '\\' :: s := (suffix_of_command? hs).trans (List.suffix_cons _ _)
    have hr : b = a ∨ Folded b r := h.imp_right fun h => h.of_suffix hsuffix
    exact fun u hu => ih hr u (Text.suffix_of_suffix_append (backslash_notMem_of_letter? hc) hu)
  | case3 s hs ih =>
    intro u hu
    rcases List.suffix_cons_iff.mp hu with he | hu
    · rw [(List.cons.inj he).2, command?_fold]
      rcases h with rfl | h
      · rw [hs]; rfl
      · rw [h s (List.suffix_refl _)]; rfl
    · exact ih (h.imp_right Folded.of_cons) u hu
  | case4 c s hc ih =>
    intro u hu
    rcases List.suffix_cons_iff.mp hu with he | hu
    · exact absurd (List.cons.inj he).1.symm hc
    · exact ih (h.imp_right Folded.of_cons) u hu

theorem fold_eq_self {s : Text} (h : Folded a s) : a.fold s = s := by
  fun_induction fold a s with
  | case1 => rfl
  | case2 s t r hs ih =>
    rw [h s (List.suffix_refl _)] at hs
    simp at hs
  | case3 s hs ih => rw [ih h.of_cons]
  | case4 c s hc ih => rw [ih h.of_cons]

/-- Folding accents in a row leaves none of them, and none that was not there. -/
theorem folded_foldl {b : Accent} {as : List Accent} {s : Text} (h : b ∈ as ∨ Folded b s) :
    Folded b (as.foldl (fun t a => a.fold t) s) := by
  induction as generalizing s with
  | nil => exact h.elim (fun hb => absurd hb List.not_mem_nil) id
  | cons a as ih =>
    refine ih ?_
    rcases h with h | h
    · rcases List.mem_cons.mp h with rfl | h
      · exact .inr (folded_fold (.inl rfl))
      · exact .inl h
    · exact .inr (folded_fold (.inr h))

/-! ### What folding does not make -/

/-- A text of characters that stand in no accented letter and start no command. -/
def Unaccented (p : Text) : Prop :=
  ∀ d ∈ p, d ≠ '\\' ∧ ∀ a ∈ all, ∀ q ∈ a.table, d ∉ q.2

instance : DecidablePred Unaccented := fun p =>
  List.decidableBAll (fun d : Char => d ≠ '\\' ∧ ∀ a ∈ all, ∀ q ∈ a.table, d ∉ q.2) p

theorem Unaccented.notMem_letter {p : Text} (h : Unaccented p) {d : Char} (hd : d ∈ p) {b : Accent}
    {c : Char} {t : Text} (ht : b.letter? c = some t) : d ∉ t :=
  (h d hd).2 b (mem_all b) _ (mem_table_of_letter? ht)

/-- Such a text at the start of a folded text comes from the text. -/
theorem prefix_of_prefix_fold {p : Text} (hp : Unaccented p) {s : Text} (h : p <+: a.fold s) :
    p <+: s := by
  induction p generalizing s with
  | nil => exact List.nil_prefix
  | cons q p ih =>
    have hrest : Unaccented p := fun d hd => hp d (List.mem_cons_of_mem q hd)
    cases s with
    | nil =>
      rw [fold_nil] at h
      exact absurd (List.prefix_nil.mp h) (by simp)
    | cons c s =>
      by_cases hc : c = '\\'
      · subst hc
        have hq := hp q List.mem_cons_self
        cases hs : a.command? s with
        | none =>
          rw [fold_backslash_of_none hs] at h
          exact absurd (List.cons_prefix_cons.mp h).1 hq.1
        | some x =>
          obtain ⟨d, hd⟩ := letter?_of_command? hs
          have hapart := standsApart_of_letter? hd
          rw [fold_backslash_of_some hs] at h
          match x.1, hapart, hp.notMem_letter List.mem_cons_self hd, h with
          | e :: t, _, hnot, h =>
            exact absurd (List.cons_prefix_cons.mp h).1 (List.ne_of_not_mem_cons hnot)
      · rw [fold_cons_of_ne hc] at h
        obtain ⟨hqc, htail⟩ := List.cons_prefix_cons.mp h
        exact List.cons_prefix_cons.mpr ⟨hqc, ih hrest htail⟩

theorem infix_of_infix_fold {p : Text} (hp : Unaccented p) {s : Text} (h : p <:+: a.fold s) :
    p <:+: s := by
  cases p with
  | nil => exact List.nil_infix
  | cons q p =>
    have hq := hp q List.mem_cons_self
    fun_induction fold a s with
    | case1 => exact absurd (List.infix_nil.mp h) (by simp)
    | case2 s t r hs ih =>
      obtain ⟨c, hc⟩ := letter?_of_command? hs
      have hr : q :: p <:+: r :=
        ih (Text.infix_of_infix_append (hp.notMem_letter List.mem_cons_self hc) h)
      exact hr.trans ((suffix_of_command? hs).trans (List.suffix_cons _ _)).isInfix
    | case3 s hs ih =>
      rcases List.infix_cons_iff.mp h with h | h
      · exact absurd (List.cons_prefix_cons.mp h).1 hq.1
      · exact (ih h).trans (List.suffix_cons _ s).isInfix
    | case4 c s hc ih =>
      rcases List.infix_cons_iff.mp h with h | h
      · rw [← fold_cons_of_ne hc] at h
        exact (prefix_of_prefix_fold hp h).isInfix
      · exact (ih h).trans (List.suffix_cons c s).isInfix

theorem foldl_fold_eq_self {s : Text} (h : ∀ a, Folded a s) (as : List Accent) :
    as.foldl (fun t a => a.fold t) s = s := by
  induction as with
  | nil => rfl
  | cons a as ih => rw [List.foldl_cons, fold_eq_self (h a), ih]

end Accent

open Accent

theorem folded_foldAccents (a : Accent) (s : Text) : Folded a (foldAccents s) :=
  folded_foldl (.inl (mem_all a))

theorem foldAccents_eq_self {s : Text} (h : ∀ a, Folded a s) : foldAccents s = s :=
  foldl_fold_eq_self h all

/-- Folding makes no text that holds nothing of an accented letter. -/
theorem infix_of_infix_foldAccents {p : Text} (hp : Unaccented p) {s : Text}
    (h : p <:+: foldAccents s) : p <:+: s := by
  have hfoldl : ∀ as : List Accent, ∀ {t : Text},
      p <:+: as.foldl (fun t a => a.fold t) t → p <:+: t := by
    intro as
    induction as with
    | nil => exact id
    | cons a as ih => exact fun h => infix_of_infix_fold hp (ih h)
  exact hfoldl all h

/-- **What is cut out of a folded text stays as it is** when it is folded
again. -/
theorem foldAccents_of_part {s t : Text} (h : t <:+: foldAccents s) : foldAccents t = t :=
  foldAccents_eq_self fun a => (folded_foldAccents a s).of_part h

end Formulary
