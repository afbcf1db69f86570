/-
# Folding accents in one pass

Going once through a text from the left, each command over a letter that has an accented
form can be replaced as it is met, and every other character left where it is (`OnePass`).
Folding one accent after another gives the same: a pass that still looks for an accent can
have it folded beforehand (`OnePass.fold`), and with no accent left to look for it changes
nothing. So the order of the accents does not matter, and nothing is left to fold
(`foldAccents_onePass`).

Key definitions: `Accent.Written`, `OnePass`.
Key theorems: `Accent.command?_eq_some_iff_written`, `Accent.eq_of_command?`, `OnePass.fold`,
`onePass_iff`, `foldAccents_onePass`.
-/
import Formulary.Proofs.Latex.Folding
import Mathlib.Data.List.TakeWhile

namespace Formulary
namespace Accent

/-! ### Commands as they are written -/

/-- A command of an accent, as it stands in a text: a backslash, the accent's name, blanks, and
a letter in braces, which has the accented form given. -/
inductive Written (a : Accent) : Text → Text → Prop
  | intro {blanks t : Text} {c : Char} (hblanks : ∀ d ∈ blanks, Text.isBlank d = true)
      (hletter : c.isAlpha = true) (hform : a.letter? c = some t) :
      Written a ('\\' :: (a.name ++ (blanks ++ ['{', c, '}']))) t

theorem isAlpha_of_letter? {a : Accent} {c : Char} {t : Text} (h : a.letter? c = some t) :
    c.isAlpha = true := by
  have hall : ∀ a ∈ all, ∀ p ∈ a.table, p.1.isAlpha = true := by decide
  exact hall a (mem_all a) _ (mem_table_of_letter? h)

/-- A command is read exactly where it is written. -/
theorem command?_eq_some_iff_written {a : Accent} {s t r : Text} :
    a.command? s = some (t, r) ↔ ∃ m, a.Written m t ∧ '\\' :: s = m ++ r := by
  rw [command?_eq_some_iff]
  constructor
  · rintro ⟨u, c, hu, hstrip, hform⟩
    obtain ⟨blanks, hblanks, rfl⟩ : ∃ blanks : Text, (∀ d ∈ blanks, Text.isBlank d = true) ∧
        u = blanks ++ '{' :: c :: '}' :: r := by
      refine ⟨u.takeWhile Text.isBlank, fun d hd => List.mem_takeWhile_imp hd, ?_⟩
      rw [← hstrip]
      exact List.takeWhile_append_dropWhile.symm
    refine ⟨_, .intro hblanks (isAlpha_of_letter? hform) hform, ?_⟩
    rw [Text.after?_eq_some_iff.mp hu]
    simp
  · rintro ⟨m, ⟨hblanks, -, hform⟩, hm⟩
    rename_i blanks c
    refine ⟨blanks ++ '{' :: c :: '}' :: r, c, ?_, ?_, hform⟩
    · rw [Text.after?_eq_some_iff]
      simpa using hm
    · exact Text.dropWhile_until hblanks (by decide) _

/-- A text starts with a command of one accent only: the name ends where blanks or the brace
begin. -/
theorem eq_of_command? {a b : Accent} {s : Text} {p q : Text × Text} (ha : a.command? s = some p)
    (hb : b.command? s = some q) : a = b := by
  have hname : ∀ {a : Accent} {p : Text × Text}, a.command? s = some p →
      a.name = s.takeWhile fun d => !(Text.isBlank d || d == '{') := by
    intro a p h
    obtain ⟨u, c, hu, hstrip, -⟩ := command?_eq_some_iff.mp h
    have hin : a.name.all (fun d => !(Text.isBlank d || d == '{')) = true := by
      cases a <;> decide
    have hstop : u.takeWhile (fun d => !(Text.isBlank d || d == '{')) = [] := by
      cases u with
      | nil => rfl
      | cons d u =>
        refine List.takeWhile_cons_of_neg ?_
        by_cases hblank : Text.isBlank d = true
        · simp [hblank]
        · rw [Text.stripLeft, List.dropWhile_cons_of_neg hblank] at hstrip
          simp [(List.cons.inj hstrip).1]
    rw [Text.after?_eq_some_iff.mp hu, List.takeWhile_append_of_pos (List.all_eq_true.mp hin),
      hstop, List.append_nil]
  have hinj : ∀ a ∈ all, ∀ b ∈ all, a.name = b.name → a = b := by decide
  exact hinj a (mem_all a) b (mem_all b) ((hname ha).trans (hname hb).symm)

end Accent

open Accent

/-! ### One pass -/

/-- Going through a text once, from the left: a command of one of the accents is replaced by its
accented form, and a character at which none starts stays. -/
inductive OnePass (as : List Accent) : Text → Text → Prop
  | nil : OnePass as [] []
  | command {a : Accent} {m s t u : Text} (ha : a ∈ as) (hm : a.Written m t)
      (rest : OnePass as s u) : OnePass as (m ++ s) (t ++ u)
  | char {c : Char} {s u : Text} (hc : ∀ a ∈ as, ∀ m t, a.Written m t → ¬ m <+: c :: s)
      (rest : OnePass as s u) : OnePass as (c :: s) (c :: u)

theorem Accent.Written.exists_eq_cons {a : Accent} {m t : Text} (h : a.Written m t) :
    ∃ x, m = '\\' :: x := by
  obtain ⟨hblanks, -, -⟩ := h
  exact ⟨_, rfl⟩

variable {a : Accent} {as : List Accent} {s t : Text}

theorem OnePass.cons_of_ne {c : Char} (hc : c ≠ '\\') {u : Text} (h : OnePass as s u) :
    OnePass as (c :: s) (c :: u) := by
  refine .char (fun a _ m t hm hprefix => ?_) h
  obtain ⟨x, rfl⟩ := hm.exists_eq_cons
  exact hc (List.cons_prefix_cons.mp hprefix).1.symm

theorem OnePass.append_of_notMem {x u : Text} (hx : '\\' ∉ x) (h : OnePass as s u) :
    OnePass as (x ++ s) (x ++ u) := by
  induction x with
  | nil => exact h
  | cons c x ih =>
    obtain ⟨hc, hx⟩ := List.ne_and_not_mem_of_not_mem_cons hx
    exact (ih hx).cons_of_ne hc.symm

theorem OnePass.backslash_of_none {u : Text} (hs : ∀ a ∈ as, a.command? s = none)
    (h : OnePass as s u) : OnePass as ('\\' :: s) ('\\' :: u) := by
  refine .char (fun a ha m t hm => ?_) h
  rintro ⟨r, hr⟩
  have hsome := command?_eq_some_iff_written.mpr ⟨m, hm, hr.symm⟩
  rw [hs a ha] at hsome
  simp at hsome

/-- **One accent fewer to look for.** A pass that looks for an accent gives the same when that
accent is folded beforehand and no longer looked for. -/
theorem OnePass.fold (h : OnePass (a :: as) s t) : OnePass as (a.fold s) t := by
  induction h with
  | nil =>
    rw [fold_nil]
    exact .nil
  | @command b m s t u hb hm _ ih =>
    obtain ⟨x, rfl⟩ := hm.exists_eq_cons
    have hcmd : b.command? (x ++ s) = some (t, s) :=
      command?_eq_some_iff_written.mpr ⟨_, hm, rfl⟩
    rw [List.cons_append]
    by_cases hab : b = a
    · subst hab
      obtain ⟨c, hc⟩ := letter?_of_command? hcmd
      rw [fold_backslash_of_some hcmd]
      exact ih.append_of_notMem (backslash_notMem_of_letter? hc)
    · -- folding leaves the command of another accent where it is
      have hnone : a.command? (x ++ s) = none := by
        refine Option.eq_none_iff_forall_ne_some.mpr fun p hp => ?_
        exact hab (eq_of_command? hcmd hp)
      have hfold : b.command? (a.fold (x ++ s)) = some (t, a.fold s) := by
        rw [command?_fold, hcmd]
        rfl
      obtain ⟨m, hm, he⟩ := command?_eq_some_iff_written.mp hfold
      rw [fold_backslash_of_none hnone, he]
      exact .command (List.mem_of_ne_of_mem hab hb) hm ih
  | @char c s u hc _ ih =>
    by_cases hslash : c = '\\'
    · subst hslash
      have hnone : ∀ b ∈ a :: as, b.command? s = none := fun b hb => by
        refine Option.eq_none_iff_forall_ne_some.mpr fun p hp => ?_
        obtain ⟨m, hm, he⟩ := command?_eq_some_iff_written.mp hp
        exact hc b hb m p.1 hm ⟨p.2, he.symm⟩
      rw [fold_backslash_of_none (hnone a List.mem_cons_self)]
      refine ih.backslash_of_none fun b hb => ?_
      rw [command?_fold, hnone b (List.mem_cons_of_mem a hb)]
      rfl
    · rw [fold_cons_of_ne hslash]
      exact ih.cons_of_ne hslash

/-- A pass that looks for nothing changes nothing. -/
theorem OnePass.eq_of_nil (h : OnePass [] s t) : t = s := by
  induction h with
  | nil => rfl
  | command ha => exact absurd ha List.not_mem_nil
  | char _ _ ih => rw [ih]

theorem OnePass.eq_foldl (h : OnePass as s t) : t = as.foldl (fun t a => a.fold t) s := by
  induction as generalizing s with
  | nil => exact h.eq_of_nil
  | cons a as ih => exact ih h.fold

theorem exists_onePass (as : List Accent) (s : Text) : ∃ t, OnePass as s t := by
  match s with
  | [] => exact ⟨[], .nil⟩
  | c :: s =>
    by_cases h : ∃ a ∈ as, ∃ m t, a.Written m t ∧ m <+: c :: s
    · obtain ⟨a, ha, m, t, hm, r, hr⟩ := h
      have hshort : r.length < (c :: s).length := by
        obtain ⟨x, rfl⟩ := hm.exists_eq_cons
        rw [← hr, List.length_append, List.length_cons]
        omega
      obtain ⟨u, hu⟩ := exists_onePass as r
      exact ⟨t ++ u, hr ▸ .command ha hm hu⟩
    · obtain ⟨u, hu⟩ := exists_onePass as s
      exact ⟨c :: u, .char (fun a ha m t hm hp => h ⟨a, ha, m, t, hm, hp⟩) hu⟩
termination_by s.length
decreasing_by
  · exact hshort
  · exact Nat.lt_succ_self _

/-- One pass that looks for some accents gives what folding them in a row gives. -/
theorem onePass_iff : OnePass as s t ↔ t = as.foldl (fun t a => a.fold t) s := by
  refine ⟨OnePass.eq_foldl, ?_⟩
  rintro rfl
  obtain ⟨t, ht⟩ := exists_onePass as s
  rw [← ht.eq_foldl]
  exact ht

/-- What a pass looks for is a set of accents, in no order. -/
theorem OnePass.of_mem_iff {bs : List Accent} (hmem : ∀ a, a ∈ as ↔ a ∈ bs) (h : OnePass as s t) :
    OnePass bs s t := by
  induction h with
  | nil => exact .nil
  | command ha hm _ ih => exact .command ((hmem _).mp ha) hm ih
  | char hc _ ih => exact .char (fun a ha => hc a ((hmem a).mpr ha)) ih

/-- **Folding accents is one pass over the text.** The one text that a pass for all accents
gives is what folding the accents in a row gives, in whichever order. No command that could be
folded is left in it, so folding it again changes nothing. -/
theorem foldAccents_onePass (s : Text) :
    (∀ t, OnePass all s t ↔ t = foldAccents s) ∧
    (∀ as : List Accent, (∀ a, a ∈ as) → as.foldl (fun t a => a.fold t) s = foldAccents s) ∧
    (∀ a m t, Written a m t → ¬ m <:+: foldAccents s) ∧
    foldAccents (foldAccents s) = foldAccents s := by
  refine ⟨fun t => onePass_iff, fun as has => ?_, fun a m t hm hin => ?_, ?_⟩
  · have hpass : OnePass as s (foldAccents s) :=
      (onePass_iff.mpr rfl : OnePass all s (foldAccents s)).of_mem_iff fun a =>
        iff_of_true (mem_all a) (has a)
    exact hpass.eq_foldl.symm
  · obtain ⟨x, rfl⟩ := hm.exists_eq_cons
    obtain ⟨u, v, huv⟩ := hin
    have hnone := folded_foldAccents a s (x ++ v) ⟨u, by rw [← huv]; simp⟩
    have hsome : a.command? (x ++ v) = some (t, v) :=
      command?_eq_some_iff_written.mpr ⟨_, hm, rfl⟩
    rw [hnone] at hsome
    simp at hsome
  · exact foldAccents_of_part List.infix_rfl

/-- Commands in the braces of others, with blanks and over letters without an accented form. -/
def nestedAccents : Text :=
  ("\\hat\x7b\\bar\x7bx\x7d\x7d\\tilde \x7b\\dot\t\x7by\x7d\x7d" ++
    "\\bar\x7bq\x7d\\hat\x7b\\hat\x7ba\x7d\x7d").toList

/-- What is left of them: the inner commands are folded. -/
def nestedFolded : Text :=
  "\\hat\x7bx\u0304\x7d\\tilde \x7bẏ\x7d\\bar\x7bq\x7d\\hat\x7bâ\x7d".toList

theorem foldAccents_onePass_nested :
    (∀ a, a ∈ [dot, tilde, bar, hat]) ∧ foldAccents nestedAccents = nestedFolded ∧
    OnePass all nestedAccents nestedFolded ∧
    [dot, tilde, bar, hat].foldl (fun t a => a.fold t) nestedAccents = nestedFolded := by
  have hmem : ∀ a, a ∈ [dot, tilde, bar, hat] := fun a => by cases a <;> decide
  have hfold : foldAccents nestedAccents = nestedFolded := by decide +kernel
  obtain ⟨hpass, horder, -, -⟩ := foldAccents_onePass nestedAccents
  exact ⟨hmem, hfold, (hpass _).mpr hfold.symm, (horder _ hmem).trans hfold⟩

end Formulary
