/-
# Texts without blanks at their ends

A stripped text neither starts nor ends with a blank, and a text that does not is stripped
already.

Key theorems: `Text.ends_strip`, `Text.strip_eq_self_iff`, `Text.strip_strip`.
-/
import Formulary.Text.Blank
import Mathlib.Data.List.DropRight

namespace Formulary
namespace Text

/-- Whether a text neither starts nor ends with a blank. -/
def IsTrim (s : Text) : Prop :=
  (∀ c ∈ s.head?, isBlank c = false) ∧ ∀ c ∈ s.getLast?, isBlank c = false

theorem head?_stripLeft {s : Text} {c : Char} (h : c ∈ (stripLeft s).head?) :
    isBlank c = false := by
  obtain ⟨t, ht⟩ := List.head?_eq_some_iff.mp h
  have hnil : s.dropWhile isBlank ≠ [] := by
    rw [show s.dropWhile isBlank = c :: t from ht]
    exact List.cons_ne_nil c t
  have hhead := List.head_dropWhile_not isBlank hnil
  rwa [List.head_eq_iff_head?_eq_some hnil |>.mpr h] at hhead

theorem prefix_of_stripRight (s : Text) : stripRight s <+: s := List.rdropWhile_prefix isBlank s

theorem getLast?_stripRight {s : Text} {c : Char} (h : c ∈ (stripRight s).getLast?) :
    isBlank c = false := by
  rw [stripRight, List.getLast?_reverse] at h
  exact head?_stripLeft h

/-- A stripped text has no blanks at its ends. -/
theorem ends_strip (s : Text) : (strip s).IsTrim := by
  refine ⟨fun c hc => head?_stripLeft (s := s) ?_, fun c hc => getLast?_stripRight hc⟩
  obtain ⟨t, ht⟩ := List.head?_eq_some_iff.mp hc
  obtain ⟨u, hu⟩ := prefix_of_stripRight (stripLeft s)
  rw [← hu, show stripRight (stripLeft s) = c :: t from ht]
  rfl

theorem stripLeft_of_head? {s : Text} (h : ∀ c ∈ s.head?, isBlank c = false) :
    stripLeft s = s := by
  cases s with
  | nil => rfl
  | cons c s => exact List.dropWhile_cons_of_neg (by simp [h c rfl])

theorem stripRight_of_getLast? {s : Text} (h : ∀ c ∈ s.getLast?, isBlank c = false) :
    stripRight s = s := by
  have hhead : ∀ c ∈ s.reverse.head?, isBlank c = false := by
    rwa [List.head?_reverse]
  rw [stripRight, show s.reverse.dropWhile isBlank = s.reverse from stripLeft_of_head? hhead,
    List.reverse_reverse]

/-- A text stays as it is if and only if it has no blanks at its ends. -/
theorem strip_eq_self_iff {s : Text} : strip s = s ↔ s.IsTrim := by
  refine ⟨fun h => h ▸ ends_strip s, fun h => ?_⟩
  rw [strip, stripLeft_of_head? h.1, stripRight_of_getLast? h.2]

/-- A text that is set in between leaves the ends as they are. -/
theorem IsTrim.insert {x y : Text} (h : (x ++ y).IsTrim) (hx : x ≠ []) (hy : y ≠ []) (z : Text) :
    (x ++ (z ++ y)).IsTrim := by
  rw [IsTrim, List.head?_append_of_ne_nil _ hx, List.getLast?_append_of_ne_nil _ hy] at h
  rw [IsTrim, List.head?_append_of_ne_nil _ hx,
    List.getLast?_append_of_ne_nil _ (List.append_ne_nil_of_right_ne_nil z hy),
    List.getLast?_append_of_ne_nil _ hy]
  exact h

theorem strip_strip (s : Text) : strip (strip s) = strip s := strip_eq_self_iff.mpr (ends_strip s)

/-- Stripping takes characters away from the ends only. -/
theorem strip_infix (s : Text) : strip s <:+: s :=
  (prefix_of_stripRight (stripLeft s)).isInfix.trans (List.dropWhile_suffix isBlank).isInfix

/-- A text without blanks at its ends that is not empty holds more than blanks. -/
theorem IsTrim.exists_not_isBlank {s : Text} (h : s.IsTrim) (hne : s ≠ []) :
    ∃ c ∈ s, isBlank c = false := by
  obtain ⟨c, t, rfl⟩ := List.exists_cons_of_ne_nil hne
  exact ⟨c, List.mem_cons_self, h.1 c rfl⟩

end Text
end Formulary
