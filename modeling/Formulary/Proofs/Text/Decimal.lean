/-
# Numbers and their digits

A number is known by its digits, and a padded number has the value that was written.

Key theorems: `Text.ofNat_injective`, `Text.ofInt_injective`, `Text.digitsValue_padded`.
-/
import Formulary.Text.Decimal
import Mathlib.Logic.Function.Basic

namespace Formulary
namespace Text

theorem ofNat_injective : Function.Injective ofNat := by
  intro m n h
  calc m = Nat.ofDigitChars 10 (ofNat m) 0 := Nat.ofDigitChars_ten_toDigits.symm
    _ = Nat.ofDigitChars 10 (ofNat n) 0 := by rw [h]
    _ = n := Nat.ofDigitChars_ten_toDigits

theorem isDigit_of_mem_ofNat {c : Char} {n : Nat} (h : c ∈ ofNat n) : c.isDigit = true :=
  Nat.isDigit_of_mem_toDigits (by decide) (by decide) h

theorem dash_notMem_ofNat (n : Nat) : '-' ∉ ofNat n := fun h => by
  simpa using isDigit_of_mem_ofNat h

/-- A signed number is known by what is written. -/
theorem ofInt_injective : Function.Injective ofInt := by
  intro m n h
  cases m with
  | ofNat m =>
    cases n with
    | ofNat n => rw [ofNat_injective h]
    | negSucc n =>
      have hdash : '-' ∈ ofNat m := by
        rw [show ofNat m = '-' :: ofNat (n + 1) from h]
        exact List.mem_cons_self
      exact absurd hdash (dash_notMem_ofNat m)
  | negSucc m =>
    cases n with
    | ofNat n =>
      have hdash : '-' ∈ ofNat n := by
        rw [← show '-' :: ofNat (m + 1) = ofNat n from h]
        exact List.mem_cons_self
      exact absurd hdash (dash_notMem_ofNat n)
    | negSucc n =>
      have := ofNat_injective (List.cons.inj h).2
      rw [Nat.succ.inj this]

theorem length_ofNat_le {w n : Nat} (hw : 0 < w) (h : n < Nat.pow 10 w) : (ofNat n).length ≤ w :=
  (Nat.length_toDigits_le_iff (by decide) hw).mpr h

theorem isDigit_of_mem_padded {c : Char} {w n : Nat} (h : c ∈ padded w n) : c.isDigit = true := by
  rcases List.mem_append.mp h with h | h
  · rw [List.eq_of_mem_replicate h]
    rfl
  · exact isDigit_of_mem_ofNat h

theorem digitsValue_replicate_append (k : Nat) (s : Text) :
    digitsValue (List.replicate k '0' ++ s) = digitsValue s := by
  induction k with
  | zero => rfl
  | succ k ih =>
    rw [List.replicate_succ, List.cons_append, ← ih]
    rfl

/-- A padded number is read back. -/
theorem digitsValue_padded (w n : Nat) : digitsValue (padded w n) = n := by
  rw [padded, digitsValue_replicate_append]
  exact Nat.ofDigitChars_ten_toDigits

end Text
end Formulary
