/-
# Halves of pairs are kept

A text has bytes if and only if it has no halves of pairs; if not, the first of
them are named with their place. Halves that are put back into what has become of
a mask leave it as it is, apart from themselves, and none is lost where no
stand-in is. So a function that is lifted to loose texts does to a text of
characters what it does to texts.

Key theorems: `LooseText.toText_eq_error_iff`, `LooseText.toText_of_hasHalf`,
`LooseText.mask_putBack`, `LooseText.stood_putBack`, `LooseText.hasHalf_lift`.
-/
import Formulary.Text.Loose
import Mathlib.Data.List.TakeWhile

namespace Formulary
namespace LooseText

/-! ### Texts of characters -/

theorem ofText_append (s t : Text) : ofText (s ++ t) = ofText s ++ ofText t := List.map_append

theorem mask_ofText (s : Text) : (ofText s).mask = s := by
  rw [ofText, mask, List.map_map]
  exact List.map_id s

theorem hasHalf_ofText (s : Text) : (ofText s).hasHalf = false := by
  simp [ofText, hasHalf, LooseChar.isHalf, LooseChar.unit?]

theorem hasHalf_append (s t : LooseText) : hasHalf (s ++ t) = (hasHalf s || hasHalf t) :=
  List.any_append

theorem ofText_mask {s : LooseText} (h : s.hasHalf = false) : ofText s.mask = s := by
  have hchar : ∀ c ∈ s, (.char c.mask : LooseChar) = c := fun c hc => by
    cases c with
    | char c => rfl
    | half u => exact absurd (List.any_eq_false.mp h _ hc) (fun hnot => hnot rfl)
  rw [ofText, mask, List.map_map]
  exact (List.map_congr_left hchar).trans (List.map_id s)

/-! ### Bytes -/

theorem toText_of_not_hasHalf {s : LooseText} (h : s.hasHalf = false) : s.toText = .ok s.mask := by
  have hdrop : s.dropWhile (fun c => !c.isHalf) = [] :=
    List.dropWhile_eq_nil_iff.mpr fun c hc => by simpa using List.any_eq_false.mp h c hc
  rw [toText, hdrop]

theorem toText_ofText (s : Text) : (ofText s).toText = .ok s := by
  rw [toText_of_not_hasHalf (hasHalf_ofText s), mask_ofText]

/-- Halves of pairs are what their code units say. -/
theorem map_half_units {hs : LooseText} (h : ∀ c ∈ hs, c.isHalf = true) :
    (hs.filterMap LooseChar.unit?).map .half = hs := by
  induction hs with
  | nil => rfl
  | cons c hs ih =>
    obtain ⟨hc, hhs⟩ := List.forall_mem_cons.mp h
    cases c with
    | char c => exact absurd hc (by simp [LooseChar.isHalf, LooseChar.unit?])
    | half u => exact congrArg (_ :: ·) (ih hhs)

/-- A text with halves has no bytes, and the first of its halves are named. -/
theorem toText_of_hasHalf {s : LooseText} (h : s.hasHalf = true) :
    ∃ (a : Text) (units : List Nat) (r : LooseText), s = ofText a ++ units.map .half ++ r ∧
      units ≠ [] ∧ (∀ c ∈ r.head?, c.isHalf = false) ∧
      s.toText = .error (.unpaired units a.length) := by
  obtain ⟨c, hc, hhalf⟩ := List.any_eq_true.mp h
  have hfront := List.takeWhile_append_dropWhile (p := fun c : LooseChar => !c.isHalf) (l := s)
  have hplain : hasHalf (s.takeWhile fun c => !c.isHalf) = false :=
    List.any_eq_false.mpr fun c hc => by simpa using List.mem_takeWhile_imp hc
  obtain ⟨d, r, hr⟩ : ∃ d r, s.dropWhile (fun c => !c.isHalf) = d :: r := by
    refine List.exists_cons_of_ne_nil fun hnil => ?_
    simpa [hhalf] using List.dropWhile_eq_nil_iff.mp hnil c hc
  have hd : d.isHalf = true := by
    have hstop := List.head?_dropWhile_not (fun c : LooseChar => !c.isHalf) s
    rw [hr] at hstop
    simpa using hstop
  have hhalves : ∀ c ∈ (d :: r).takeWhile LooseChar.isHalf, c.isHalf = true :=
    fun c hc => List.mem_takeWhile_imp hc
  refine ⟨mask (s.takeWhile fun c => !c.isHalf),
    ((d :: r).takeWhile LooseChar.isHalf).filterMap LooseChar.unit?,
    (d :: r).dropWhile LooseChar.isHalf, ?_, ?_, fun c hc => ?_, ?_⟩
  · rw [ofText_mask hplain, map_half_units hhalves, List.append_assoc,
      List.takeWhile_append_dropWhile, ← hr, hfront]
  · intro hnil
    have hlist := map_half_units hhalves
    rw [hnil, List.takeWhile_cons_of_pos hd] at hlist
    exact absurd hlist (by simp)
  · have hstop := List.head?_dropWhile_not LooseChar.isHalf (d :: r)
    rw [Option.mem_def.mp hc] at hstop
    simpa using hstop
  · have hlength : (mask (s.takeWhile fun c => !c.isHalf)).length =
        (s.takeWhile fun c => !c.isHalf).length := List.length_map _
    rw [toText, hr, hlength]

theorem toText_eq_error_iff {s : LooseText} : (∃ e, s.toText = .error e) ↔ s.hasHalf = true := by
  refine ⟨fun ⟨e, he⟩ => ?_, fun h => ?_⟩
  · cases hs : s.hasHalf with
    | true => rfl
    | false =>
      rw [toText_of_not_hasHalf hs] at he
      exact absurd he (by simp)
  · obtain ⟨a, units, r, -, -, -, he⟩ := toText_of_hasHalf h
    exact ⟨_, he⟩

theorem toText_eq_ok_iff {s : LooseText} {t : Text} : s.toText = .ok t ↔ s = ofText t := by
  refine ⟨fun h => ?_, fun h => h ▸ toText_ofText t⟩
  cases hs : s.hasHalf with
  | true =>
    obtain ⟨e, he⟩ := toText_eq_error_iff.mpr hs
    exact absurd (he.symm.trans h) (by simp)
  | false =>
    rw [toText_of_not_hasHalf hs] at h
    rw [← Except.ok.inj h, ofText_mask hs]

/-! ### Putting halves back -/

theorem mask_of_mem_stood {s : LooseText} : ∀ m ∈ s.stood, m.mask = LooseChar.stand :=
  fun _ hm => by simpa using (List.mem_filter.mp hm).2

theorem length_stood (s : LooseText) :
    s.stood.length = List.count LooseChar.stand s.mask := by
  induction s with
  | nil => rfl
  | cons c s ih =>
    simp only [stood, mask] at ih ⊢
    by_cases h : c.mask = LooseChar.stand <;> simp [h, ih]

theorem stood_ofText {s : Text} : ∀ m ∈ (ofText s).stood, m = .char LooseChar.stand := by
  intro m hm
  obtain ⟨hmem, hmask⟩ := List.mem_filter.mp hm
  obtain ⟨c, -, rfl⟩ := List.mem_map.mp hmem
  rw [show c = LooseChar.stand by simpa [LooseChar.mask] using hmask]

theorem hasHalf_eq_stood (s : LooseText) : s.hasHalf = s.stood.any LooseChar.isHalf := by
  have hhalf : ∀ c : LooseChar, ((c.mask == LooseChar.stand) && c.isHalf) = c.isHalf := fun c => by
    cases c with
    | char c => simp [LooseChar.isHalf, LooseChar.unit?]
    | half u => simp [LooseChar.mask]
  rw [stood, List.any_filter, hasHalf]
  simp only [hhalf]

section Refill

variable {ms : List LooseChar}

theorem mask_refill (hms : ∀ m ∈ ms, m.mask = LooseChar.stand) (t : Text) :
    (refill ms t).mask = t := by
  fun_induction refill ms t with
  | case1 t => exact mask_ofText t
  | case2 => rfl
  | case3 m ms t ih =>
    obtain ⟨hm, hms⟩ := List.forall_mem_cons.mp hms
    exact congrArg₂ List.cons hm (ih hms)
  | case4 m ms c t hc ih => exact congrArg (c :: ·) (ih hms)

theorem refill_ofText (hms : ∀ m ∈ ms, m = .char LooseChar.stand) (t : Text) :
    refill ms t = ofText t := by
  fun_induction refill ms t with
  | case1 t => rfl
  | case2 => rfl
  | case3 m ms t ih =>
    obtain ⟨hm, hms⟩ := List.forall_mem_cons.mp hms
    exact congrArg₂ List.cons hm (ih hms)
  | case4 m ms c t hc ih => exact congrArg (.char c :: ·) (ih hms)

theorem stood_refill (hms : ∀ m ∈ ms, m.mask = LooseChar.stand) {t : Text}
    (h : ms.length = List.count LooseChar.stand t) : (refill ms t).stood = ms := by
  fun_induction refill ms t with
  | case1 t =>
    rw [← List.length_eq_zero_iff, length_stood, mask_ofText, ← h]
    rfl
  | case2 m ms => exact absurd h (by simp)
  | case3 m ms t ih =>
    obtain ⟨hm, hms⟩ := List.forall_mem_cons.mp hms
    rw [stood, List.filter_cons_of_pos (by simpa using hm)]
    exact congrArg (m :: ·) (ih hms (by simpa using h))
  | case4 m ms c t hc ih =>
    rw [stood, List.filter_cons_of_neg (by simpa [LooseChar.mask] using hc)]
    exact ih hms (by simpa [List.count_cons, hc] using h)

/-- A text is its mask with its own halves put back. -/
theorem refill_stood_mask (s : LooseText) : refill s.stood s.mask = s := by
  induction s with
  | nil => rfl
  | cons c s ih =>
    have hmask : mask (c :: s) = c.mask :: mask s := rfl
    by_cases h : c.mask = LooseChar.stand
    · have hstood : stood (c :: s) = c :: stood s := List.filter_cons_of_pos (by simpa using h)
      rw [hstood, hmask, refill, if_pos h, ih]
    · have hstood : stood (c :: s) = stood s := List.filter_cons_of_neg (by simpa using h)
      have hc : (.char c.mask : LooseChar) = c := by
        cases c with
        | char c => rfl
        | half u => exact absurd rfl h
      rw [hstood, hmask]
      cases hs : stood s with
      | nil =>
        rw [hs, refill] at ih
        rw [refill, ofText, List.map_cons, hc, ← ofText, ih]
      | cons m ms =>
        rw [refill, if_neg h, hc, ← hs, ih]

end Refill

variable (s : LooseText)

theorem mask_putBack (t : Text) : (s.putBack t).mask = t :=
  mask_refill (fun m hm => mask_of_mem_stood m (List.mem_of_mem_drop hm)) t

theorem putBack_ofText (u t : Text) : (ofText u).putBack t = ofText t :=
  refill_ofText (fun m hm => stood_ofText m (List.mem_of_mem_drop hm)) t

/-- Where no stand-in is lost, nothing that it stood for is. -/
theorem stood_putBack {t : Text}
    (h : List.count LooseChar.stand t = List.count LooseChar.stand s.mask) :
    (s.putBack t).stood = s.stood := by
  rw [putBack, length_stood, h, Nat.sub_self, List.drop_zero]
  exact stood_refill mask_of_mem_stood (by rw [length_stood, h])

theorem putBack_mask : s.putBack s.mask = s := by
  rw [putBack, length_stood, Nat.sub_self, List.drop_zero, refill_stood_mask]

theorem putBack_nil : s.putBack [] = [] := by
  unfold putBack
  cases List.drop (s.stood.length - List.count LooseChar.stand []) s.stood <;> rfl

/-- Only what stood in the text counts for what is put back. -/
theorem putBack_congr {s s' : LooseText} (h : s.stood = s'.stood) (t : Text) :
    s.putBack t = s'.putBack t := by
  rw [putBack, putBack, h]

/-! ### Lifted functions -/

theorem mask_lift (f : Text → Text) : (s.lift f).mask = f s.mask := mask_putBack s _

theorem lift_ofText (f : Text → Text) (u : Text) : (ofText u).lift f = ofText (f u) := by
  rw [lift, putBack_ofText, mask_ofText]

/-- A function under which no stand-in is lost keeps all halves. -/
theorem hasHalf_lift {f : Text → Text}
    (hf : ∀ t, List.count LooseChar.stand (f t) = List.count LooseChar.stand t) :
    (s.lift f).hasHalf = s.hasHalf := by
  rw [hasHalf_eq_stood, hasHalf_eq_stood, lift, stood_putBack s (hf s.mask)]

/-- What is read back from a written form has its halves. -/
theorem putBack_lift {f : Text → Text}
    (hf : ∀ t, List.count LooseChar.stand (f t) = List.count LooseChar.stand t) :
    (s.lift f).putBack s.mask = s := by
  rw [lift, putBack_congr (stood_putBack s (hf s.mask)), putBack_mask]

end LooseText
end Formulary
